import Dmcs.Lib.Channel
import Dmcs.Network.RequestDispatcher

/-!
# The stream of requests on one connection (`NewNeighborOut`, `NewClient`, `NewHandler`)

A connection carries headers and messages in turn.  Two programs write on it: the thread
`NewNeighborOut` of a context that asks a neighbour, and the client `NewClient`.  `NewServer` reads
the first header and hands the connection to a `NewHandler`, whose state is what it reads next.

A handler that reads `HEADER_TERMINATE` expects the shutdown message to follow.  The client sends
it; `NewNeighborOut` stops after the header, so the handler waits for ever and the shutdown does
not reach the context (`delivers_iff_newClient`).

## The argument

A session is a list of requests and what the sender makes of it, a list of frames.  `Channel` says
that every run of sender and receiver ends in the state that a fold of the receiver over this list
gives.  So a session delivers if and only if the fold ends with all requests in the queue, in their
order, and with a receiver that waits for nothing (`Session.Delivers`).  The fold over the stream of
`NewClient` does; the fold over that of `NewNeighborOut` ends before the shutdown message, which the
receiver waits for.
-/

namespace Dmcs

namespace RequestStream

open QueryID

/-- A header, as its characters. -/
abbrev Header : Type := List Char

/-- `HEADER_REQ_DMCS`. -/
def headerReqDmcs : Header := "DMCS REQ DMCS".toList

/-- `HEADER_NEXT`. -/
def headerNext : Header := "DMCS NEXT".toList

/-- `HEADER_TERMINATE`. -/
def headerTerminate : Header := "DMCS TERMINATE".toList

/-- `header->find(name) != std::string::npos`. -/
def finds (header name : Header) : Bool := decide (name <:+: header)

/-- What one `write` puts on the connection. -/
inductive Frame where
  | header (h : Header)
  | message (m : ForwardMessage)
  deriving DecidableEq

/-! ## The senders -/

/-- The loop of `NewNeighborOut` over the messages of its queue. -/
def NewNeighborOut.stream : List ForwardMessage → List Frame
  | [] => []
  | mess :: queue =>
      if isShutdown mess.qid then [.header headerTerminate]
      else .header (if isRequest mess.qid then headerReqDmcs else []) :: .message mess ::
        NewNeighborOut.stream queue

namespace NewClient

/-- `send_header` and `send_message`. -/
def sendHeader (header : Header) (mess : ForwardMessage) : List Frame :=
  [.header header, .message mess]

/-- `next`, and the request `handle_read_answer` issues. -/
def next (mess : ForwardMessage) : List Frame := sendHeader headerNext mess

/-- `terminate` and `handle_finalize`. -/
def terminate (endMess : ForwardMessage) : List Frame :=
  [.header headerTerminate, .message endMess]

/-- A client that asks, asks on and terminates. -/
def stream (first : ForwardMessage) (nexts : List ForwardMessage) (endMess : ForwardMessage) :
    List Frame :=
  sendHeader headerReqDmcs first ++ nexts.flatMap next ++ terminate endMess

end NewClient

/-! ## The receiver -/

/-- What is read next: the first header, by `NewServer::handle_read_header`; a message, by
`handle_read_message`; a header, by `handle_read_header`; the last message, by `handle_finalize`;
or nothing. -/
inductive Reading where
  | serverHeader
  | message
  | header
  | lastMessage
  | closed
  deriving DecidableEq

/-- The receiving end: what is read next, what was put on `REQUEST_DISPATCHER_MQ`, and whether the
output thread was sent its `NULL`. -/
structure Receiver where
  reading : Reading
  requestDispatcherMQ : List ForwardMessage
  endRes : Bool
  deriving DecidableEq

/-- A connection was accepted. -/
def Receiver.init : Receiver := ⟨.serverHeader, [], false⟩

/-- One completed read.  `none` stands for a failed assertion and for a message that cannot be
read as what is expected. -/
def Receiver.read (r : Receiver) : Frame → Option Receiver
  | .header h =>
      match r.reading with
      | .serverHeader =>
          -- without a handler the connection goes out of scope
          some { r with reading := if finds h headerReqDmcs then .message else .closed }
      | .header =>
          if finds h headerReqDmcs || finds h headerNext then some { r with reading := .message }
          else if finds h headerTerminate then some { r with reading := .lastMessage }
          else none
      | _ => none
  | .message mess =>
      match r.reading with
      | .message =>
          some { r with
            reading := .header
            requestDispatcherMQ := r.requestDispatcherMQ ++ [mess] }
      | .lastMessage =>
          if isShutdown mess.qid then
            some ⟨.closed, r.requestDispatcherMQ ++ [mess], true⟩
          else none
      | _ => none

/-! ## Sessions -/

/-- Who writes on the connection. -/
inductive Sender where
  | newNeighborOut
  | newClient
  deriving DecidableEq

/-- What is sent on a connection in the whole: requests, then one shutdown.  A client begins with
a request. -/
structure Session where
  sender : Sender
  requests : List ForwardMessage
  shutdown : ForwardMessage
  isRequest_requests : ∀ mess ∈ requests, isRequest mess.qid = true
  isShutdown_shutdown : isShutdown shutdown.qid = true
  requests_ne : sender = .newClient → requests ≠ []

/-- The frames of a session. -/
def Session.stream (S : Session) : List Frame :=
  match S.sender, S.requests with
  | .newNeighborOut, requests => NewNeighborOut.stream (requests ++ [S.shutdown])
  | .newClient, first :: nexts => NewClient.stream first nexts S.shutdown
  | .newClient, [] => []

/-- The connection was accepted, nothing was written. -/
def Session.start (S : Session) : Channel.Link Frame Receiver := ⟨S.stream, [], Receiver.init⟩

/-- Everything was written and read: the requests and then the shutdown were put on the queue, the
output thread got its `NULL`, and nothing more is read. -/
def Session.done (S : Session) : Channel.Link Frame Receiver :=
  ⟨[], [], ⟨.closed, S.requests ++ [S.shutdown], true⟩⟩

/-- Every run puts the messages on the queue in order, ends, and leaves nothing waiting. -/
structure Session.Delivers (S : Session) : Prop where
  inOrder : ∀ l, Relation.ReflTransGen (Channel.Step Receiver.read) S.start l →
    l.receiver.requestDispatcherMQ <+: S.requests ++ [S.shutdown]
  ends : ∀ run : ℕ → Channel.Link Frame Receiver, run 0 = S.start →
    ¬ ∀ n, Channel.Step Receiver.read (run n) (run (n + 1))
  complete : ∀ l, Relation.ReflTransGen (Channel.Step Receiver.read) S.start l →
    (∀ l', ¬ Channel.Step Receiver.read l l') → l = S.done

section Streams

variable {mess : ForwardMessage} {requests queue : List ForwardMessage} {r r' : Receiver}
  {frame : Frame} {S : Session}

/-- A request and what follows it in the queue. -/
lemma stream_request (hmess : isRequest mess.qid = true) :
    NewNeighborOut.stream (mess :: queue) =
      NewClient.sendHeader headerReqDmcs mess ++ NewNeighborOut.stream queue := by
  rw [NewNeighborOut.stream, isShutdown_of_isRequest hmess, hmess]
  rfl

lemma stream_requests (hrequests : ∀ mess ∈ requests, isRequest mess.qid = true) :
    NewNeighborOut.stream (requests ++ queue) =
      requests.flatMap (NewClient.sendHeader headerReqDmcs) ++ NewNeighborOut.stream queue := by
  induction requests with
  | nil => rfl
  | cons mess requests ih =>
      have ih := ih (fun m hm => hrequests m (List.mem_cons_of_mem _ hm))
      rw [List.cons_append, stream_request (hrequests mess (List.mem_cons_self ..)), ih,
        List.flatMap_cons, List.append_assoc]

/-- A header that asks for a message, and the message. -/
lemma read_request {h : Header} (hh : (finds h headerReqDmcs || finds h headerNext) = true)
    (q : List ForwardMessage) (mess : ForwardMessage) :
    (NewClient.sendHeader h mess).foldlM Receiver.read ⟨.header, q, false⟩ =
      some ⟨.header, q ++ [mess], false⟩ := by
  simp only [NewClient.sendHeader, List.foldlM_cons, Receiver.read, hh, if_true]
  rfl

lemma read_requests {h : Header} (hh : (finds h headerReqDmcs || finds h headerNext) = true)
    (q requests : List ForwardMessage) :
    (requests.flatMap (NewClient.sendHeader h)).foldlM Receiver.read ⟨.header, q, false⟩ =
      some ⟨.header, q ++ requests, false⟩ := by
  induction requests generalizing q with
  | nil => simp
  | cons mess requests ih =>
      rw [List.flatMap_cons, List.foldlM_append, read_request hh]
      show (requests.flatMap (NewClient.sendHeader h)).foldlM Receiver.read _ = _
      rw [ih, List.append_assoc, List.singleton_append]

/-- The first request of a connection. -/
lemma read_first (mess : ForwardMessage) :
    (NewClient.sendHeader headerReqDmcs mess).foldlM Receiver.read Receiver.init =
      some ⟨.header, [mess], false⟩ := rfl

/-- Nothing is taken back from the queue. -/
lemma prefix_read (h : r.read frame = some r') :
    r.requestDispatcherMQ <+: r'.requestDispatcherMQ := by
  unfold Receiver.read at h
  split at h <;> split at h
  all_goals try split at h
  all_goals try split at h
  all_goals cases h
  all_goals first | exact List.prefix_refl _ | exact List.prefix_append _ _

lemma prefix_run {l l' : Channel.Link Frame Receiver}
    (h : Relation.ReflTransGen (Channel.Step Receiver.read) l l') :
    l.receiver.requestDispatcherMQ <+: l'.receiver.requestDispatcherMQ := by
  refine TransitionSystem.invariant_of_step (I := fun m =>
    l.receiver.requestDispatcherMQ <+: m.receiver.requestDispatcherMQ) (List.prefix_refl _) ?_ h
  intro m m' hm hstep
  cases hstep with
  | write => exact hm
  | read _ _ hread => exact hm.trans (prefix_read hread)

/-- What the handler makes of the stream decides. -/
lemma delivers_iff_outcome (hout : Channel.outcome Receiver.read S.start = some r) :
    S.Delivers ↔ r = S.done.receiver := by
  constructor
  · intro hdelivers
    have hstuck : ∀ l', ¬ Channel.Step Receiver.read ⟨[], [], r⟩ l' := fun l' h => nomatch h
    have hdone := hdelivers.complete _ (Channel.reaches_outcome hout) hstuck
    exact congrArg Channel.Link.receiver hdone
  · intro hr
    have hl : ∀ l, Relation.ReflTransGen (Channel.Step Receiver.read) S.start l →
        Channel.outcome Receiver.read l = some S.done.receiver := by
      intro l hrun
      rw [Channel.outcome_run hrun, hout, hr]
    refine ⟨?_, fun run _ => Channel.not_infinite run, ?_⟩
    · intro l hrun
      exact prefix_run (Channel.reaches_outcome (hl l hrun))
    · intro l hrun hstuck
      exact Channel.eq_of_stuck (hl l hrun) hstuck

/-- The end of the stream of `NewNeighborOut` finds the handler waiting for a message, or, where
there was no request, the connection ignored. -/
lemma outcome_newNeighborOut (hS : S.sender = .newNeighborOut) :
    Channel.outcome Receiver.read S.start =
      some ⟨if S.requests = [] then .closed else .lastMessage, S.requests, false⟩ := by
  obtain ⟨sender, requests, shutdown, hrequests, hshutdown, hne⟩ := S
  obtain rfl : sender = .newNeighborOut := hS
  have hstop : NewNeighborOut.stream [shutdown] = [.header headerTerminate] := by
    rw [NewNeighborOut.stream, hshutdown]
    rfl
  show (NewNeighborOut.stream (requests ++ [shutdown])).foldlM Receiver.read Receiver.init = _
  rw [stream_requests hrequests, hstop]
  cases requests with
  | nil => rfl
  | cons first requests =>
      rw [List.flatMap_cons, List.append_assoc, List.foldlM_append, read_first]
      show (requests.flatMap (NewClient.sendHeader headerReqDmcs) ++ _).foldlM Receiver.read _ = _
      rw [List.foldlM_append, read_requests (by decide)]
      rfl

lemma outcome_newClient (hS : S.sender = .newClient) :
    Channel.outcome Receiver.read S.start = some S.done.receiver := by
  obtain ⟨sender, requests, shutdown, hrequests, hshutdown, hne⟩ := S
  obtain rfl : sender = .newClient := hS
  cases requests with
  | nil => exact absurd rfl (hne rfl)
  | cons first nexts =>
      show (NewClient.stream first nexts shutdown).foldlM Receiver.read Receiver.init = _
      unfold NewClient.stream
      rw [List.append_assoc, List.foldlM_append, read_first]
      show (nexts.flatMap (NewClient.sendHeader headerNext) ++ _).foldlM Receiver.read _ = _
      rw [List.foldlM_append, read_requests (by decide)]
      have hterminate : (NewClient.terminate shutdown).foldlM Receiver.read
          ⟨.header, [first] ++ nexts, false⟩ =
            some ⟨.closed, first :: nexts ++ [shutdown], true⟩ := by
        show (Receiver.read ⟨.lastMessage, first :: nexts, false⟩ (.message shutdown)).bind _ = _
        simp only [Receiver.read, hshutdown, if_true]
        rfl
      exact hterminate

end Streams

/-- A session delivers its requests and its shutdown exactly if a client sends it.  It is the sender
alone that decides: the number of requests and what they ask make no difference. -/
theorem delivers_iff_newClient (S : Session) : S.Delivers ↔ S.sender = .newClient := by
  cases hS : S.sender with
  | newClient => simp only [delivers_iff_outcome (outcome_newClient hS)]
  | newNeighborOut =>
      rw [delivers_iff_outcome (outcome_newNeighborOut hS)]
      constructor
      · intro h
        have hend : false = true := congrArg Receiver.endRes h
        cases hend
      · intro h
        cases h

/-- A context asks its neighbour once, then shuts down. -/
def askOnce : Session where
  sender := .newNeighborOut
  requests := [⟨forwardQid (queryId 0 1) 1 0 0, {0}, 0, 0⟩]
  shutdown := ⟨shutdownQueryId 0 1, {0}, 0, 0⟩
  isRequest_requests := by decide
  isShutdown_shutdown := by decide
  requests_ne := by decide

/-- The handler of the neighbour is left waiting for the shutdown message. -/
theorem askOnce_not_delivered : ¬ askOnce.Delivers := by
  intro h
  have hstuck := h.complete _ (Channel.reaches_outcome (outcome_newNeighborOut rfl))
    (fun l' hstep => nomatch hstep)
  have hend : false = true := congrArg (fun l => l.receiver.endRes) hstuck
  cases hend

end RequestStream

end Dmcs
