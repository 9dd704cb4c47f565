import Mathlib.Data.Finset.Sort
import Dmcs.Network.Connection
import Dmcs.Network.RequestStream

/-!
# The stream of requests, as text

In `RequestStream` a header or a message comes as a whole.  Here it is text on a connection, which
comes in pieces, and which the receiver reads as what it expects: `NewServer` and `NewHandler` pass
a string or a `ForwardMessage` to `async_read`, depending on what they read before.

The requests of a session still come to the queue in their order, and the receiver is left as by
the stream of headers and messages: `session_refines`.

## The argument

What the receiver passes to `async_read` depends on its state: a header read as a message is no
message.  `Archives` gives the archives of the two types, each of which reads back what it wrote.
The receiver of `RequestStream` expects a header or a message exactly when the sender has written
one, for both senders, so every read succeeds and `Connection.connection_refines` applies to the
frames of a session.
-/

namespace Dmcs

namespace RequestStream

open QueryID Framing Connection

/-- The archives of headers and of messages. -/
structure Archives where
  header : Header → Data
  readHeader : Data → Option Header
  message : ForwardMessage → Data
  readMessage : Data → Option ForwardMessage
  readHeader_header : ∀ h, readHeader (header h) = some h
  readMessage_message : ∀ mess, readMessage (message mess) = some mess

namespace Archives

variable (A : Archives)

/-- What `write` makes of a header or a message. -/
def archive : Frame → Data
  | .header h => A.header h
  | .message mess => A.message mess

/-- `handle_read_data`, for what was passed to `async_read`. -/
def readData (r : Receiver) (s : Data) : Option Receiver :=
  match r.reading with
  | .serverHeader => (A.readHeader s).bind (fun h => r.read (.header h))
  | .message => (A.readMessage s).bind (fun mess => r.read (.message mess))
  | .header => (A.readHeader s).bind (fun h => r.read (.header h))
  | .lastMessage => (A.readMessage s).bind (fun mess => r.read (.message mess))
  | .closed => none

/-- A header or a message that is expected is read as such. -/
lemma readData_archive {r r' : Receiver} {frame : Frame} (h : r.read frame = some r') :
    A.readData r (A.archive frame) = some r' := by
  rw [readData]
  cases frame with
  | header name =>
      cases hreading : r.reading <;> simp only [Receiver.read, hreading] at h ⊢
      case serverHeader => rw [archive, A.readHeader_header, Option.bind_some, h]
      case header => rw [archive, A.readHeader_header, Option.bind_some, h]
      all_goals cases h
  | message mess =>
      cases hreading : r.reading <;> simp only [Receiver.read, hreading] at h ⊢
      case message => rw [archive, A.readMessage_message, Option.bind_some, h]
      case lastMessage => rw [archive, A.readMessage_message, Option.bind_some, h]
      all_goals cases h

end Archives

/-- What a session leaves behind: a handler that is done with a client, and one that waits for the
shutdown of a neighbour. -/
def Session.left (S : Session) : Receiver :=
  match S.sender with
  | .newClient => S.done.receiver
  | .newNeighborOut =>
      ⟨if S.requests = [] then .closed else .lastMessage, S.requests, false⟩

lemma outcome_start (S : Session) : Channel.outcome Receiver.read S.start = some S.left := by
  rw [Session.left]
  cases hS : S.sender with
  | newNeighborOut => exact outcome_newNeighborOut hS
  | newClient => exact outcome_newClient hS

/-- However the text of a session comes, no read fails, the requests come to the queue in their
order, no run is infinite, and a run that cannot go on has left the receiver where the session
leaves it. -/
theorem session_refines (A : Archives) (S : Session)
    (hfits : ∀ frame ∈ S.stream, (A.archive frame).length < 16 ^ 8) :
    (∀ l, Relation.ReflTransGen (Framing.Step (format A.archive) A.readData)
        (Link.start S.stream Receiver.init) l →
      l.reading ≠ .failed ∧
        l.receiver.requestDispatcherMQ <+: S.left.requestDispatcherMQ ∧
        ((∀ l', ¬ Framing.Step (format A.archive) A.readData l l') → l = Link.done S.left)) ∧
      ∀ run : ℕ → Link Char Frame Receiver, run 0 = Link.start S.stream Receiver.init →
        ¬ ∀ n, Framing.Step (format A.archive) A.readData (run n) (run (n + 1)) := by
  have haccepted : accepted A.archive S.stream = S.stream :=
    List.filter_eq_self.mpr (fun frame hframe => decide_eq_true (hfits frame hframe))
  have hF := lawful_format A.archive
  have hstart := refines_start (F := format A.archive) S.stream Receiver.init
  rw [accepted_format, haccepted] at hstart
  refine ⟨fun l hrun => ?_, fun run _ => not_infinite hF run⟩
  obtain ⟨c, hc, hrefines⟩ := exists_refines_of_run hF
    (fun _ _ _ hread => A.readData_archive hread) hstart (outcome_start S) hrun
  have hout : Channel.outcome Receiver.read c = some S.left :=
    (Channel.outcome_run hc).trans (outcome_start S)
  refine ⟨hrefines.not_failed, ?_, hrefines.eq_of_stuck hF hout⟩
  rw [← hrefines.receiver]
  exact prefix_run (Channel.reaches_outcome hout)

/-! ## Data archives -/

/-- Numbers with a blank between them. -/
def numbers (ns : List ℕ) : Data := List.intercalate [' '] (ns.map (Nat.toDigits 10))

def readNumbers (s : Data) : List ℕ :=
  (s.splitOn ' ').map (fun digits => Nat.ofDigitChars 10 digits 0)

lemma readNumbers_numbers {ns : List ℕ} (h : ns ≠ []) : readNumbers (numbers ns) = ns := by
  have hblank : ∀ digits ∈ ns.map (Nat.toDigits 10), ' ' ∉ digits := by
    intro digits hdigits hmem
    obtain ⟨n, -, rfl⟩ := List.mem_map.mp hdigits
    have hdigit := Nat.isDigit_of_mem_toDigits (by decide) (by decide) hmem
    exact absurd hdigit (by decide)
  rw [readNumbers, numbers, List.splitOn_intercalate ' ' hblank (by simpa using h), List.map_map]
  refine (List.map_congr_left fun n _ => ?_).trans (List.map_id ns)
  exact Nat.ofDigitChars_toDigits (by decide) (by decide)

/-- `ForwardMessage::serialize`: the class information of the message, the query id, the window,
the class information of the set, its size, the version of its elements, and the elements. -/
def messageArchive (mess : ForwardMessage) : Data :=
  archiveSignature ++ numbers ([0, 0, mess.qid.toNat, mess.k1, mess.k2, 0, 0,
    mess.history.card, 0] ++ mess.history.sort)

def messageUnarchive (s : Data) : Option ForwardMessage :=
  match readNumbers (s.drop archiveSignature.length) with
  | _ :: _ :: qid :: k1 :: k2 :: _ :: _ :: size :: _ :: history =>
      some ⟨BitVec.ofNat 64 qid, (history.take size).toFinset, k1, k2⟩
  | _ => none

lemma messageUnarchive_messageArchive (mess : ForwardMessage) :
    messageUnarchive (messageArchive mess) = some mess := by
  rw [messageUnarchive, messageArchive, List.drop_left,
    readNumbers_numbers (List.append_ne_nil_of_left_ne_nil (List.cons_ne_nil _ _) _)]
  show some (ForwardMessage.mk (BitVec.ofNat 64 mess.qid.toNat)
    ((mess.history.sort.take mess.history.card).toFinset) mess.k1 mess.k2) = _
  have hcard := Finset.length_sort (s := mess.history) (· ≤ ·)
  rw [BitVec.ofNat_toNat, BitVec.setWidth_eq, ← hcard, List.take_length, Finset.sort_toFinset]

/-- The archives of the library for a header and for a message. -/
def textArchives : Archives where
  header := stringArchive
  readHeader := stringUnarchive
  message := messageArchive
  readMessage := messageUnarchive
  readHeader_header := stringUnarchive_stringArchive
  readMessage_message := messageUnarchive_messageArchive

/-- A client that asks once. -/
def clientOnce : Session where
  sender := .newClient
  requests := [⟨forwardQid (queryId 0 1) 1 0 0, {0}, 1, 5⟩]
  shutdown := ⟨shutdownQueryId 0 2, {0}, 0, 0⟩
  isRequest_requests := by decide
  isShutdown_shutdown := by decide
  requests_ne := fun _ => List.cons_ne_nil _ _

/-- The text of its session brings the handler to its end. -/
theorem session_refines_clientOnce :
    Relation.ReflTransGen (Framing.Step (format textArchives.archive) textArchives.readData)
      (Link.start clientOnce.stream Receiver.init) (Link.done clientOnce.done.receiver) := by
  have hmessage : ∀ mess ∈ clientOnce.requests ++ [clientOnce.shutdown],
      (messageArchive mess).length < 16 ^ 8 := by
    intro mess hmess
    have hhistory : mess.history = {0} := by
      rcases List.mem_cons.mp hmess with rfl | hmess
      · rfl
      · rw [List.mem_singleton.mp hmess]
        rfl
    rw [messageArchive, hhistory, Finset.sort_singleton]
    rcases List.mem_cons.mp hmess with rfl | hmess
    · decide +kernel
    · rw [List.mem_singleton.mp hmess]
      decide +kernel
  have hfits : ∀ frame ∈ clientOnce.stream, (textArchives.archive frame).length < 16 ^ 8 := by
    intro frame hframe
    have hcases : frame ∈ [Frame.header headerReqDmcs, Frame.header headerTerminate] ∨
        ∃ mess ∈ clientOnce.requests ++ [clientOnce.shutdown], frame = .message mess := by
      simp only [clientOnce, Session.stream, NewClient.stream, NewClient.sendHeader,
        NewClient.terminate, List.flatMap_nil, List.append_nil, List.mem_append, List.mem_cons,
        List.not_mem_nil, or_false] at hframe
      rcases hframe with (rfl | rfl) | rfl | rfl
      · exact .inl (List.mem_cons_self)
      · exact .inr ⟨_, List.mem_cons_self, rfl⟩
      · exact .inl (List.mem_cons_of_mem _ List.mem_cons_self)
      · exact .inr ⟨_, List.mem_cons_of_mem _ List.mem_cons_self, rfl⟩
    rcases hcases with hheader | ⟨mess, hmess, rfl⟩
    · rcases List.mem_cons.mp hheader with rfl | hheader
      · decide +kernel
      · rw [List.mem_singleton.mp hheader]
        decide +kernel
    · exact hmessage mess hmess
  obtain ⟨l, hrun, hstuck⟩ := exists_stuck textArchives.readData
    (lawful_format textArchives.archive) (Link.start clientOnce.stream Receiver.init)
  obtain rfl := ((session_refines textArchives clientOnce hfits).1 l hrun).2.2 hstuck
  exact hrun

end RequestStream

end Dmcs
