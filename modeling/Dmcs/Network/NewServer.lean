import Mathlib.Data.List.ReduceOption
import Dmcs.Network.NewOutputThread

/-!
# The threads of one server (`NewServer`, `NewHandler`, the dispatchers, the contexts)

A server gives every connection a handler.  The handler reads messages and puts them on the queue of
the request dispatcher, which sends each on to the context it names, or to the cycle breaker of that
context.  The answers go to the queue of the output dispatcher, which looks up the invoker in its
table and sends each on to the queue of an output thread, which writes on its connection.

`step` is one step of one of these threads.  What is sent to whom is as in the code; how a context
computes its models is left open.  Messages and answers remember the connection and the request they
belong to, which the code does not.

## What is a step

A step is what a thread does between two points where it can be interrupted by another one: taking a
message from a queue, putting one on a queue, reading from a connection.  A step that would wait is
not possible, and after a failed assertion no step is.

* A handler reads its first message, registers its output thread (`initMq`) and passes the request
  on; later messages must come from the same invoker.
* The dispatchers look up the offset of a queue in their tables and forward the message.
* A worker takes a request, sends models, and then an end marker; a shutdown message ends its loop.
* A handler that reads `HEADER_TERMINATE` waits for the shutdown message and is finalized; when as
  many handlers were finalized as there were connections, the server is shut down.

`Outcome` lists the results of a step, one constructor for each branch, with what was tested on the
way.  All invariants of a server are proved from it.
-/

namespace Dmcs

open QueryID

variable {bso : BeliefStateOffset}

/-- `NewBaseDispatcher`: the table `id2offset`. -/
structure NewBaseDispatcher where
  id2offset : ℕ → Option ℕ

namespace NewBaseDispatcher

/-- Nothing is registered. -/
def init : NewBaseDispatcher := ⟨fun _ => none⟩

/-- `registerIdOffset`; `none` is its assertion. -/
def registerIdOffset (d : NewBaseDispatcher) (id offset : ℕ) : Option NewBaseDispatcher :=
  match d.id2offset id with
  | some it => if offset = it then some d else none
  | none => some ⟨Function.update d.id2offset id (some offset)⟩

/-- `get_offset`; `none` is its assertion. -/
def getOffset (d : NewBaseDispatcher) (id : ℕ) : Option ℕ := d.id2offset id

variable {d d' : NewBaseDispatcher} {id offset : ℕ}

lemma getOffset_register (h : d.registerIdOffset id offset = some d') :
    d'.getOffset = Function.update d.getOffset id (some offset) := by
  unfold registerIdOffset at h
  cases hid : d.id2offset id with
  | none =>
      rw [hid] at h
      cases h
      rfl
  | some it =>
      simp only [hid, Option.ite_none_right_eq_some] at h
      obtain ⟨rfl, h⟩ := h
      cases h
      exact (Function.update_eq_self_iff.2 hid.symm).symm

lemma register_of_new (h : d.getOffset id = none) (offset : ℕ) :
    ∃ d', d.registerIdOffset id offset = some d' := by
  unfold getOffset at h
  unfold registerIdOffset
  rw [h]
  exact ⟨_, rfl⟩

end NewBaseDispatcher

namespace NewServer

/-- A message that was read on the connection `conn`. -/
structure Request where
  conn : ℕ
  number : ℕ
  mess : ForwardMessage
  deriving DecidableEq

/-- A model or an end marker, with the request it answers. -/
structure Answer (bso : BeliefStateOffset) where
  request : Request
  rbs : ReturnedBeliefState bso

/-- What a handler does next: nothing yet, one of its three callbacks, or the next call within
`handle_finalize`, where `testShutdown` is `isShutdown` of the server. -/
inductive Phase where
  | unconnected
  | readMessage
  | readHeader
  | finalize
  | sendMess (mess : ForwardMessage)
  | notify
  | testShutdown
  | shutdown
  | closed
  deriving DecidableEq

/-- `handle_finalize` was not called yet. -/
def Phase.isOpen : Phase → Bool
  | .readMessage | .readHeader | .finalize => true
  | _ => false

/-- `NewHandler` and its output thread, and the answers the thread has received. -/
structure Handler (bso : BeliefStateOffset) where
  phase : Phase
  firstRound : Bool
  invokerId : ℕ
  offset : ℕ
  thread : NewOutputThread.State bso
  received : List (ReturnedBeliefState bso)

/-- A handler that was not created yet. -/
def Handler.init : Handler bso := ⟨.unconnected, true, 0, 0, NewOutputThread.State.init, []⟩

inductive Thread where
  | notStarted
  | running
  | stopped
  deriving DecidableEq

/-- The two loops of a context. -/
inductive Kind where
  | normalContext
  | cycleBreaker
  deriving DecidableEq

/-- A loop is named by its kind and the offset of its queue. -/
abbrev Worker : Type := Kind × ℕ

inductive Loop where
  | notStarted
  | waiting
  | processing (r : Request)
  | stopped
  deriving DecidableEq

/-- Whose assertion failed. -/
inductive Assertion where
  | newBaseDispatcher
  | newOutputThread
  | context
  deriving DecidableEq

/-- The state of a server.  The handlers are counted in the order of their connections, and
`contexts` are the ids of the contexts by their offsets; `asked` and `emitted` are all requests read
and all answers put on `outputDispatcherMQ` so far. -/
structure State (bso : BeliefStateOffset) where
  handlers : ℕ → Handler bso
  handlerVec : ℕ
  countShutdownHandlers : ℕ
  killed : Bool
  requestDispatcher : NewBaseDispatcher
  outputDispatcher : NewBaseDispatcher
  requestDispatcherThread : Thread
  outputDispatcherThread : Thread
  contexts : List ℕ
  loop : Worker → Loop
  requestDispatcherMQ : List (Option Request)
  queue : Worker → List Request
  outputDispatcherMQ : List (Option (Answer bso))
  outputMQs : ℕ
  outputMQ : ℕ → List (Option (Answer bso))
  asked : List Request
  emitted : List (Answer bso)
  failed : Option Assertion

/-- After `first_initialization_phase`. -/
def State.init : State bso where
  handlers _ := Handler.init
  handlerVec := 0
  countShutdownHandlers := 0
  killed := false
  requestDispatcher := NewBaseDispatcher.init
  outputDispatcher := NewBaseDispatcher.init
  requestDispatcherThread := .notStarted
  outputDispatcherThread := .notStarted
  contexts := []
  loop _ := .notStarted
  requestDispatcherMQ := []
  queue _ := []
  outputDispatcherMQ := []
  outputMQs := 0
  outputMQ _ := []
  asked := []
  emitted := []
  failed := none

/-! ## What the threads do -/

namespace State

/-- Replacing one handler. -/
def setHandler (s : State bso) (c : ℕ) (h : Handler bso) : State bso :=
  { s with handlers := Function.update s.handlers c h }

def setPhase (s : State bso) (c : ℕ) (phase : Phase) : State bso :=
  s.setHandler c { s.handlers c with phase := phase }

/-- `createMainThreads`. -/
def createMainThreads (s : State bso) : Option (State bso) :=
  if s.requestDispatcherThread = .notStarted then
    some { s with requestDispatcherThread := .running, outputDispatcherThread := .running }
  else none

/-- `NormalContext::startup` up to its loop; the cycle breaker is spawned there.  Contexts of a
server have different ids, and their threads are created after the main threads. -/
def startContext (s : State bso) (ctxId : ℕ) : Option (State bso) :=
  if s.requestDispatcherThread = .notStarted ∨ ctxId ∈ s.contexts then none
  else
    let ctxOffset := s.contexts.length
    match s.requestDispatcher.registerIdOffset ctxId ctxOffset with
    | none => some { s with failed := some .newBaseDispatcher }
    | some rd => some { s with
        requestDispatcher := rd
        contexts := s.contexts ++ [ctxId]
        loop := fun w => if w.2 = ctxOffset then .waiting else s.loop w }

/-- `NewServer::handle_read_header` of a connection that begins with `HEADER_REQ_DMCS`. -/
def connect (s : State bso) : State bso :=
  { s.setHandler s.handlerVec { Handler.init with phase := .readMessage } with
    handlerVec := s.handlerVec + 1 }

/-- `init_mq` of the output thread of a new handler. -/
def initMq (s : State bso) (c invoker : ℕ) : Option (State bso) :=
  (s.outputDispatcher.registerIdOffset invoker s.outputMQs).map fun od =>
    { s.setHandler c { s.handlers c with
        firstRound := false
        invokerId := invoker
        offset := s.outputMQs } with
      outputDispatcher := od
      outputMQs := s.outputMQs + 1 }

/-- The message goes to the request dispatcher, and a header is read. -/
def sendRequest (s : State bso) (c : ℕ) (mess : ForwardMessage) : State bso :=
  let r : Request := ⟨c, s.asked.length, mess⟩
  { s.setPhase c .readHeader with
    requestDispatcherMQ := s.requestDispatcherMQ ++ [some r]
    asked := s.asked ++ [r] }

/-- `handle_read_message`.  Senders write only requests here, all with their own id. -/
def readMessage (s : State bso) (c : ℕ) (mess : ForwardMessage) : Option (State bso) :=
  let h := s.handlers c
  let invoker := ctxIdFromQid mess.qid
  if h.phase ≠ .readMessage ∨ isRequest mess.qid = false then none
  else if h.firstRound then
    match s.initMq c invoker with
    | none => some { s with failed := some .newBaseDispatcher }
    | some s' => some (s'.sendRequest c mess)
  else if invoker = h.invokerId then some (s.sendRequest c mess)
  else none

/-- `handle_read_header`: a message follows, or the last one. -/
def readHeader (s : State bso) (c : ℕ) (last : Bool) : Option (State bso) :=
  if (s.handlers c).phase = .readHeader then
    some (s.setPhase c (if last then .finalize else .readMessage))
  else none

/-- `md->send` to the queue of an output thread. -/
def sendOutput (s : State bso) (offset : ℕ) (res : Option (Answer bso)) : State bso :=
  { s with outputMQ := Function.update s.outputMQ offset (s.outputMQ offset ++ [res]) }

/-- `handle_finalize`, up to the `NULL` for the output thread. -/
def finalize (s : State bso) (c : ℕ) (mess : ForwardMessage) : Option (State bso) :=
  if (s.handlers c).phase ≠ .finalize ∨ isShutdown mess.qid = false then none
  else some ((s.setPhase c (.sendMess mess)).sendOutput (s.handlers c).offset none)

/-- The other calls of `handle_finalize`, one at a time. -/
def continueFinalize (s : State bso) (c : ℕ) : Option (State bso) :=
  match (s.handlers c).phase with
  | .sendMess mess => some { s.setPhase c .notify with
      requestDispatcherMQ := s.requestDispatcherMQ ++ [some ⟨c, s.asked.length, mess⟩] }
  | .notify => some { s.setPhase c .testShutdown with
      countShutdownHandlers := s.countShutdownHandlers + 1 }
  | .testShutdown =>
      some (s.setPhase c (if s.countShutdownHandlers = s.handlerVec then .shutdown else .closed))
  | .shutdown => some { s.setPhase c .closed with
      requestDispatcherMQ := s.requestDispatcherMQ ++ [none]
      outputDispatcherMQ := s.outputDispatcherMQ ++ [none]
      killed := true }
  | _ => none

/-- `md->send` to the queue of a loop. -/
def sendTo (s : State bso) (w : Worker) (r : Request) : State bso :=
  { s with queue := Function.update s.queue w (s.queue w ++ [r]) }

/-- `RequestDispatcher::startup` for one message. -/
def dispatch (s : State bso) (r : Request) : State bso :=
  let receiver := receiverFromQid r.mess.qid
  match s.requestDispatcher.getOffset receiver with
  | none => { s with failed := some .newBaseDispatcher }
  | some offset =>
      if isShutdown r.mess.qid then
        (s.sendTo (.normalContext, offset) r).sendTo (.cycleBreaker, offset) r
      else if receiver ∉ r.mess.history then s.sendTo (.normalContext, offset) r
      else s.sendTo (.cycleBreaker, offset) r

/-- The loop of the request dispatcher. -/
def dispatchRequest (s : State bso) : Option (State bso) :=
  if s.requestDispatcherThread ≠ .running then none
  else
    match s.requestDispatcherMQ with
    | [] => none
    | none :: rest => some { s with
        requestDispatcherMQ := rest
        requestDispatcherThread := .stopped }
    | some r :: rest => some (dispatch { s with requestDispatcherMQ := rest } r)

def setLoop (s : State bso) (w : Worker) (l : Loop) : State bso :=
  { s with loop := Function.update s.loop w l }

/-- `(k1 == 0 && k2 == 0) || (0 < k1 && k1 < k2+1)`, for `std::size_t`. -/
def allowed (mess : ForwardMessage) : Bool :=
  (mess.k1 == 0 && mess.k2 == 0) ||
    (decide (0 < mess.k1) && decide (mess.k1 < (mess.k2 + 1) % 2 ^ 64))

/-- The normal context asserts that it is not in the history. -/
def fresh (s : State bso) (w : Worker) (mess : ForwardMessage) : Bool :=
  match w.1, s.contexts[w.2]? with
  | .normalContext, some ctxId => decide (ctxId ∉ mess.history)
  | _, _ => true

/-- `NormalContext::startup` and `CycleBreaker::startup`: the loop takes a message. -/
def takeRequest (s : State bso) (w : Worker) : Option (State bso) :=
  if s.loop w ≠ .waiting then none
  else
    match s.queue w with
    | [] => none
    | r :: rest =>
        let s' := { s with queue := Function.update s.queue w rest }
        if isShutdown r.mess.qid then some (s'.setLoop w .stopped)
        else if allowed r.mess && s.fresh w r.mess then some (s'.setLoop w (.processing r))
        else some { s with failed := some .context }

/-- An answer goes to the output dispatcher. -/
def emit (s : State bso) (r : Request) (beliefState : Option (NewBeliefState bso.width)) :
    State bso :=
  let a : Answer bso := ⟨r, beliefState, r.mess.qid⟩
  { s with outputDispatcherMQ := s.outputDispatcherMQ ++ [some a], emitted := s.emitted ++ [a] }

/-- A loop that processes a request sends a model. -/
def sendModel (s : State bso) (w : Worker) (bs : NewBeliefState bso.width) : Option (State bso) :=
  match s.loop w with
  | .processing r => some (s.emit r (some bs))
  | _ => none

/-- Or it sends the marker for the end of models, and waits. -/
def sendEndMarker (s : State bso) (w : Worker) : Option (State bso) :=
  match s.loop w with
  | .processing r => some ((s.emit r none).setLoop w .waiting)
  | _ => none

/-- The loop of the output dispatcher. -/
def dispatchAnswer (s : State bso) : Option (State bso) :=
  if s.outputDispatcherThread ≠ .running then none
  else
    match s.outputDispatcherMQ with
    | [] => none
    | none :: rest => some { s with
        outputDispatcherMQ := rest
        outputDispatcherThread := .stopped }
    | some a :: rest =>
        match s.outputDispatcher.getOffset (ctxIdFromQid a.rbs.qid) with
        | none => some { s with failed := some .newBaseDispatcher }
        | some offset => some (sendOutput { s with outputDispatcherMQ := rest } offset (some a))

/-- What is written reaches the invoker only while the connection is not closed. -/
def written (h : Handler bso) (t : NewOutputThread.State bso) : NewOutputThread.State bso :=
  if h.phase = .closed then { t with written := h.thread.written } else t

/-- The loop of an output thread. -/
def receiveAnswer (s : State bso) (c : ℕ) : Option (State bso) :=
  let h := s.handlers c
  if h.firstRound || h.thread.stopped then none
  else
    match s.outputMQ h.offset with
    | [] => none
    | res :: rest =>
        match NewOutputThread.startup h.invokerId [res.map Answer.rbs] h.thread with
        | none => some { s with failed := some .newOutputThread }
        | some t => some { s.setHandler c { h with
              thread := written h t
              received := h.received ++ (res.map Answer.rbs).toList } with
            outputMQ := Function.update s.outputMQ h.offset rest }

/-- `killThreads`, and the destructor of a handler, interrupt threads. -/
inductive Interrupted where
  | requestDispatcher
  | outputDispatcher
  | context (offset : ℕ)
  | outputThread (c : ℕ)
  deriving DecidableEq

def interrupt (s : State bso) : Interrupted → Option (State bso)
  | .requestDispatcher =>
      if s.killed ∧ s.requestDispatcherThread = .running then
        some { s with requestDispatcherThread := .stopped }
      else none
  | .outputDispatcher =>
      if s.killed ∧ s.outputDispatcherThread = .running then
        some { s with outputDispatcherThread := .stopped }
      else none
  | .context offset =>
      if s.killed ∧ offset < s.contexts.length then
        some (s.setLoop (.normalContext, offset) .stopped)
      else none
  | .outputThread c =>
      let h := s.handlers c
      if h.phase = .closed then
        some (s.setHandler c { h with thread := { h.thread with stopped := true } })
      else none

end State

/-- One step of a thread, or of the world outside the server. -/
inductive Action (bso : BeliefStateOffset) where
  | createMainThreads
  | startContext (ctxId : ℕ)
  | connect
  | readMessage (c : ℕ) (mess : ForwardMessage)
  | readHeader (c : ℕ) (last : Bool)
  | finalize (c : ℕ) (mess : ForwardMessage)
  | continueFinalize (c : ℕ)
  | dispatchRequest
  | takeRequest (w : Worker)
  | sendModel (w : Worker) (bs : NewBeliefState bso.width)
  | sendEndMarker (w : Worker)
  | dispatchAnswer
  | receiveAnswer (c : ℕ)
  | interrupt (t : State.Interrupted)

/-- After a failed assertion nothing happens any more. -/
def step (s : State bso) (a : Action bso) : Option (State bso) :=
  if s.failed.isSome then none
  else
    match a with
    | .createMainThreads => s.createMainThreads
    | .startContext ctxId => s.startContext ctxId
    | .connect => some s.connect
    | .readMessage c mess => s.readMessage c mess
    | .readHeader c last => s.readHeader c last
    | .finalize c mess => s.finalize c mess
    | .continueFinalize c => s.continueFinalize c
    | .dispatchRequest => s.dispatchRequest
    | .takeRequest w => s.takeRequest w
    | .sendModel w bs => s.sendModel w bs
    | .sendEndMarker w => s.sendEndMarker w
    | .dispatchAnswer => s.dispatchAnswer
    | .receiveAnswer c => s.receiveAnswer c
    | .interrupt t => s.interrupt t

/-- The action waits neither for the world outside nor for an interrupt. -/
def Action.ofServer : Action bso → Bool
  | .createMainThreads | .continueFinalize _ | .dispatchRequest | .takeRequest _ | .sendModel _ _
  | .sendEndMarker _ | .dispatchAnswer | .receiveAnswer _ => true
  | _ => false

/-- All threads of the server wait. -/
def State.Quiet (s : State bso) : Prop := ∀ a : Action bso, a.ofServer = true → step s a = none

/-- The states reached when every step meets a condition. -/
def Reached (meets : State bso → Action bso → Bool) : State bso → Prop :=
  Relation.ReflTransGen (fun s s' => ∃ a, meets s a = true ∧ step s a = some s') State.init

/-- A step that meets the condition. -/
def guarded (meets : State bso → Action bso → Bool) (s : State bso) (a : Action bso) :
    Option (State bso) := if meets s a then step s a else none

lemma reached_of_foldlM {meets : State bso → Action bso → Bool} {actions : List (Action bso)}
    {s : State bso} (h : actions.foldlM (guarded meets) State.init = some s) : Reached meets s := by
  apply Relation.ReflTransGen.mono ?_ _ _ (TransitionSystem.reflTransGen_of_foldlM h)
  rintro t t' ⟨a, ha⟩
  unfold guarded at ha
  exact ⟨a, (Option.ite_none_right_eq_some.1 ha)⟩

/-! ## The steps, one by one -/

/-- What a step can be: the guards it passed, and the state after it. -/
inductive Outcome (s : State bso) : Action bso → State bso → Prop
  | createMainThreads (h : s.requestDispatcherThread = .notStarted) :
      Outcome s .createMainThreads
        { s with requestDispatcherThread := .running, outputDispatcherThread := .running }
  | startContext {ctxId : ℕ} {rd : NewBaseDispatcher} (h : s.requestDispatcherThread ≠ .notStarted)
      (hnew : ctxId ∉ s.contexts)
      (hrd : s.requestDispatcher.registerIdOffset ctxId s.contexts.length = some rd) :
      Outcome s (.startContext ctxId) { s with
        requestDispatcher := rd
        contexts := s.contexts ++ [ctxId]
        loop := fun w => if w.2 = s.contexts.length then .waiting else s.loop w }
  | contextRefused {ctxId : ℕ} (hnew : ctxId ∉ s.contexts)
      (hrd : s.requestDispatcher.registerIdOffset ctxId s.contexts.length = none) :
      Outcome s (.startContext ctxId) { s with failed := some .newBaseDispatcher }
  | connect : Outcome s .connect s.connect
  | firstMessage {c : ℕ} {mess : ForwardMessage} {s' : State bso}
      (h : (s.handlers c).phase = .readMessage) (hmess : isRequest mess.qid = true)
      (hfirst : (s.handlers c).firstRound = true)
      (hs' : s.initMq c (ctxIdFromQid mess.qid) = some s') :
      Outcome s (.readMessage c mess) (s'.sendRequest c mess)
  | invokerRefused {c : ℕ} {mess : ForwardMessage} (h : (s.handlers c).phase = .readMessage)
      (hfirst : (s.handlers c).firstRound = true)
      (hs' : s.initMq c (ctxIdFromQid mess.qid) = none) :
      Outcome s (.readMessage c mess) { s with failed := some .newBaseDispatcher }
  | nextMessage {c : ℕ} {mess : ForwardMessage} (h : (s.handlers c).phase = .readMessage)
      (hmess : isRequest mess.qid = true) (hfirst : (s.handlers c).firstRound = false)
      (hinvoker : ctxIdFromQid mess.qid = (s.handlers c).invokerId) :
      Outcome s (.readMessage c mess) (s.sendRequest c mess)
  | readHeader {c : ℕ} (last : Bool) (h : (s.handlers c).phase = .readHeader) :
      Outcome s (.readHeader c last) (s.setPhase c (if last then .finalize else .readMessage))
  | finalize {c : ℕ} {mess : ForwardMessage} (h : (s.handlers c).phase = .finalize)
      (hmess : isShutdown mess.qid = true) :
      Outcome s (.finalize c mess)
        ((s.setPhase c (.sendMess mess)).sendOutput (s.handlers c).offset none)
  | sendMess {c : ℕ} {mess : ForwardMessage} (h : (s.handlers c).phase = .sendMess mess) :
      Outcome s (.continueFinalize c) { s.setPhase c .notify with
        requestDispatcherMQ := s.requestDispatcherMQ ++ [some ⟨c, s.asked.length, mess⟩] }
  | notify {c : ℕ} (h : (s.handlers c).phase = .notify) :
      Outcome s (.continueFinalize c) { s.setPhase c .testShutdown with
        countShutdownHandlers := s.countShutdownHandlers + 1 }
  | testShutdown {c : ℕ} (h : (s.handlers c).phase = .testShutdown) :
      Outcome s (.continueFinalize c)
        (s.setPhase c (if s.countShutdownHandlers = s.handlerVec then .shutdown else .closed))
  | shutdown {c : ℕ} (h : (s.handlers c).phase = .shutdown) :
      Outcome s (.continueFinalize c) { s.setPhase c .closed with
        requestDispatcherMQ := s.requestDispatcherMQ ++ [none]
        outputDispatcherMQ := s.outputDispatcherMQ ++ [none]
        killed := true }
  | stopRequests {rest : List (Option Request)} (h : s.requestDispatcherThread = .running)
      (hq : s.requestDispatcherMQ = none :: rest) :
      Outcome s .dispatchRequest { s with
        requestDispatcherMQ := rest
        requestDispatcherThread := .stopped }
  | requestRefused {r : Request} {rest : List (Option Request)}
      (hq : s.requestDispatcherMQ = some r :: rest)
      (hoffset : s.requestDispatcher.getOffset (receiverFromQid r.mess.qid) = none) :
      Outcome s .dispatchRequest { s with
        requestDispatcherMQ := rest
        failed := some .newBaseDispatcher }
  | forwardShutdown {r : Request} {rest : List (Option Request)} {offset : ℕ}
      (h : s.requestDispatcherThread = .running) (hq : s.requestDispatcherMQ = some r :: rest)
      (hoffset : s.requestDispatcher.getOffset (receiverFromQid r.mess.qid) = some offset)
      (hr : isShutdown r.mess.qid = true) :
      Outcome s .dispatchRequest (State.sendTo
        (State.sendTo { s with requestDispatcherMQ := rest } (.normalContext, offset) r)
        (.cycleBreaker, offset) r)
  | forwardRequest {r : Request} {rest : List (Option Request)} {w : Worker}
      (h : s.requestDispatcherThread = .running) (hq : s.requestDispatcherMQ = some r :: rest)
      (hoffset : s.requestDispatcher.getOffset (receiverFromQid r.mess.qid) = some w.2)
      (hr : isShutdown r.mess.qid = false)
      (hhistory : w.1 = .normalContext → receiverFromQid r.mess.qid ∉ r.mess.history) :
      Outcome s .dispatchRequest (State.sendTo { s with requestDispatcherMQ := rest } w r)
  | stopLoop {w : Worker} {r : Request} {rest : List Request} (h : s.loop w = .waiting)
      (hq : s.queue w = r :: rest) (hr : isShutdown r.mess.qid = true) :
      Outcome s (.takeRequest w)
        (State.setLoop { s with queue := Function.update s.queue w rest } w .stopped)
  | takeRequest {w : Worker} {r : Request} {rest : List Request} (h : s.loop w = .waiting)
      (hq : s.queue w = r :: rest) (hr : isShutdown r.mess.qid = false)
      (hok : (State.allowed r.mess && s.fresh w r.mess) = true) :
      Outcome s (.takeRequest w)
        (State.setLoop { s with queue := Function.update s.queue w rest } w (.processing r))
  | badRequest {w : Worker} {r : Request} {rest : List Request} (hq : s.queue w = r :: rest)
      (hr : isShutdown r.mess.qid = false)
      (hbad : (State.allowed r.mess && s.fresh w r.mess) = false) :
      Outcome s (.takeRequest w) { s with failed := some .context }
  | sendModel {w : Worker} {r : Request} (bs : NewBeliefState bso.width)
      (h : s.loop w = .processing r) : Outcome s (.sendModel w bs) (s.emit r (some bs))
  | sendEndMarker {w : Worker} {r : Request} (h : s.loop w = .processing r) :
      Outcome s (.sendEndMarker w) ((s.emit r none).setLoop w .waiting)
  | stopAnswers {rest : List (Option (Answer bso))} (h : s.outputDispatcherThread = .running)
      (hq : s.outputDispatcherMQ = none :: rest) :
      Outcome s .dispatchAnswer { s with
        outputDispatcherMQ := rest
        outputDispatcherThread := .stopped }
  | dispatchAnswer {a : Answer bso} {rest : List (Option (Answer bso))} {offset : ℕ}
      (h : s.outputDispatcherThread = .running) (hq : s.outputDispatcherMQ = some a :: rest)
      (hoffset : s.outputDispatcher.getOffset (ctxIdFromQid a.rbs.qid) = some offset) :
      Outcome s .dispatchAnswer
        (State.sendOutput { s with outputDispatcherMQ := rest } offset (some a))
  | answerRefused {a : Answer bso} {rest : List (Option (Answer bso))}
      (hq : s.outputDispatcherMQ = some a :: rest)
      (hoffset : s.outputDispatcher.getOffset (ctxIdFromQid a.rbs.qid) = none) :
      Outcome s .dispatchAnswer { s with failed := some .newBaseDispatcher }
  | receiveAnswer {c : ℕ} {res : Option (Answer bso)} {rest : List (Option (Answer bso))}
      {t : NewOutputThread.State bso} (hfirst : (s.handlers c).firstRound = false)
      (hrun : (s.handlers c).thread.stopped = false)
      (hq : s.outputMQ (s.handlers c).offset = res :: rest)
      (ht : NewOutputThread.startup (s.handlers c).invokerId [res.map Answer.rbs]
        (s.handlers c).thread = some t) :
      Outcome s (.receiveAnswer c) { s.setHandler c { s.handlers c with
          thread := State.written (s.handlers c) t
          received := (s.handlers c).received ++ (res.map Answer.rbs).toList } with
        outputMQ := Function.update s.outputMQ (s.handlers c).offset rest }
  | strangeAnswer {c : ℕ} {res : Option (Answer bso)} {rest : List (Option (Answer bso))}
      (hfirst : (s.handlers c).firstRound = false)
      (hq : s.outputMQ (s.handlers c).offset = res :: rest)
      (ht : NewOutputThread.startup (s.handlers c).invokerId [res.map Answer.rbs]
        (s.handlers c).thread = none) :
      Outcome s (.receiveAnswer c) { s with failed := some .newOutputThread }
  | interruptRequests (h : s.killed = true) (hthread : s.requestDispatcherThread = .running) :
      Outcome s (.interrupt .requestDispatcher) { s with requestDispatcherThread := .stopped }
  | interruptAnswers (h : s.killed = true) (hthread : s.outputDispatcherThread = .running) :
      Outcome s (.interrupt .outputDispatcher) { s with outputDispatcherThread := .stopped }
  | interruptContext {offset : ℕ} (h : s.killed = true) (hoffset : offset < s.contexts.length) :
      Outcome s (.interrupt (.context offset)) (s.setLoop (.normalContext, offset) .stopped)
  | interruptThread {c : ℕ} (h : (s.handlers c).phase = .closed) :
      Outcome s (.interrupt (.outputThread c))
        (s.setHandler c
          { s.handlers c with thread := { (s.handlers c).thread with stopped := true } })

namespace Outcome

variable {s s' : State bso}

lemma of_createMainThreads (h : s.createMainThreads = some s') :
    Outcome s .createMainThreads s' := by
  simp only [State.createMainThreads, Option.ite_none_right_eq_some, Option.some.injEq] at h
  obtain ⟨hthread, rfl⟩ := h
  exact .createMainThreads hthread

lemma of_startContext {ctxId : ℕ} (h : s.startContext ctxId = some s') :
    Outcome s (.startContext ctxId) s' := by
  simp only [State.startContext, Option.ite_none_left_eq_some, not_or] at h
  obtain ⟨⟨hthread, hnew⟩, h⟩ := h
  cases hrd : s.requestDispatcher.registerIdOffset ctxId s.contexts.length with
  | none =>
      rw [hrd] at h
      cases h
      exact .contextRefused hnew hrd
  | some rd =>
      rw [hrd] at h
      cases h
      exact .startContext hthread hnew hrd

lemma of_readMessage {c : ℕ} {mess : ForwardMessage} (h : s.readMessage c mess = some s') :
    Outcome s (.readMessage c mess) s' := by
  simp only [State.readMessage, Option.ite_none_left_eq_some, not_or, not_not,
    Bool.not_eq_false] at h
  obtain ⟨⟨hphase, hmess⟩, h⟩ := h
  cases hfirst : (s.handlers c).firstRound with
  | true =>
      rw [hfirst, if_pos rfl] at h
      cases hs' : s.initMq c (ctxIdFromQid mess.qid) with
      | none =>
          rw [hs'] at h
          cases h
          exact .invokerRefused hphase hfirst hs'
      | some s₁ =>
          rw [hs'] at h
          cases h
          exact .firstMessage hphase hmess hfirst hs'
  | false =>
      rw [hfirst, if_neg Bool.false_ne_true, Option.ite_none_right_eq_some] at h
      obtain ⟨hinvoker, h⟩ := h
      cases h
      exact .nextMessage hphase hmess hfirst hinvoker

lemma of_readHeader {c : ℕ} {last : Bool} (h : s.readHeader c last = some s') :
    Outcome s (.readHeader c last) s' := by
  simp only [State.readHeader, Option.ite_none_right_eq_some] at h
  obtain ⟨hphase, h⟩ := h
  cases h
  exact .readHeader last hphase

lemma of_finalize {c : ℕ} {mess : ForwardMessage} (h : s.finalize c mess = some s') :
    Outcome s (.finalize c mess) s' := by
  simp only [State.finalize, Option.ite_none_left_eq_some, not_or, not_not,
    Bool.not_eq_false] at h
  obtain ⟨⟨hphase, hmess⟩, h⟩ := h
  cases h
  exact .finalize hphase hmess

lemma of_continueFinalize {c : ℕ} (h : s.continueFinalize c = some s') :
    Outcome s (.continueFinalize c) s' := by
  unfold State.continueFinalize at h
  cases hphase : (s.handlers c).phase with
  | sendMess mess =>
      simp only [hphase] at h
      cases h
      exact .sendMess hphase
  | notify =>
      simp only [hphase] at h
      cases h
      exact .notify hphase
  | testShutdown =>
      simp only [hphase] at h
      cases h
      exact .testShutdown hphase
  | shutdown =>
      simp only [hphase] at h
      cases h
      exact .shutdown hphase
  | unconnected => simp [hphase] at h
  | readMessage => simp [hphase] at h
  | readHeader => simp [hphase] at h
  | finalize => simp [hphase] at h
  | closed => simp [hphase] at h

lemma of_dispatchRequest (h : s.dispatchRequest = some s') :
    Outcome s .dispatchRequest s' := by
  simp only [State.dispatchRequest, Option.ite_none_left_eq_some, not_not] at h
  obtain ⟨hthread, h⟩ := h
  rcases hq : s.requestDispatcherMQ with _ | ⟨_ | r, rest⟩
  · simp [hq] at h
  · simp only [hq] at h
    cases h
    exact .stopRequests hthread hq
  · simp only [hq] at h
    cases h
    unfold State.dispatch
    cases hoffset : s.requestDispatcher.getOffset (receiverFromQid r.mess.qid) with
    | none =>
        simp only [hoffset]
        exact .requestRefused hq hoffset
    | some offset =>
        simp only [hoffset]
        by_cases hr : isShutdown r.mess.qid = true
        · rw [if_pos hr]
          exact .forwardShutdown hthread hq hoffset hr
        · rw [if_neg hr]
          rw [Bool.not_eq_true] at hr
          by_cases hhistory : receiverFromQid r.mess.qid ∉ r.mess.history
          · rw [if_pos hhistory]
            exact .forwardRequest hthread hq hoffset hr (fun _ => hhistory)
          · rw [if_neg hhistory]
            exact .forwardRequest hthread hq hoffset hr (fun h => nomatch h)

lemma of_takeRequest {w : Worker} (h : s.takeRequest w = some s') :
    Outcome s (.takeRequest w) s' := by
  simp only [State.takeRequest, Option.ite_none_left_eq_some, not_not] at h
  obtain ⟨hloop, h⟩ := h
  rcases hq : s.queue w with _ | ⟨r, rest⟩
  · simp [hq] at h
  · simp only [hq] at h
    cases hr : isShutdown r.mess.qid with
    | true =>
        rw [hr, if_pos rfl] at h
        cases h
        exact .stopLoop hloop hq hr
    | false =>
        rw [hr, if_neg Bool.false_ne_true] at h
        cases hok : State.allowed r.mess && s.fresh w r.mess with
        | true =>
            rw [hok, if_pos rfl] at h
            cases h
            exact .takeRequest hloop hq hr hok
        | false =>
            rw [hok, if_neg Bool.false_ne_true] at h
            cases h
            exact .badRequest hq hr hok

lemma of_sendModel {w : Worker} {bs : NewBeliefState bso.width} (h : s.sendModel w bs = some s') :
    Outcome s (.sendModel w bs) s' := by
  cases hloop : s.loop w with
  | processing r =>
      simp only [State.sendModel, hloop] at h
      cases h
      exact .sendModel bs hloop
  | notStarted => simp [State.sendModel, hloop] at h
  | waiting => simp [State.sendModel, hloop] at h
  | stopped => simp [State.sendModel, hloop] at h

lemma of_sendEndMarker {w : Worker} (h : s.sendEndMarker w = some s') :
    Outcome s (.sendEndMarker w) s' := by
  cases hloop : s.loop w with
  | processing r =>
      simp only [State.sendEndMarker, hloop] at h
      cases h
      exact .sendEndMarker hloop
  | notStarted => simp [State.sendEndMarker, hloop] at h
  | waiting => simp [State.sendEndMarker, hloop] at h
  | stopped => simp [State.sendEndMarker, hloop] at h

lemma of_dispatchAnswer (h : s.dispatchAnswer = some s') :
    Outcome s .dispatchAnswer s' := by
  simp only [State.dispatchAnswer, Option.ite_none_left_eq_some, not_not] at h
  obtain ⟨hthread, h⟩ := h
  rcases hq : s.outputDispatcherMQ with _ | ⟨_ | a, rest⟩
  · simp [hq] at h
  · simp only [hq] at h
    cases h
    exact .stopAnswers hthread hq
  · simp only [hq] at h
    cases hoffset : s.outputDispatcher.getOffset (ctxIdFromQid a.rbs.qid) with
    | none =>
        rw [hoffset, ← hq] at h
        cases h
        exact .answerRefused hq hoffset
    | some offset =>
        rw [hoffset] at h
        cases h
        exact .dispatchAnswer hthread hq hoffset

lemma of_receiveAnswer {c : ℕ} (h : s.receiveAnswer c = some s') :
    Outcome s (.receiveAnswer c) s' := by
  simp only [State.receiveAnswer, Option.ite_none_left_eq_some, Bool.or_eq_true, not_or,
    Bool.not_eq_true] at h
  obtain ⟨⟨hfirst, hrun⟩, h⟩ := h
  rcases hq : s.outputMQ (s.handlers c).offset with _ | ⟨res, rest⟩
  · simp [hq] at h
  · simp only [hq] at h
    cases ht : NewOutputThread.startup (s.handlers c).invokerId [res.map Answer.rbs]
        (s.handlers c).thread with
    | none =>
        rw [ht] at h
        cases h
        exact .strangeAnswer hfirst hq ht
    | some t =>
        rw [ht] at h
        cases h
        exact .receiveAnswer hfirst hrun hq ht

lemma of_interrupt {t : State.Interrupted} (h : s.interrupt t = some s') :
    Outcome s (.interrupt t) s' := by
  cases t with
  | requestDispatcher =>
      simp only [State.interrupt, Option.ite_none_right_eq_some] at h
      obtain ⟨⟨hkilled, hthread⟩, h⟩ := h
      cases h
      exact .interruptRequests hkilled hthread
  | outputDispatcher =>
      simp only [State.interrupt, Option.ite_none_right_eq_some] at h
      obtain ⟨⟨hkilled, hthread⟩, h⟩ := h
      cases h
      exact .interruptAnswers hkilled hthread
  | context offset =>
      simp only [State.interrupt, Option.ite_none_right_eq_some] at h
      obtain ⟨⟨hkilled, hoffset⟩, h⟩ := h
      cases h
      exact .interruptContext hkilled hoffset
  | outputThread c =>
      simp only [State.interrupt, Option.ite_none_right_eq_some] at h
      obtain ⟨hphase, h⟩ := h
      cases h
      exact .interruptThread hphase

end Outcome

/-- Every step is one of these, and is made only while no assertion has failed. -/
lemma outcome_of_step {s s' : State bso} {a : Action bso} (h : step s a = some s') :
    s.failed = none ∧ Outcome s a s' := by
  unfold step at h
  by_cases hfailed : s.failed.isSome = true
  · rw [if_pos hfailed] at h
    cases h
  · rw [if_neg hfailed] at h
    refine ⟨Option.not_isSome_iff_eq_none.1 hfailed, ?_⟩
    cases a with
    | connect =>
        cases h
        exact Outcome.connect
    | createMainThreads => exact Outcome.of_createMainThreads h
    | startContext ctxId => exact Outcome.of_startContext h
    | readMessage c mess => exact Outcome.of_readMessage h
    | readHeader c last => exact Outcome.of_readHeader h
    | finalize c mess => exact Outcome.of_finalize h
    | continueFinalize c => exact Outcome.of_continueFinalize h
    | dispatchRequest => exact Outcome.of_dispatchRequest h
    | takeRequest w => exact Outcome.of_takeRequest h
    | sendModel w bs => exact Outcome.of_sendModel h
    | sendEndMarker w => exact Outcome.of_sendEndMarker h
    | dispatchAnswer => exact Outcome.of_dispatchAnswer h
    | receiveAnswer c => exact Outcome.of_receiveAnswer h
    | interrupt t => exact Outcome.of_interrupt h

/-! ## What holds of every server -/

/-- A handler that has read a header has an output thread; what it read last was a shutdown. -/
structure Handler.WellFormed (h : Handler bso) : Prop where
  begun : h.phase = .unconnected ∨ h.phase = .readMessage ∨ h.firstRound = false
  last : ∀ mess, h.phase = .sendMess mess → isShutdown mess.qid = true

/-- Handlers are created in order; the request dispatcher names contexts by their offsets; only
contexts that were started have loops and queues; the queue of a normal context holds no request
that has passed it. -/
structure State.WellFormed (s : State bso) : Prop where
  uncreated : ∀ c, s.handlerVec ≤ c → s.handlers c = Handler.init
  handler : ∀ c, (s.handlers c).WellFormed
  registered : ∀ id o, s.requestDispatcher.getOffset id = some o → s.contexts[o]? = some id
  bounded : ∀ w : Worker, s.contexts.length ≤ w.2 → s.queue w = [] ∧ s.loop w = .notStarted
  processing : ∀ w r, s.loop w = .processing r → isShutdown r.mess.qid = false
  queued : ∀ w, ∀ r ∈ s.queue w, isShutdown r.mess.qid = false → s.fresh w r.mess = true

namespace State.WellFormed

variable {s s' : State bso} {c : ℕ} {w : Worker} {r : Request}

lemma init : WellFormed (State.init : State bso) where
  uncreated _ _ := rfl
  handler _ := ⟨Or.inl rfl, fun _ h => nomatch h⟩
  registered _ _ h := nomatch h
  bounded _ _ := ⟨rfl, rfl⟩
  processing _ _ h := nomatch h
  queued _ _ h := nomatch h

lemma lt_of_phase (hs : s.WellFormed) (h : (s.handlers c).phase ≠ .unconnected) :
    c < s.handlerVec := by
  by_contra hlt
  rw [hs.uncreated c (Nat.le_of_not_lt hlt)] at h
  exact h rfl

lemma lt_of_firstRound (hs : s.WellFormed) (h : (s.handlers c).firstRound = false) :
    c < s.handlerVec := by
  by_contra hlt
  rw [hs.uncreated c (Nat.le_of_not_lt hlt)] at h
  cases h

lemma lt_of_loop (hs : s.WellFormed) (h : s.loop w ≠ .notStarted) : w.2 < s.contexts.length := by
  by_contra hlt
  exact h (hs.bounded w (Nat.le_of_not_lt hlt)).2

lemma lt_of_queue (hs : s.WellFormed) (h : r ∈ s.queue w) : w.2 < s.contexts.length := by
  by_contra hlt
  rw [(hs.bounded w (Nat.le_of_not_lt hlt)).1] at h
  cases h

/-- A handler that is past its first message. -/
lemma firstRound_eq (hs : s.WellFormed) (hphase : (s.handlers c).phase ≠ .unconnected)
    (hphase' : (s.handlers c).phase ≠ .readMessage) : (s.handlers c).firstRound = false := by
  rcases (hs.handler c).begun with h | h | h
  · exact absurd h hphase
  · exact absurd h hphase'
  · exact h

lemma setHandler (hs : s.WellFormed) (hc : c < s.handlerVec) {h : Handler bso} (hh : h.WellFormed) :
    (s.setHandler c h).WellFormed :=
  { hs with
    uncreated := by
      intro d hd
      have hne : d ≠ c := by
        rintro rfl
        exact absurd hc (Nat.not_lt.2 hd)
      exact (Function.update_of_ne hne _ _).trans (hs.uncreated d hd)
    handler := by
      intro d
      show (Function.update s.handlers c h d).WellFormed
      by_cases hd : d = c
      · rw [hd, Function.update_self]
        exact hh
      · rw [Function.update_of_ne hd]
        exact hs.handler d }

lemma setPhase (hs : s.WellFormed) (hfirst : (s.handlers c).firstRound = false) {p : Phase}
    (hp : ∀ mess, p = .sendMess mess → isShutdown mess.qid = true) :
    (s.setPhase c p).WellFormed :=
  hs.setHandler (hs.lt_of_firstRound hfirst) ⟨Or.inr (Or.inr hfirst), hp⟩

lemma setLoop (hs : s.WellFormed) (hw : w.2 < s.contexts.length) {l : Loop}
    (hl : ∀ r, l = .processing r → isShutdown r.mess.qid = false) : (s.setLoop w l).WellFormed :=
  { hs with
    bounded := by
      intro v hv
      have hne : v ≠ w := by
        rintro rfl
        exact absurd hw (Nat.not_lt.2 hv)
      exact ⟨(hs.bounded v hv).1, (Function.update_of_ne hne _ _).trans (hs.bounded v hv).2⟩
    processing := by
      intro v r hr
      by_cases hv : v = w
      · subst hv
        refine hl r (Eq.trans ?_ hr)
        exact (Function.update_self v l s.loop).symm
      · refine hs.processing v r (Eq.trans ?_ hr)
        exact (Function.update_of_ne hv l s.loop).symm }

/-- The queues of the loops may only get shorter, or longer by what is fit for them. -/
lemma setQueue (hs : s.WellFormed) (hw : w.2 < s.contexts.length) {q : List Request}
    (hq : ∀ r ∈ q, r ∈ s.queue w ∨ (isShutdown r.mess.qid = false → s.fresh w r.mess = true)) :
    WellFormed { s with queue := Function.update s.queue w q } :=
  { hs with
    bounded := by
      intro v hv
      have hne : v ≠ w := by
        rintro rfl
        exact absurd hw (Nat.not_lt.2 hv)
      exact ⟨(Function.update_of_ne hne _ _).trans (hs.bounded v hv).1, (hs.bounded v hv).2⟩
    queued := by
      intro v r hr
      by_cases hv : v = w
      · subst hv
        rcases hq r ((Function.update_self v q s.queue) ▸ hr) with hold | hnew
        · exact hs.queued v r hold
        · exact hnew
      · exact hs.queued v r ((Function.update_of_ne hv q s.queue) ▸ hr) }

lemma sendTo (hs : s.WellFormed) (hw : w.2 < s.contexts.length)
    (hr : isShutdown r.mess.qid = false → s.fresh w r.mess = true) : (s.sendTo w r).WellFormed := by
  apply hs.setQueue hw
  intro r' hr'
  rcases List.mem_append.1 hr' with hr' | hr'
  · exact Or.inl hr'
  · rw [List.mem_singleton.1 hr']
    exact Or.inr hr

lemma tail (hs : s.WellFormed) {rest : List Request} (hq : s.queue w = r :: rest) :
    WellFormed { s with queue := Function.update s.queue w rest } := by
  apply hs.setQueue
  · apply hs.lt_of_queue (r := r)
    rw [hq]
    exact List.mem_cons_self
  · intro r' hr'
    rw [hq]
    exact Or.inl (List.mem_cons_of_mem r hr')

lemma startContext (hs : s.WellFormed) {ctxId : ℕ} {rd : NewBaseDispatcher}
    (hrd : s.requestDispatcher.registerIdOffset ctxId s.contexts.length = some rd) :
    WellFormed { s with
      requestDispatcher := rd
      contexts := s.contexts ++ [ctxId]
      loop := fun w => if w.2 = s.contexts.length then .waiting else s.loop w } where
  uncreated := hs.uncreated
  handler := hs.handler
  registered id o h := by
    rw [NewBaseDispatcher.getOffset_register hrd] at h
    by_cases hid : id = ctxId
    · rw [hid, Function.update_self, Option.some_inj] at h
      rw [← h, hid]
      exact List.getElem?_concat_length
    · rw [Function.update_of_ne hid] at h
      have hold := hs.registered id o h
      exact (List.getElem?_append_left (List.getElem?_eq_some_iff.1 hold).1).trans hold
  bounded w hw := by
    have hlt : s.contexts.length < w.2 := by
      rw [List.length_append] at hw
      exact hw
    exact ⟨(hs.bounded w hlt.le).1, (if_neg hlt.ne').trans (hs.bounded w hlt.le).2⟩
  processing w r h := by
    by_cases hw : w.2 = s.contexts.length
    · exact Loop.noConfusion ((if_pos hw).symm.trans h)
    · exact hs.processing w r ((if_neg hw).symm.trans h)
  queued w r hr hshut := by
    have hold := hs.queued w r hr hshut
    unfold State.fresh at hold ⊢
    rwa [List.getElem?_append_left (hs.lt_of_queue hr)]

lemma sendRequest (hs : s.WellFormed) (hfirst : (s.handlers c).firstRound = false)
    (mess : ForwardMessage) : (s.sendRequest c mess).WellFormed :=
  { hs.setPhase (p := .readHeader) hfirst (fun _ h => nomatch h) with }

/-- The first message of a connection. -/
lemma initMq (hs : s.WellFormed) {invoker : ℕ} (hphase : (s.handlers c).phase = .readMessage)
    (h : s.initMq c invoker = some s') : s'.WellFormed ∧ (s'.handlers c).firstRound = false := by
  obtain ⟨od, -, rfl⟩ := Option.map_eq_some_iff.1 h
  have hc := hs.lt_of_phase (c := c) (by rw [hphase]; exact Phase.noConfusion)
  constructor
  · refine { hs.setHandler hc (h := { s.handlers c with
      firstRound := false
      invokerId := invoker
      offset := s.outputMQs }) ⟨Or.inr (Or.inr rfl), ?_⟩ with }
    intro mess hmess
    rw [hphase] at hmess
    cases hmess
  · show (Function.update s.handlers c _ c).firstRound = false
    rw [Function.update_self]

/-- A message goes only to a context that was started, and to its normal context only if it has not
passed it. -/
lemma forward (hs : s.WellFormed)
    (hoffset : s.requestDispatcher.getOffset (receiverFromQid r.mess.qid) = some w.2)
    (hw : isShutdown r.mess.qid = false → w.1 = .normalContext →
      receiverFromQid r.mess.qid ∉ r.mess.history) : (s.sendTo w r).WellFormed := by
  have hctx := hs.registered _ _ hoffset
  apply hs.sendTo (List.getElem?_eq_some_iff.1 hctx).1
  intro hr
  obtain ⟨kind, offset⟩ := w
  cases kind with
  | normalContext =>
      unfold State.fresh
      simp only at hctx
      simp only [hctx]
      exact decide_eq_true (hw hr rfl)
  | cycleBreaker => rfl

/-- Every step keeps it. -/
lemma step (hs : s.WellFormed) {a : Action bso} (h : Outcome s a s') : s'.WellFormed := by
  -- behind its first message a handler is no longer in its first round
  have hpast : ∀ {c : ℕ} {p : Phase}, (s.handlers c).phase = p → p ≠ .unconnected →
      p ≠ .readMessage → (s.handlers c).firstRound = false := by
    rintro c p rfl hp hp'
    exact hs.firstRound_eq hp hp'
  cases h with
  | createMainThreads => exact { hs with }
  | startContext _ _ hrd => exact hs.startContext hrd
  | contextRefused => exact { hs with }
  | connect =>
      refine { hs with uncreated := ?_, handler := ?_ }
      · intro d hd
        have hlt : s.handlerVec < d := hd
        exact (Function.update_of_ne hlt.ne' _ _).trans (hs.uncreated d hlt.le)
      · intro d
        show (Function.update s.handlers s.handlerVec _ d).WellFormed
        by_cases hd : d = s.handlerVec
        · rw [hd, Function.update_self]
          exact ⟨Or.inr (Or.inl rfl), fun _ h => nomatch h⟩
        · rw [Function.update_of_ne hd]
          exact hs.handler d
  | @firstMessage c mess s₁ hphase _ _ hs₁ =>
      obtain ⟨hwell, hfirst⟩ := hs.initMq hphase hs₁
      exact hwell.sendRequest hfirst mess
  | invokerRefused => exact { hs with }
  | nextMessage _ _ hfirst => exact hs.sendRequest hfirst _
  | readHeader last hphase =>
      refine hs.setPhase (hpast hphase Phase.noConfusion Phase.noConfusion) ?_
      cases last with
      | true => exact fun _ h => nomatch h
      | false => exact fun _ h => nomatch h
  | finalize hphase hmess =>
      have hfirst := hpast hphase Phase.noConfusion Phase.noConfusion
      refine { hs.setPhase (p := .sendMess _) hfirst ?_ with }
      rintro mess ⟨⟩
      exact hmess
  | sendMess hphase =>
      have hfirst := hpast hphase Phase.noConfusion Phase.noConfusion
      exact { hs.setPhase hfirst (p := .notify) (fun _ h => nomatch h) with }
  | notify hphase =>
      have hfirst := hpast hphase Phase.noConfusion Phase.noConfusion
      exact { hs.setPhase hfirst (p := .testShutdown) (fun _ h => nomatch h) with }
  | testShutdown hphase =>
      refine hs.setPhase (hpast hphase Phase.noConfusion Phase.noConfusion) ?_
      intro mess hmess
      split at hmess
      · cases hmess
      · cases hmess
  | shutdown hphase =>
      have hfirst := hpast hphase Phase.noConfusion Phase.noConfusion
      exact { hs.setPhase hfirst (p := .closed) (fun _ h => nomatch h) with }
  | stopRequests => exact { hs with }
  | requestRefused => exact { hs with }
  | @forwardShutdown r rest offset _ _ hoffset hr =>
      have hnot : ∀ k : Kind, isShutdown r.mess.qid = false → k = .normalContext →
          receiverFromQid r.mess.qid ∉ r.mess.history := by
        intro k hr'
        rw [hr] at hr'
        cases hr'
      have hpop : WellFormed { s with requestDispatcherMQ := rest } := { hs with }
      have hfirst := hpop.forward (w := (.normalContext, offset)) hoffset (hnot _)
      exact hfirst.forward (w := (.cycleBreaker, offset)) hoffset (hnot _)
  | @forwardRequest r rest w _ _ hoffset _ hhistory =>
      have hpop : WellFormed { s with requestDispatcherMQ := rest } := { hs with }
      exact hpop.forward hoffset (fun _ => hhistory)
  | stopLoop hloop hq =>
      exact (hs.tail hq).setLoop (hs.lt_of_loop (by rw [hloop]; exact Loop.noConfusion))
        (fun _ h => nomatch h)
  | @takeRequest w r rest hloop hq hr =>
      refine (hs.tail hq).setLoop (hs.lt_of_loop (by rw [hloop]; exact Loop.noConfusion)) ?_
      rintro r' ⟨⟩
      exact hr
  | badRequest => exact { hs with }
  | sendModel => exact { hs with }
  | @sendEndMarker w r hloop =>
      have hemit : (s.emit r none).WellFormed := { hs with }
      exact hemit.setLoop (hs.lt_of_loop (by rw [hloop]; exact Loop.noConfusion))
        (fun _ h => nomatch h)
  | stopAnswers => exact { hs with }
  | dispatchAnswer => exact { hs with }
  | answerRefused => exact { hs with }
  | @receiveAnswer c res rest t hfirst =>
      exact { hs.setHandler (hs.lt_of_firstRound hfirst)
        (h := { s.handlers c with
          thread := State.written (s.handlers c) t
          received := (s.handlers c).received ++ (res.map Answer.rbs).toList })
        ⟨(hs.handler c).begun, (hs.handler c).last⟩ with }
  | strangeAnswer => exact { hs with }
  | interruptRequests => exact { hs with }
  | interruptAnswers => exact { hs with }
  | interruptContext _ hoffset => exact hs.setLoop hoffset (fun _ h => nomatch h)
  | @interruptThread c hphase =>
      have hfirst := hpast hphase Phase.noConfusion Phase.noConfusion
      exact hs.setHandler (hs.lt_of_firstRound hfirst) ⟨(hs.handler c).begun, (hs.handler c).last⟩

end State.WellFormed

end NewServer

end Dmcs
