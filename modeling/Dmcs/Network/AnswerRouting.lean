import Dmcs.Network.NewServer

/-!
# Answers go back to the connection that asked (`NewOutputDispatcher`, `NewHandler`)

The output dispatcher finds the output thread of an answer by the id of the invoker.  As long as no
two connections begin with the same id, no request comes for a context that is not registered, and
no connection is finalized while answers are due, no assertion of a dispatcher fails, every output
thread gets the answers to the requests of its connection in the order they were sent, and all of
them are written before the server comes to rest (`answersReturn_of_keepsApart`).

The ids of finalized connections stay in the table.  A second connection with the id of an earlier
one fails the assertion of `registerIdOffset` (`sameInvoker_fails`).

## The invariant

`Serves` is about one connection and follows an answer on its way.  What was sent for the connection
is, in this order, what its output thread has received, what is in the queue of the thread, and what
is in the queue of the output dispatcher (`pipeline`).  Along the way every answer names the invoker
of the connection (`dispatching`, `sent`).  `Offsets` says that different connections have different
queues, and `Alive` that the threads stop only when the server is killed, and that there is nothing
left to answer then.

A step concerns one connection or one worker.  `Untouched` collects what has to be the same for the
other connections, and `Serves.of_untouched` keeps the invariant of these, so that the lemma of a
step is about the one connection it is about.

## The condition

Clients that wait for their answers before they terminate, name contexts of this server and have ids
of their own meet `keepsApart`, as long as nobody connects while the server is being shut down.
-/

namespace Dmcs

open QueryID ReturnedBeliefState

variable {bso : BeliefStateOffset}

namespace NewServer

/-! ## The answers for one connection -/

/-- The answers to the requests of a connection. -/
def forConn (c : ℕ) (as : List (Answer bso)) : List (Answer bso) :=
  as.filter (fun a => a.request.conn = c)

/-- What the invoker gets of them: models and end markers. -/
def answersOf (c : ℕ) (as : List (Answer bso)) : List (ReturnedBeliefState bso) :=
  (forConn c as).map Answer.rbs

section ForConn

variable {c : ℕ} {as as' : List (Answer bso)} {a : Answer bso}

lemma mem_forConn : a ∈ forConn c as ↔ a ∈ as ∧ a.request.conn = c := by
  unfold forConn
  rw [List.mem_filter, decide_eq_true_eq]

@[simp] lemma forConn_append : forConn c (as ++ as') = forConn c as ++ forConn c as' :=
  List.filter_append ..

lemma forConn_of_eq (h : a.request.conn = c) : forConn c [a] = [a] :=
  List.filter_cons_of_pos (decide_eq_true h)

lemma forConn_of_ne (h : a.request.conn ≠ c) : forConn c [a] = [] := by
  unfold forConn
  rw [List.filter_cons_of_neg (by rwa [decide_eq_true_eq]), List.filter_nil]

@[simp] lemma answersOf_append : answersOf c (as ++ as') = answersOf c as ++ answersOf c as' := by
  unfold answersOf
  rw [forConn_append, List.map_append]

lemma answersOf_eq_nil (h : ∀ a ∈ as, a.request.conn ≠ c) : answersOf c as = [] := by
  unfold answersOf
  rw [List.map_eq_nil_iff, List.eq_nil_iff_forall_not_mem]
  intro a ha
  exact h a (mem_forConn.1 ha).1 (mem_forConn.1 ha).2

end ForConn

/-- The handler is open, and the id of the query is that of its invoker. -/
structure Handler.Awaits (h : Handler bso) (qid : Qid) : Prop where
  isOpen : h.phase.isOpen = true
  firstRound : h.firstRound = false
  invoker : ctxIdFromQid qid = h.invokerId

namespace State

/-- The request is in one of the queues, or is being processed. -/
def Inside (s : State bso) (r : Request) : Prop :=
  some r ∈ s.requestDispatcherMQ ∨ ∃ w, r ∈ s.queue w ∨ s.loop w = .processing r

/-- All requests that are `Inside`. -/
def inside (s : State bso) : List Request :=
  s.requestDispatcherMQ.reduceOption ++
    (List.range s.contexts.length).flatMap fun offset =>
      [Kind.normalContext, Kind.cycleBreaker].flatMap fun kind =>
        s.queue (kind, offset) ++
          match s.loop (kind, offset) with
          | .processing r => [r]
          | _ => []

/-- All answers that were sent for the requests of a connection. -/
def answersTo (s : State bso) (c : ℕ) : List (ReturnedBeliefState bso) := answersOf c s.emitted

end State

/-- Answers go back: no assertion of a dispatcher fails, each output thread gets the answers for its
connection and no others, in order, and delivers them, and when all threads wait, every answer was
written on the connection of its request. -/
structure AnswersReturn (s : State bso) : Prop where
  asserts : s.failed ≠ some .newBaseDispatcher
  own : ∀ c, (s.handlers c).received <+: s.answersTo c
  delivered : ∀ c, NewOutputThread.Delivered (s.handlers c).received (s.handlers c).thread.written
  written : s.failed = none → s.Quiet → ∀ c, ∀ rbs ∈ s.answersTo c,
    ∃ answer ∈ (s.handlers c).thread.written, rbs ∈ answer.rbsl

namespace State

/-- No request of the connection is inside, and all answers for it were taken from its queue. -/
def answered (s : State bso) (c : ℕ) : Bool :=
  s.inside.all (fun r => r.conn ≠ c) &&
    s.outputDispatcherMQ.reduceOption.all (fun a => a.request.conn ≠ c) &&
    (s.outputMQ (s.handlers c).offset).isEmpty

/-- A first message comes from an invoker that is not registered, a message is dispatched only to a
context that is, a connection is finalized only after its requests were answered, and the server is
shut down only while no connection is open. -/
def keepsApart (s : State bso) : Action bso → Bool
  | .readMessage c mess =>
      !(s.handlers c).firstRound || (s.outputDispatcher.getOffset (ctxIdFromQid mess.qid)).isNone
  | .dispatchRequest => s.requestDispatcherMQ.head?.join.all fun r =>
      (s.requestDispatcher.getOffset (receiverFromQid r.mess.qid)).isSome
  | .finalize c _ => s.answered c
  | .continueFinalize c =>
      decide ((s.handlers c).phase ≠ .shutdown) ||
        (List.range s.handlerVec).all fun d => !(s.handlers d).phase.isOpen
  | _ => true

end State

/-! ## The invariant -/

/-- What holds of the connection `c`, whose handler is `h`. -/
structure Serves (s : State bso) (c : ℕ) (h : Handler bso) : Prop where
  registered : h.firstRound = false →
    s.outputDispatcher.getOffset h.invokerId = some h.offset ∧ h.offset < s.outputMQs
  requests : ∀ r, s.Inside r → r.conn = c → isShutdown r.mess.qid = false → h.Awaits r.mess.qid
  dispatching : ∀ a ∈ s.outputDispatcherMQ.reduceOption, a.request.conn = c → h.Awaits a.rbs.qid
  sent : ∀ o, ∀ a ∈ (s.outputMQ o).reduceOption, a.request.conn = c →
    h.Awaits a.rbs.qid ∧ h.offset = o
  pipeline : s.answersTo c = h.received ++ answersOf c (s.outputMQ h.offset).reduceOption ++
    answersOf c s.outputDispatcherMQ.reduceOption
  written : h.thread.written =
    (NewOutputThread.batches [] h.received).map NewOutputThread.writeResult
  outputList : h.thread.stopped = false →
    h.thread.outputList = NewOutputThread.unfinished [] h.received
  listening : h.phase.isOpen = true → h.thread.stopped = false
  noEnd : h.phase.isOpen = true → h.firstRound = false → none ∉ s.outputMQ h.offset
  lastMarker : ∀ rbs, (s.answersTo c).getLast? = some rbs → isEndMarker rbs = false →
    ∃ w r, s.loop w = .processing r ∧ r.conn = c

/-- What holds of the server as a whole: threads stop only when it is killed, and then there is
nothing left to answer. -/
structure Alive (s : State bso) : Prop where
  threads : s.requestDispatcherThread = .notStarted ↔ s.outputDispatcherThread = .notStarted
  started : s.outputDispatcherThread = .notStarted →
    (∀ w, s.loop w = .notStarted) ∧ s.outputDispatcherMQ.reduceOption = [] ∧ s.contexts = []
  answering : s.outputDispatcherThread = .stopped ∨ none ∈ s.outputDispatcherMQ → s.killed = true
  dead : s.killed = true → s.outputDispatcherMQ.reduceOption = [] ∧
    (∀ w, (∀ r ∈ s.queue w, isShutdown r.mess.qid = true) ∧ ∀ r, s.loop w ≠ .processing r)
  deaf : s.killed = true → s.requestDispatcherThread = .stopped ∨
    ∃ before after, s.requestDispatcherMQ = before ++ none :: after ∧
      ∀ r, some r ∈ before → isShutdown r.mess.qid = true

/-- Every output thread has a queue of its own. -/
structure Offsets (s : State bso) : Prop where
  distinct : ∀ c d, (s.handlers c).firstRound = false → (s.handlers d).firstRound = false →
    (s.handlers c).offset = (s.handlers d).offset → c = d
  unused : ∀ o, s.outputMQs ≤ o → s.outputMQ o = []

/-- The invariant. -/
structure Routed (s : State bso) : Prop where
  wellFormed : s.WellFormed
  serves : ∀ c, Serves s c (s.handlers c)
  offsets : Offsets s
  alive : Alive s
  asserts : s.failed ≠ some .newBaseDispatcher ∧ s.failed ≠ some .newOutputThread

variable {s s' : State bso} {c d : ℕ} {h h' : Handler bso} {w : Worker} {r : Request}
  {a : Answer bso}

/-! ### The result -/

/-- A state that keeps the invariant has sent the answers where they belong. -/
lemma Routed.answersReturn (hs : Routed s) : AnswersReturn s where
  asserts := hs.asserts.1
  own c := by
    rw [(hs.serves c).pipeline, List.append_assoc]
    exact List.prefix_append _ _
  delivered c := by
    rw [(hs.serves c).written]
    exact NewOutputThread.delivered_batches _
  written hfailed hquiet c := by
    have hstep : ∀ a : Action bso, a.ofServer = true → step s a = none := hquiet
    unfold step at hstep
    simp only [hfailed, Option.isSome_none, Bool.false_eq_true, if_false] at hstep
    -- When all threads wait, the pipeline has nothing in it but what was received: no loop has
    -- anything to send,
    have hloop : ∀ w r, s.loop w ≠ .processing r := by
      intro w r hw
      have hnone : s.sendEndMarker w = none := hstep (.sendEndMarker w) rfl
      unfold State.sendEndMarker at hnone
      rw [hw] at hnone
      cases hnone
    -- the output dispatcher has nothing to send on,
    have hdispatch : ∀ a, a ∉ s.outputDispatcherMQ.reduceOption := by
      intro a ha
      have hne : s.outputDispatcherMQ.reduceOption ≠ [] := List.ne_nil_of_mem ha
      have hrunning : s.outputDispatcherThread = .running := by
        cases hthread : s.outputDispatcherThread with
        | notStarted => exact absurd (hs.alive.started hthread).2.1 hne
        | running => rfl
        | stopped =>
            have hkilled := hs.alive.answering (Or.inl hthread)
            exact absurd (hs.alive.dead hkilled).1 hne
      have hnone : s.dispatchAnswer = none := hstep .dispatchAnswer rfl
      unfold State.dispatchAnswer at hnone
      rw [if_neg (by rw [hrunning]; exact not_not.2 rfl)] at hnone
      rcases hq : s.outputDispatcherMQ with _ | ⟨_ | b, rest⟩
      · rw [hq] at ha
        cases ha
      · simp [hq] at hnone
      · simp only [hq] at hnone
        split at hnone
        · cases hnone
        · cases hnone
    -- and no queue of an output thread holds an answer.
    have hsent : ∀ a ∈ (s.outputMQ (s.handlers c).offset).reduceOption, a.request.conn ≠ c := by
      intro a ha hconn
      obtain ⟨hawaits, -⟩ := (hs.serves c).sent _ a ha hconn
      have hrun := (hs.serves c).listening hawaits.isOpen
      have hnone : s.receiveAnswer c = none := hstep (.receiveAnswer c) rfl
      unfold State.receiveAnswer at hnone
      simp only [hawaits.firstRound, hrun, Bool.or_self, Bool.false_eq_true, if_false] at hnone
      rcases hq : s.outputMQ (s.handlers c).offset with _ | ⟨res, rest⟩
      · rw [hq] at ha
        cases ha
      · simp only [hq] at hnone
        split at hnone
        · cases hnone
        · cases hnone
    have hreceived : s.answersTo c = (s.handlers c).received := by
      rw [(hs.serves c).pipeline, answersOf_eq_nil hsent,
        answersOf_eq_nil (fun a ha => absurd ha (hdispatch a)), List.append_nil, List.append_nil]
    have hdelivered : NewOutputThread.Delivered (s.handlers c).received
        (s.handlers c).thread.written := by
      rw [(hs.serves c).written]
      exact NewOutputThread.delivered_batches _
    intro rbs hrbs
    rw [hreceived] at hrbs
    -- an answer that came last was an end marker, since otherwise its loop still has a request
    apply hdelivered.written ?_ hrbs
    intro marker hmarker
    rw [← hreceived] at hmarker
    by_contra hend
    rw [Bool.not_eq_true] at hend
    obtain ⟨w, r, hw, -⟩ := (hs.serves c).lastMarker marker hmarker hend
    exact hloop w r hw

/-! ### Connections that a step does not concern -/

/-- Nothing that concerns the connection is different in `s'`, apart from what is no longer inside.
-/
structure Untouched (s s' : State bso) (c : ℕ) (h : Handler bso) : Prop where
  registered : h.firstRound = false →
    s.outputDispatcher.getOffset h.invokerId = some h.offset ∧ h.offset < s.outputMQs →
    s'.outputDispatcher.getOffset h.invokerId = some h.offset ∧ h.offset < s'.outputMQs
  inside : ∀ r, s'.Inside r → r.conn = c → isShutdown r.mess.qid = false → s.Inside r
  dispatching : forConn c s'.outputDispatcherMQ.reduceOption =
    forConn c s.outputDispatcherMQ.reduceOption
  sent : ∀ o, forConn c (s'.outputMQ o).reduceOption = forConn c (s.outputMQ o).reduceOption
  noEnd : h.phase.isOpen = true → h.firstRound = false → none ∈ s'.outputMQ h.offset →
    none ∈ s.outputMQ h.offset
  emitted : forConn c s'.emitted = forConn c s.emitted
  processing : ∀ w r, s.loop w = .processing r → r.conn = c → ∃ w', s'.loop w' = .processing r

lemma Untouched.refl (s : State bso) (c : ℕ) (h : Handler bso) : Untouched s s c h where
  registered _ h := h
  inside _ h _ _ := h
  dispatching := rfl
  sent _ := rfl
  noEnd _ _ h := h
  emitted := rfl
  processing w _ h _ := ⟨w, h⟩

lemma Serves.of_untouched (hs : Serves s c h) (hs' : Untouched s s' c h) : Serves s' c h where
  registered hfirst := hs'.registered hfirst (hs.registered hfirst)
  requests r hr hconn hshut := hs.requests r (hs'.inside r hr hconn hshut) hconn hshut
  dispatching a ha hconn := by
    have hmem := mem_forConn.2 ⟨ha, hconn⟩
    rw [hs'.dispatching] at hmem
    exact hs.dispatching a (mem_forConn.1 hmem).1 hconn
  sent o a ha hconn := by
    have hmem := mem_forConn.2 ⟨ha, hconn⟩
    rw [hs'.sent] at hmem
    exact hs.sent o a (mem_forConn.1 hmem).1 hconn
  pipeline := by
    have hpipeline := hs.pipeline
    unfold State.answersTo answersOf at hpipeline ⊢
    rw [hs'.emitted, hs'.sent, hs'.dispatching]
    exact hpipeline
  written := hs.written
  outputList := hs.outputList
  listening := hs.listening
  noEnd hopen hfirst hmem := hs.noEnd hopen hfirst (hs'.noEnd hopen hfirst hmem)
  lastMarker rbs hlast hend := by
    unfold State.answersTo answersOf at hlast
    rw [hs'.emitted] at hlast
    obtain ⟨w, r, hw, hr⟩ := hs.lastMarker rbs hlast hend
    obtain ⟨w', hw'⟩ := hs'.processing w r hw hr
    exact ⟨w', r, hw', hr⟩

/-- The phase matters only as far as the handler is open. -/
lemma Serves.setPhase (hs : Serves s c h) {phase : Phase} (hphase : phase.isOpen = h.phase.isOpen) :
    Serves s c { h with phase := phase } where
  registered := hs.registered
  requests r hr hconn hshut := by
    obtain ⟨hopen, hfirst, hinvoker⟩ := hs.requests r hr hconn hshut
    exact ⟨hphase.trans hopen, hfirst, hinvoker⟩
  dispatching a ha hconn := by
    obtain ⟨hopen, hfirst, hinvoker⟩ := hs.dispatching a ha hconn
    exact ⟨hphase.trans hopen, hfirst, hinvoker⟩
  sent o a ha hconn := by
    obtain ⟨⟨hopen, hfirst, hinvoker⟩, ho⟩ := hs.sent o a ha hconn
    exact ⟨⟨hphase.trans hopen, hfirst, hinvoker⟩, ho⟩
  pipeline := hs.pipeline
  written := hs.written
  outputList := hs.outputList
  listening hopen := hs.listening (hphase.symm.trans hopen)
  noEnd hopen := hs.noEnd (hphase.symm.trans hopen)
  lastMarker := hs.lastMarker

/-- What holds of the new handler and of the other ones holds of all. -/
lemma forall_setHandler {P : ℕ → Handler bso → Prop} (hc : P c h)
    (hother : ∀ d, d ≠ c → P d (s.handlers d)) : ∀ d, P d ((s.setHandler c h).handlers d) := by
  intro d
  show P d (Function.update s.handlers c h d)
  by_cases hd : d = c
  · rw [hd, Function.update_self]
    exact hc
  · rw [Function.update_of_ne hd]
    exact hother d hd

/-! ### The steps -/

lemma Routed.init : Routed (State.init : State bso) where
  wellFormed := State.WellFormed.init
  serves c :=
    { registered := fun h => nomatch h
      requests := by
        rintro r (h | ⟨w, h | h⟩)
        · cases h
        · cases h
        · cases h
      dispatching := fun _ h => nomatch h
      sent := fun _ _ h => nomatch h
      pipeline := rfl
      written := rfl
      outputList := fun _ => rfl
      listening := fun h => nomatch h
      noEnd := fun h => nomatch h
      lastMarker := fun _ h => nomatch h }
  offsets := ⟨fun _ _ h => (nomatch h), fun _ _ => rfl⟩
  alive :=
    { threads := Iff.rfl
      started := fun _ => ⟨fun _ => rfl, rfl, rfl⟩
      answering := by
        rintro (h | h)
        · cases h
        · cases h
      dead := fun h => nomatch h
      deaf := fun h => nomatch h }
  asserts := ⟨fun h => (nomatch h), fun h => (nomatch h)⟩

/-- Replacing a handler by one with the same queue. -/
lemma Offsets.setHandler (hs : Offsets s) (hfirst : h.firstRound = (s.handlers c).firstRound)
    (hoffset : h.offset = (s.handlers c).offset) : Offsets (s.setHandler c h) where
  distinct := by
    have hsame : ∀ d, ((s.setHandler c h).handlers d).firstRound = (s.handlers d).firstRound ∧
        ((s.setHandler c h).handlers d).offset = (s.handlers d).offset :=
      forall_setHandler (P := fun d h' => h'.firstRound = (s.handlers d).firstRound ∧
        h'.offset = (s.handlers d).offset) ⟨hfirst, hoffset⟩ (fun _ _ => ⟨rfl, rfl⟩)
    intro d e hd he hde
    rw [(hsame d).1] at hd
    rw [(hsame e).1] at he
    rw [(hsame d).2, (hsame e).2] at hde
    exact hs.distinct d e hd he hde
  unused := hs.unused

lemma Offsets.setPhase (hs : Offsets s) (c : ℕ) (phase : Phase) : Offsets (s.setPhase c phase) :=
  hs.setHandler rfl rfl

/-- A change of the phase that the connections do not notice. -/
lemma serves_setPhase (hs : ∀ d, Serves s d (s.handlers d)) {p : Phase}
    (hp : p.isOpen = (s.handlers c).phase.isOpen) :
    ∀ d, Serves s d ((s.setPhase c p).handlers d) :=
  forall_setHandler ((hs c).setPhase hp) (fun d _ => hs d)

lemma serves_connect (hs : Routed s) : ∀ d, Serves s.connect d (s.connect.handlers d) := by
  have hinit := hs.wellFormed.uncreated s.handlerVec (le_refl _)
  have hold := hs.serves s.handlerVec
  rw [hinit] at hold
  have hnew : Serves s s.handlerVec { Handler.init with phase := .readMessage } :=
    { registered := fun h => nomatch h
      requests := fun r hr hconn hshut => nomatch (hold.requests r hr hconn hshut).isOpen
      dispatching := fun a ha hconn => nomatch (hold.dispatching a ha hconn).isOpen
      sent := fun o a ha hconn => nomatch (hold.sent o a ha hconn).1.isOpen
      pipeline := hold.pipeline
      written := rfl
      outputList := fun _ => rfl
      listening := fun _ => rfl
      noEnd := fun _ h => nomatch h
      lastMarker := hold.lastMarker }
  have hall := forall_setHandler (P := fun d h => Serves s d h) hnew (fun d _ => hs.serves d)
  exact fun d => { hall d with }

/-- Registering a new invoker. -/
lemma serves_initMq (hs : Routed s) {invoker : ℕ} (hphase : (s.handlers c).phase = .readMessage)
    (hfirst : (s.handlers c).firstRound = true)
    (hnew : s.outputDispatcher.getOffset invoker = none) (h : s.initMq c invoker = some s') :
    (∀ d, Serves s' d (s'.handlers d)) ∧ s'.handlers c = { s.handlers c with
      firstRound := false
      invokerId := invoker
      offset := s.outputMQs } := by
  obtain ⟨od, hod, rfl⟩ := Option.map_eq_some_iff.1 h
  have hget := NewBaseDispatcher.getOffset_register hod
  have hopen : (s.handlers c).phase.isOpen = true := by
    rw [hphase]
    rfl
  have hnot : ∀ qid, ¬ (s.handlers c).Awaits qid := by
    intro qid hawaits
    rw [hawaits.firstRound] at hfirst
    cases hfirst
  have hempty := hs.offsets.unused s.outputMQs (le_refl _)
  refine ⟨?_, Function.update_self ..⟩
  apply forall_setHandler
  · have hold := hs.serves c
    constructor
    · intro _
      show od.getOffset invoker = some s.outputMQs ∧ s.outputMQs < s.outputMQs + 1
      rw [hget, Function.update_self]
      exact ⟨rfl, Nat.lt_succ_self _⟩
    · intro r hr hconn hshut
      exact absurd (hold.requests r hr hconn hshut) (hnot _)
    · intro a ha hconn
      exact absurd (hold.dispatching a ha hconn) (hnot _)
    · intro o a ha hconn
      exact absurd (hold.sent o a ha hconn).1 (hnot _)
    · have hpipeline := hold.pipeline
      rw [answersOf_eq_nil (fun a ha hconn => hnot _ (hold.sent _ a ha hconn).1)] at hpipeline
      show s.answersTo c = _ ++ answersOf c (s.outputMQ s.outputMQs).reduceOption ++ _
      rw [hempty]
      exact hpipeline
    · exact hold.written
    · exact hold.outputList
    · exact fun _ => hold.listening hopen
    · intro _ _
      show none ∉ s.outputMQ s.outputMQs
      rw [hempty]
      exact List.not_mem_nil
    · exact hold.lastMarker
  · intro d hd
    apply (hs.serves d).of_untouched
    refine { Untouched.refl s d (s.handlers d) with registered := ?_ }
    rintro - ⟨hoffset, hlt⟩
    refine ⟨?_, Nat.lt_succ_of_lt hlt⟩
    have hne : (s.handlers d).invokerId ≠ invoker := by
      intro heq
      rw [heq, hnew] at hoffset
      cases hoffset
    show od.getOffset _ = _
    rw [hget, Function.update_of_ne hne]
    exact hoffset

/-- The new output thread has a new queue. -/
lemma offsets_initMq (hs : Routed s) {invoker : ℕ} (h : s.initMq c invoker = some s') :
    Offsets s' := by
  obtain ⟨od, -, rfl⟩ := Option.map_eq_some_iff.1 h
  have hold : ∀ d, (s.handlers d).firstRound = false → (s.handlers d).offset < s.outputMQs :=
    fun d hd => ((hs.serves d).registered hd).2
  constructor
  · intro d e
    show (Function.update s.handlers c _ d).firstRound = false →
      (Function.update s.handlers c _ e).firstRound = false →
        (Function.update s.handlers c _ d).offset = (Function.update s.handlers c _ e).offset →
          d = e
    by_cases hd : d = c
    · by_cases he : e = c
      · exact fun _ _ _ => hd.trans he.symm
      · rw [hd, Function.update_self, Function.update_of_ne he]
        intro _ hfirst hoffset
        exact absurd hoffset.symm (hold e hfirst).ne
    · by_cases he : e = c
      · rw [he, Function.update_self, Function.update_of_ne hd]
        intro hfirst _ hoffset
        exact absurd hoffset (hold d hfirst).ne
      · rw [Function.update_of_ne hd, Function.update_of_ne he]
        exact hs.offsets.distinct d e
  · intro o ho
    exact hs.offsets.unused o (Nat.le_of_succ_le ho)

lemma inside_sendRequest {mess : ForwardMessage} (h : (s.sendRequest c mess).Inside r) :
    r = ⟨c, s.asked.length, mess⟩ ∨ s.Inside r := by
  rcases h with h | h
  · rcases List.mem_append.1 h with h | h
    · exact Or.inr (Or.inl h)
    · exact Or.inl (Option.some_inj.1 (List.mem_singleton.1 h))
  · exact Or.inr (Or.inr h)

/-- A request on a connection whose invoker is registered. -/
lemma serves_sendRequest (hs : ∀ d, Serves s d (s.handlers d)) {mess : ForwardMessage}
    (hawaits : (s.handlers c).Awaits mess.qid) :
    ∀ d, Serves (s.sendRequest c mess) d ((s.sendRequest c mess).handlers d) := by
  have hphase : Phase.isOpen .readHeader = (s.handlers c).phase.isOpen := hawaits.isOpen.symm
  apply forall_setHandler (P := fun d h => Serves (s.sendRequest c mess) d h)
  · have hold := (hs c).setPhase hphase
    refine { hold with requests := ?_ }
    intro r hr hconn hshut
    rcases inside_sendRequest hr with rfl | hr
    · exact ⟨rfl, hawaits.firstRound, hawaits.invoker⟩
    · exact hold.requests r hr hconn hshut
  · intro d hd
    apply (hs d).of_untouched
    refine { Untouched.refl s d (s.handlers d) with inside := ?_ }
    intro r hr hconn _
    rcases inside_sendRequest hr with rfl | hr
    · exact absurd hconn.symm hd
    · exact hr

lemma setLoop_self {l : Loop} : (s.setLoop w l).loop w = l := Function.update_self ..

lemma setLoop_of_ne {v : Worker} {l : Loop} (h : v ≠ w) : (s.setLoop w l).loop v = s.loop v :=
  Function.update_of_ne h ..

/-- A loop that sends a model is still processing. -/
lemma emit_eq_setLoop {bs : Option (NewBeliefState bso.width)} (hw : s.loop w = .processing r) :
    s.emit r bs = (s.emit r bs).setLoop w (.processing r) := by
  unfold State.setLoop
  rw [Function.update_eq_self_iff.2 hw.symm]

lemma sendOutput_self {o : ℕ} {res : Option (Answer bso)} :
    (s.sendOutput o res).outputMQ o = s.outputMQ o ++ [res] := Function.update_self ..

lemma sendOutput_of_ne {o o' : ℕ} {res : Option (Answer bso)} (h : o' ≠ o) :
    (s.sendOutput o res).outputMQ o' = s.outputMQ o' := Function.update_of_ne h ..

lemma mem_inside (hs : s.WellFormed) (hr : s.Inside r) : r ∈ s.inside := by
  unfold State.inside
  rw [List.mem_append]
  rcases hr with hr | ⟨w, hr⟩
  · exact Or.inl (List.reduceOption_mem_iff.2 hr)
  · right
    obtain ⟨kind, offset⟩ := w
    have hlt : offset < s.contexts.length := by
      rcases hr with hr | hr
      · exact hs.lt_of_queue hr
      · exact hs.lt_of_loop (w := (kind, offset)) (by rw [hr]; exact Loop.noConfusion)
    have hkind : kind ∈ [Kind.normalContext, Kind.cycleBreaker] := by
      cases kind with
      | normalContext => exact List.mem_cons_self
      | cycleBreaker => exact List.mem_cons_of_mem _ List.mem_cons_self
    refine List.mem_flatMap.2 ⟨offset, List.mem_range.2 hlt, List.mem_flatMap.2 ⟨kind, hkind, ?_⟩⟩
    rw [List.mem_append]
    rcases hr with hr | hr
    · exact Or.inl hr
    · right
      rw [hr]
      exact List.mem_singleton_self r

/-- A connection for which nothing is left is finalized. -/
lemma serves_finalize (hs : Routed s) (mess : ForwardMessage)
    (hphase : (s.handlers c).phase = .finalize) (hanswered : s.answered c = true) :
    ∀ d, Serves (s.sendOutput (s.handlers c).offset none) d
      ((s.setPhase c (.sendMess mess)).handlers d) := by
  unfold State.answered at hanswered
  simp only [ne_eq, decide_not, Bool.and_eq_true, List.all_eq_true, Bool.not_eq_eq_eq_not,
    Bool.not_true, decide_eq_false_iff_not, List.isEmpty_iff] at hanswered
  obtain ⟨⟨hinside, hdispatching⟩, hqueue⟩ := hanswered
  have hfirst : (s.handlers c).firstRound = false := by
    apply hs.wellFormed.firstRound_eq
    · rw [hphase]
      exact Phase.noConfusion
    · rw [hphase]
      exact Phase.noConfusion
  have hsame : ∀ o, ((s.sendOutput (s.handlers c).offset none).outputMQ o).reduceOption =
      (s.outputMQ o).reduceOption := by
    intro o
    by_cases ho : o = (s.handlers c).offset
    · rw [ho, sendOutput_self, List.reduceOption_append]
      exact List.append_nil _
    · rw [sendOutput_of_ne ho]
  -- what is sent to this connection lies in its own queue, which is empty
  have hsent : ∀ o, ∀ a ∈ (s.outputMQ o).reduceOption, a.request.conn ≠ c := by
    intro o a ha hconn
    obtain ⟨-, ho⟩ := (hs.serves c).sent o a ha hconn
    rw [← ho, hqueue] at ha
    cases ha
  apply forall_setHandler (P := fun d h => Serves (s.sendOutput (s.handlers c).offset none) d h)
  · have hold := hs.serves c
    refine { hold with
      requests := ?_
      dispatching := ?_
      sent := ?_
      pipeline := ?_
      listening := ?_
      noEnd := ?_ }
    · intro r hr hconn _
      exact absurd hconn (hinside r (mem_inside hs.wellFormed hr))
    · intro a ha hconn
      exact absurd hconn (hdispatching a ha)
    · intro o a ha hconn
      rw [hsame] at ha
      exact absurd hconn (hsent o a ha)
    · have hpipeline := hold.pipeline
      rw [← hsame] at hpipeline
      exact hpipeline
    · intro hopen
      cases hopen
    · intro hopen
      cases hopen
  · intro d hd
    apply (hs.serves d).of_untouched
    refine { Untouched.refl s d (s.handlers d) with sent := ?_, noEnd := ?_ }
    · intro o
      rw [hsame]
    · intro _ hfirst' hmem
      have hne : (s.handlers d).offset ≠ (s.handlers c).offset := by
        intro heq
        exact hd (hs.offsets.distinct d c hfirst' hfirst heq)
      rwa [sendOutput_of_ne hne] at hmem

lemma reduceOption_concat_some (q : List (Option (Answer bso))) (a : Answer bso) :
    (q ++ [some a]).reduceOption = q.reduceOption ++ [a] := List.reduceOption_append ..

/-- A loop sends an answer; after an end marker it waits. -/
lemma serves_emit (hs : Routed s) {bs : Option (NewBeliefState bso.width)} {l : Loop}
    (hw : s.loop w = .processing r) (hl : l = .processing r ∨ (l = .waiting ∧ bs = none)) :
    ∀ d, Serves ((s.emit r bs).setLoop w l) d (s.handlers d) := by
  have hnot : l ≠ .processing r → l = .waiting ∧ bs = none := fun h => hl.resolve_left h
  -- the loop that answers keeps its request or gives it up, so no request comes in
  have hinside : ∀ r', ((s.emit r bs).setLoop w l).Inside r' → s.Inside r' := by
    rintro r' (hr' | ⟨v, hr' | hr'⟩)
    · exact Or.inl hr'
    · exact Or.inr ⟨v, Or.inl hr'⟩
    · by_cases hv : v = w
      · subst hv
        rw [setLoop_self] at hr'
        rcases hl with hl | ⟨hl, -⟩
        · rw [hr', Loop.processing.injEq] at hl
          rw [hl]
          exact Or.inr ⟨v, Or.inr hw⟩
        · rw [hl] at hr'
          cases hr'
      · rw [setLoop_of_ne hv] at hr'
        exact Or.inr ⟨v, Or.inr hr'⟩
  intro d
  by_cases hd : r.conn = d
  · have hold := hs.serves d
    have hshut := hs.wellFormed.processing w r hw
    have hawaits := hold.requests r (Or.inr ⟨w, Or.inr hw⟩) hd hshut
    have hemitted : ((s.emit r bs).setLoop w l).answersTo d =
        s.answersTo d ++ [⟨bs, r.mess.qid⟩] := by
      show answersOf d (s.emitted ++ [_]) = _
      rw [answersOf_append]
      unfold answersOf
      rw [forConn_of_eq hd]
      rfl
    -- the connection of the request: one answer more at the end of the pipeline
    refine { hold with
      requests := fun r' hr' => hold.requests r' (hinside r' hr')
      dispatching := ?_
      pipeline := ?_
      lastMarker := ?_ }
    · intro a ha hconn
      have ha : a ∈ (s.outputDispatcherMQ ++ [some _]).reduceOption := ha
      rw [reduceOption_concat_some, List.mem_append, List.mem_singleton] at ha
      rcases ha with ha | rfl
      · exact hold.dispatching a ha hconn
      · exact hawaits
    · rw [hemitted, hold.pipeline]
      show _ = _ ++ _ ++ answersOf d (s.outputDispatcherMQ ++ [some _]).reduceOption
      rw [reduceOption_concat_some, answersOf_append, ← List.append_assoc]
      congr 1
      unfold answersOf
      rw [forConn_of_eq hd]
      rfl
    · intro rbs hlast hend
      rw [hemitted, List.getLast?_concat, Option.some_inj] at hlast
      refine ⟨w, r, ?_, hd⟩
      rw [setLoop_self]
      by_contra hne
      rw [← hlast, (hnot hne).2] at hend
      cases hend
  -- any other connection
  · apply (hs.serves d).of_untouched
    refine { Untouched.refl s d (s.handlers d) with
      inside := fun r' hr' _ _ => hinside r' hr'
      dispatching := ?_
      emitted := ?_
      processing := ?_ }
    · show forConn d (s.outputDispatcherMQ ++ [some _]).reduceOption = _
      rw [reduceOption_concat_some, forConn_append, forConn_of_ne hd, List.append_nil]
    · show forConn d (s.emitted ++ [_]) = _
      rw [forConn_append, forConn_of_ne hd, List.append_nil]
    · intro v r' hv hr'
      have hne : v ≠ w := by
        rintro rfl
        rw [hw, Loop.processing.injEq] at hv
        rw [hv] at hd
        exact hd hr'
      refine ⟨v, ?_⟩
      rw [setLoop_of_ne hne]
      exact hv

/-- The table of the output dispatcher has the queue of the connection. -/
lemma getOffset_of_dispatching (hs : Routed s) {rest : List (Option (Answer bso))}
    (hq : s.outputDispatcherMQ = some a :: rest) :
    (s.handlers a.request.conn).Awaits a.rbs.qid ∧
      s.outputDispatcher.getOffset (ctxIdFromQid a.rbs.qid) =
        some (s.handlers a.request.conn).offset ∧
      (s.handlers a.request.conn).offset < s.outputMQs := by
  have hawaits : (s.handlers a.request.conn).Awaits a.rbs.qid := by
    apply (hs.serves _).dispatching a ?_ rfl
    rw [hq]
    exact List.mem_cons_self
  refine ⟨hawaits, ?_⟩
  rw [hawaits.invoker]
  exact (hs.serves _).registered hawaits.firstRound

/-- The output dispatcher sends an answer on. -/
lemma serves_dispatchAnswer (hs : Routed s) {rest : List (Option (Answer bso))} {offset : ℕ}
    (hq : s.outputDispatcherMQ = some a :: rest)
    (hoffset : s.outputDispatcher.getOffset (ctxIdFromQid a.rbs.qid) = some offset) :
    ∀ d, Serves (State.sendOutput { s with outputDispatcherMQ := rest } offset (some a)) d
      (s.handlers d) := by
  have hqueue : s.outputDispatcherMQ.reduceOption = a :: rest.reduceOption := by
    rw [hq]
    rfl
  obtain ⟨hawaits, hfound, -⟩ := getOffset_of_dispatching hs hq
  rw [hoffset, Option.some_inj] at hfound
  have hsplit : ∀ d, forConn d s.outputDispatcherMQ.reduceOption =
      forConn d [a] ++ forConn d rest.reduceOption := by
    intro d
    rw [hqueue, ← forConn_append, List.singleton_append]
  have hput : ∀ d o, forConn d ((State.sendOutput { s with outputDispatcherMQ := rest } offset
      (some a)).outputMQ o).reduceOption =
        forConn d (s.outputMQ o).reduceOption ++ if o = offset then forConn d [a] else [] := by
    intro d o
    by_cases ho : o = offset
    · rw [if_pos ho, ho, sendOutput_self, reduceOption_concat_some, forConn_append]
    · rw [if_neg ho, sendOutput_of_ne ho, List.append_nil]
  have hnone : ∀ o, none ∈ (State.sendOutput { s with outputDispatcherMQ := rest } offset
      (some a)).outputMQ o → none ∈ s.outputMQ o := by
    intro o hmem
    by_cases ho : o = offset
    · rw [ho, sendOutput_self, List.mem_append] at hmem
      rcases hmem with hmem | hmem
      · rw [ho]
        exact hmem
      · cases List.mem_singleton.1 hmem
    · rwa [sendOutput_of_ne ho] at hmem
  intro d
  by_cases hd : a.request.conn = d
  · have hold := hs.serves d
    rw [hd] at hawaits hfound
    -- the answer moves from the last part of the pipeline to the one before it
    refine { hold with
      dispatching := ?_
      sent := ?_
      pipeline := ?_
      noEnd := fun hopen hfirst hmem => hold.noEnd hopen hfirst (hnone _ hmem) }
    · intro b hb hconn
      apply hold.dispatching b ?_ hconn
      rw [hqueue]
      exact List.mem_cons_of_mem a hb
    · intro o b hb hconn
      have hmem := mem_forConn.2 ⟨hb, hconn⟩
      rw [hput, List.mem_append] at hmem
      rcases hmem with hmem | hmem
      · exact hold.sent o b (mem_forConn.1 hmem).1 hconn
      · by_cases ho : o = offset
        · rw [if_pos ho, forConn_of_eq hd, List.mem_singleton] at hmem
          rw [hmem, ho]
          exact ⟨hawaits, hfound.symm⟩
        · rw [if_neg ho] at hmem
          cases hmem
    · have hpipeline := hold.pipeline
      unfold State.answersTo answersOf at hpipeline ⊢
      rw [hput, if_pos hfound.symm, List.map_append]
      rw [hsplit, List.map_append] at hpipeline
      rw [← List.append_assoc, List.append_assoc _ (List.map _ (forConn d [a]))]
      exact hpipeline
  -- any other connection
  · apply (hs.serves d).of_untouched
    refine { Untouched.refl s d (s.handlers d) with
      dispatching := ?_
      sent := ?_
      noEnd := fun _ _ hmem => hnone _ hmem }
    · rw [hsplit, forConn_of_ne hd]
      rfl
    · intro o
      rw [hput, forConn_of_ne hd, ite_self, List.append_nil]

lemma Handler.Awaits.setThread {qid : Qid} (hawaits : h.Awaits qid) (t : NewOutputThread.State bso)
    (received : List (ReturnedBeliefState bso)) :
    Handler.Awaits { h with thread := t, received := received } qid :=
  ⟨hawaits.isOpen, hawaits.firstRound, hawaits.invoker⟩

/-- What an output thread finds in its queue is an answer for its connection. -/
lemma conn_of_sent (hs : Routed s) (hfirst : (s.handlers c).firstRound = false)
    (ha : a ∈ (s.outputMQ (s.handlers c).offset).reduceOption) :
    a.request.conn = c ∧ (s.handlers c).Awaits a.rbs.qid := by
  obtain ⟨hawaits, hoffset⟩ := (hs.serves a.request.conn).sent _ a ha rfl
  have hconn := hs.offsets.distinct _ c hawaits.firstRound hfirst hoffset
  rw [hconn] at hawaits
  exact ⟨hconn, hawaits⟩

/-- The state of an output thread after one more answer. -/
lemma Serves.startup (hs : Serves s c h) {rbs : ReturnedBeliefState bso}
    {t : NewOutputThread.State bso} (hawaits : h.Awaits rbs.qid)
    (ht : NewOutputThread.startup h.invokerId [some rbs] h.thread = some t) :
    t.written = (NewOutputThread.batches [] (h.received ++ [rbs])).map NewOutputThread.writeResult ∧
      t.outputList = NewOutputThread.unfinished [] (h.received ++ [rbs]) ∧ t.stopped = false := by
  have hlist := hs.outputList (hs.listening hawaits.isOpen)
  have hstopped := hs.listening hawaits.isOpen
  unfold NewOutputThread.startup at ht
  rw [if_neg (not_not.2 hawaits.invoker)] at ht
  cases hend : isEndMarker rbs with
  | true =>
      obtain ⟨hbatches, hunfinished⟩ := NewOutputThread.batches_marker hend [] h.received
      simp only [hend, if_true, NewOutputThread.startup, Option.some_inj] at ht
      rw [← ht, hbatches, hunfinished, List.map_append, ← hs.written, ← hlist]
      exact ⟨rfl, rfl, hstopped⟩
  | false =>
      obtain ⟨hbatches, hunfinished⟩ := NewOutputThread.batches_model hend [] h.received
      simp only [hend, Bool.false_eq_true, if_false, NewOutputThread.startup, Option.some_inj] at ht
      rw [← ht, hbatches, hunfinished, ← hs.written, ← hlist]
      exact ⟨rfl, rfl, hstopped⟩

section ReceiveAnswer

variable {res : Option (Answer bso)} {rest : List (Option (Answer bso))}
  {t : NewOutputThread.State bso}

lemma mem_outputMQ_of_tail {o : ℕ} (hq : s.outputMQ o = res :: rest) (o' : ℕ) :
    ∀ b ∈ (Function.update s.outputMQ o rest o').reduceOption,
      b ∈ (s.outputMQ o').reduceOption := by
  intro b hb
  by_cases ho : o' = o
  · rw [ho, Function.update_self, List.reduceOption_mem_iff] at hb
    rw [ho, hq, List.reduceOption_mem_iff]
    exact List.mem_cons_of_mem res hb
  · rwa [Function.update_of_ne ho] at hb

/-- The `NULL` comes when the handler is not open any more. -/
lemma Serves.receiveEnd (hold : Serves s c (s.handlers c))
    (hfirst : (s.handlers c).firstRound = false)
    (hq : s.outputMQ (s.handlers c).offset = none :: rest)
    (ht : NewOutputThread.startup (s.handlers c).invokerId [none] (s.handlers c).thread = some t) :
    Serves { s with outputMQ := Function.update s.outputMQ (s.handlers c).offset rest } c
      { s.handlers c with
        thread := State.written (s.handlers c) t
        received := (s.handlers c).received ++ (Option.map Answer.rbs none).toList } := by
  have hclosed : ¬ (s.handlers c).phase.isOpen = true := by
    intro hopen
    apply hold.noEnd hopen hfirst
    rw [hq]
    exact List.mem_cons_self
  have hstop : t = { (s.handlers c).thread with outputList := [], stopped := true } := by
    simp only [NewOutputThread.startup, Option.some_inj] at ht
    exact ht.symm
  have hwritten : (State.written (s.handlers c) t).written = (s.handlers c).thread.written ∧
      (State.written (s.handlers c) t).stopped = true := by
    unfold State.written
    rw [hstop]
    split_ifs
    · exact ⟨rfl, rfl⟩
    · exact ⟨rfl, rfl⟩
  have hreceived : (s.handlers c).received ++ (Option.map Answer.rbs none).toList =
      (s.handlers c).received := List.append_nil _
  rw [hreceived]
  have hsub := mem_outputMQ_of_tail hq
  refine { hold with
    requests := fun r hr hc hr' => (hold.requests r hr hc hr').setThread _ _
    dispatching := fun b hb hc => (hold.dispatching b hb hc).setThread _ _
    sent := fun o b hb hc =>
      ⟨(hold.sent o b (hsub o b hb) hc).1.setThread _ _, (hold.sent o b (hsub o b hb) hc).2⟩
    pipeline := ?_
    written := hwritten.1.trans hold.written
    outputList := ?_
    listening := fun hopen => absurd hopen hclosed
    noEnd := fun hopen => absurd hopen hclosed }
  · have hpipeline := hold.pipeline
    rw [hq] at hpipeline
    show _ = _ ++ answersOf c (Function.update s.outputMQ (s.handlers c).offset rest
      (s.handlers c).offset).reduceOption ++ _
    rw [Function.update_self]
    exact hpipeline
  · intro hrun
    exact Bool.noConfusion (hwritten.2.symm.trans hrun)

/-- An answer goes on to the list of the output thread. -/
lemma Serves.receive {b : Answer bso} (hold : Serves s c (s.handlers c))
    (hconn : b.request.conn = c) (hawaits : (s.handlers c).Awaits b.rbs.qid)
    (hq : s.outputMQ (s.handlers c).offset = some b :: rest)
    (ht : NewOutputThread.startup (s.handlers c).invokerId [some b.rbs] (s.handlers c).thread =
      some t) :
    Serves { s with outputMQ := Function.update s.outputMQ (s.handlers c).offset rest } c
      { s.handlers c with
        thread := State.written (s.handlers c) t
        received := (s.handlers c).received ++ ((some b).map Answer.rbs).toList } := by
  obtain ⟨hwritten, hlist, hstopped⟩ := hold.startup hawaits ht
  have hopen : State.written (s.handlers c) t = t := by
    unfold State.written
    rw [if_neg]
    intro hphase
    have := hawaits.isOpen
    rw [hphase] at this
    cases this
  rw [hopen]
  have hsub := mem_outputMQ_of_tail hq
  refine { hold with
    requests := fun r hr hc hr' => (hold.requests r hr hc hr').setThread _ _
    dispatching := fun b hb hc => (hold.dispatching b hb hc).setThread _ _
    sent := fun o b hb hc =>
      ⟨(hold.sent o b (hsub o b hb) hc).1.setThread _ _, (hold.sent o b (hsub o b hb) hc).2⟩
    pipeline := ?_
    written := hwritten
    outputList := fun _ => hlist
    listening := fun _ => hstopped
    noEnd := ?_ }
  · have hpipeline := hold.pipeline
    have hsplit : (some b :: rest).reduceOption = [b] ++ rest.reduceOption := rfl
    have hone : answersOf c [b] = [b.rbs] := by
      unfold answersOf
      rw [forConn_of_eq hconn]
      rfl
    rw [hq, hsplit, answersOf_append, hone, ← List.append_assoc] at hpipeline
    show _ = _ ++ answersOf c (Function.update s.outputMQ (s.handlers c).offset rest
      (s.handlers c).offset).reduceOption ++ _
    rw [Function.update_self]
    exact hpipeline
  · intro hopen' hfirst' hnone
    have hnone' : none ∈ rest := by
      rw [← Function.update_self (s.handlers c).offset rest s.outputMQ]
      exact hnone
    apply hold.noEnd hopen' hfirst'
    rw [hq]
    exact List.mem_cons_of_mem _ hnone'

/-- The other connections have other queues, and the answer is not for them. -/
lemma Serves.receive_of_ne (hs : Routed s) (hd : d ≠ c) (hfirst : (s.handlers c).firstRound = false)
    (hq : s.outputMQ (s.handlers c).offset = res :: rest) :
    Serves { s with outputMQ := Function.update s.outputMQ (s.handlers c).offset rest } d
      (s.handlers d) := by
  apply (hs.serves d).of_untouched
  refine { Untouched.refl s d (s.handlers d) with sent := ?_, noEnd := ?_ }
  · intro o
    show forConn d (Function.update s.outputMQ (s.handlers c).offset rest o).reduceOption = _
    by_cases ho : o = (s.handlers c).offset
    · rw [ho, Function.update_self, hq]
      cases res with
      | none => rfl
      | some b =>
          have hmem : b ∈ (s.outputMQ (s.handlers c).offset).reduceOption := by
            rw [hq]
            exact List.mem_cons_self
          have hconn := (conn_of_sent hs hfirst hmem).1
          have hsplit : (some b :: rest).reduceOption = [b] ++ rest.reduceOption := rfl
          rw [hsplit, forConn_append, forConn_of_ne (by rw [hconn]; exact hd.symm)]
          rfl
    · rw [Function.update_of_ne ho]
  · intro _ hfirst' hnone
    have hoffset : (s.handlers d).offset ≠ (s.handlers c).offset := by
      intro heq
      exact hd (hs.offsets.distinct d c hfirst' hfirst heq)
    rw [← Function.update_of_ne hoffset rest s.outputMQ]
    exact hnone

/-- An output thread takes the next element of its queue. -/
lemma serves_receiveAnswer (hs : Routed s) (hfirst : (s.handlers c).firstRound = false)
    (hq : s.outputMQ (s.handlers c).offset = res :: rest)
    (ht : NewOutputThread.startup (s.handlers c).invokerId [res.map Answer.rbs]
      (s.handlers c).thread = some t) :
    ∀ d, Serves { s with outputMQ := Function.update s.outputMQ (s.handlers c).offset rest } d
      ((s.setHandler c { s.handlers c with
          thread := State.written (s.handlers c) t
          received := (s.handlers c).received ++ (res.map Answer.rbs).toList }).handlers d) := by
  apply forall_setHandler (P := fun d h => Serves
    { s with outputMQ := Function.update s.outputMQ (s.handlers c).offset rest } d h)
  · cases res with
    | none => exact (hs.serves c).receiveEnd hfirst hq ht
    | some b =>
        have hmem : b ∈ (s.outputMQ (s.handlers c).offset).reduceOption := by
          rw [hq]
          exact List.mem_cons_self
        obtain ⟨hconn, hawaits⟩ := conn_of_sent hs hfirst hmem
        exact (hs.serves c).receive hconn hawaits hq ht
  · exact fun d hd => Serves.receive_of_ne hs hd hfirst hq

end ReceiveAnswer

lemma inside_sendTo {r' : Request} (hr' : (s.sendTo w r).Inside r') : r' = r ∨ s.Inside r' := by
  rcases hr' with hr' | ⟨v, hr' | hr'⟩
  · exact Or.inr (Or.inl hr')
  · by_cases hv : v = w
    · subst hv
      rw [show (s.sendTo v r).queue v = s.queue v ++ [r] from Function.update_self ..,
        List.mem_append, List.mem_singleton] at hr'
      exact hr'.symm.imp_right (fun h => Or.inr ⟨v, Or.inl h⟩)
    · rw [show (s.sendTo w r).queue v = s.queue v from Function.update_of_ne hv ..] at hr'
      exact Or.inr (Or.inr ⟨v, Or.inl hr'⟩)
  · exact Or.inr (Or.inr ⟨v, Or.inr hr'⟩)

lemma inside_pop {x : Option Request} {rest : List (Option Request)} {r' : Request}
    (hq : s.requestDispatcherMQ = x :: rest)
    (hr' : State.Inside { s with requestDispatcherMQ := rest } r') : s.Inside r' := by
  refine hr'.imp_left (fun h => ?_)
  rw [hq]
  exact List.mem_cons_of_mem x h

/-- A loop takes a message that it processes, or stops. -/
lemma inside_take {l : Loop} {rest : List Request} {r' : Request} (hq : s.queue w = r :: rest)
    (hl : ∀ r', l = .processing r' → r' = r)
    (hr' : (State.setLoop { s with queue := Function.update s.queue w rest } w l).Inside r') :
    s.Inside r' := by
  have hhead : r ∈ s.queue w := by
    rw [hq]
    exact List.mem_cons_self
  rcases hr' with hr' | ⟨v, hr' | hr'⟩
  · exact Or.inl hr'
  · refine Or.inr ⟨v, Or.inl ?_⟩
    have hr' : r' ∈ Function.update s.queue w rest v := hr'
    by_cases hv : v = w
    · subst hv
      rw [Function.update_self] at hr'
      rw [hq]
      exact List.mem_cons_of_mem r hr'
    · rwa [Function.update_of_ne hv] at hr'
  · by_cases hv : v = w
    · subst hv
      rw [setLoop_self] at hr'
      rw [hl r' hr']
      exact Or.inr ⟨v, Or.inl hhead⟩
    · rw [setLoop_of_ne hv] at hr'
      exact Or.inr ⟨v, Or.inr hr'⟩

lemma serves_take (hs : Routed s) {l : Loop} {rest : List Request} (hq : s.queue w = r :: rest)
    (hw : s.loop w = .waiting) (hl : ∀ r', l = .processing r' → r' = r) :
    ∀ d, Serves (State.setLoop { s with queue := Function.update s.queue w rest } w l) d
      (s.handlers d) := by
  intro d
  apply (hs.serves d).of_untouched
  refine { Untouched.refl s d (s.handlers d) with
    inside := fun r' hr' _ _ => inside_take hq hl hr'
    processing := ?_ }
  intro v r' hv _
  have hne : v ≠ w := by
    rintro rfl
    rw [hw] at hv
    cases hv
  exact ⟨v, (setLoop_of_ne hne).trans hv⟩

/-- The request dispatcher, or nobody, keeps a request. -/
lemma serves_of_inside (hs : ∀ d, Serves s d (s.handlers d))
    {m : List (Option Request)} {q : Worker → List Request}
    (hinside : ∀ r, isShutdown r.mess.qid = false →
      State.Inside { s with requestDispatcherMQ := m, queue := q } r → s.Inside r) :
    ∀ d, Serves { s with requestDispatcherMQ := m, queue := q } d (s.handlers d) := by
  intro d
  apply (hs d).of_untouched
  exact { Untouched.refl s d (s.handlers d) with
    inside := fun r hr _ hshut => hinside r hshut hr }

/-- The loops of a new context have nothing to do yet. -/
lemma inside_startContext (hs : s.WellFormed) (ctxId : ℕ) (rd : NewBaseDispatcher) :
    State.Inside { s with
      requestDispatcher := rd
      contexts := s.contexts ++ [ctxId]
      loop := fun w => if w.2 = s.contexts.length then .waiting else s.loop w } r ↔ s.Inside r := by
  constructor
  · rintro (hr | ⟨w, hr | hr⟩)
    · exact Or.inl hr
    · exact Or.inr ⟨w, Or.inl hr⟩
    · by_cases hw : w.2 = s.contexts.length
      · exact Loop.noConfusion ((if_pos hw).symm.trans hr)
      · exact Or.inr ⟨w, Or.inr ((if_neg hw).symm.trans hr)⟩
  · rintro (hr | ⟨w, hr | hr⟩)
    · exact Or.inl hr
    · exact Or.inr ⟨w, Or.inl hr⟩
    · have hlt := hs.lt_of_loop (w := w) (by rw [hr]; exact Loop.noConfusion)
      exact Or.inr ⟨w, Or.inr ((if_neg hlt.ne).trans hr)⟩

lemma serves_startContext (hs : Routed s) (ctxId : ℕ) (rd : NewBaseDispatcher) :
    ∀ d, Serves { s with
      requestDispatcher := rd
      contexts := s.contexts ++ [ctxId]
      loop := fun w => if w.2 = s.contexts.length then .waiting else s.loop w }
      d (s.handlers d) := by
  intro d
  apply (hs.serves d).of_untouched
  refine { Untouched.refl s d (s.handlers d) with
    inside := fun r hr _ _ => (inside_startContext hs.wellFormed ctxId rd).1 hr
    processing := ?_ }
  · intro w r hw _
    have hlt := hs.wellFormed.lt_of_loop (w := w) (by rw [hw]; exact Loop.noConfusion)
    exact ⟨w, (if_neg hlt.ne).trans hw⟩

/-- The destructor of a handler interrupts its output thread. -/
lemma Serves.interrupt (hs : Serves s c h) (hphase : h.phase = .closed) :
    Serves s c { h with thread := { h.thread with stopped := true } } :=
  { hs with
    requests := fun r hr hc hr' => (hs.requests r hr hc hr').setThread _ _
    dispatching := fun b hb hc => (hs.dispatching b hb hc).setThread _ _
    sent := fun o b hb hc => ⟨(hs.sent o b hb hc).1.setThread _ _, (hs.sent o b hb hc).2⟩
    outputList := fun hrun => nomatch hrun
    listening := by
      intro hopen
      rw [hphase] at hopen
      cases hopen }

/-! ### Dying -/

/-- A request that is to be answered belongs to an open connection. -/
lemma Routed.isOpen (hs : Routed s) (hr : s.Inside r) (hshut : isShutdown r.mess.qid = false) :
    r.conn < s.handlerVec ∧ (s.handlers r.conn).phase.isOpen = true := by
  have hopen := ((hs.serves r.conn).requests r hr rfl hshut).isOpen
  refine ⟨hs.wellFormed.lt_of_phase ?_, hopen⟩
  intro hphase
  rw [hphase] at hopen
  cases hopen

/-- What the server may be told after it was killed. -/
lemma Alive.sendRequest (hs : Alive s) {rq : List (Option Request)} {x : Option Request}
    (hrq : rq = s.requestDispatcherMQ ++ [x]) : Alive { s with requestDispatcherMQ := rq } :=
  { hs with
    deaf := by
      intro hkilled
      refine (hs.deaf hkilled).imp_right ?_
      rintro ⟨before, after, hq, hbefore⟩
      refine ⟨before, after ++ [x], ?_, hbefore⟩
      show rq = _
      rw [hrq, hq, List.append_assoc, List.cons_append] }

/-- The server is killed when no connection is open. -/
lemma Alive.shutdown (hs : Routed s)
    (hclosed : ∀ d < s.handlerVec, (s.handlers d).phase.isOpen = false) :
    Alive { s with
      requestDispatcherMQ := s.requestDispatcherMQ ++ [none]
      outputDispatcherMQ := s.outputDispatcherMQ ++ [none]
      killed := true } := by
  have hnot : ∀ r, s.Inside r → isShutdown r.mess.qid = true := by
    intro r hr
    by_contra hshut
    rw [Bool.not_eq_true] at hshut
    obtain ⟨hlt, hopen⟩ := hs.isOpen hr hshut
    rw [hclosed _ hlt] at hopen
    cases hopen
  have hempty : s.outputDispatcherMQ.reduceOption = [] := by
    rw [List.eq_nil_iff_forall_not_mem]
    intro a ha
    have hawaits := (hs.serves a.request.conn).dispatching a ha rfl
    have hlt := hs.wellFormed.lt_of_firstRound hawaits.firstRound
    have hopen := hawaits.isOpen
    rw [hclosed _ hlt] at hopen
    cases hopen
  have hempty' : (s.outputDispatcherMQ ++ [none]).reduceOption = [] := by
    rw [List.reduceOption_append, hempty]
    rfl
  refine { hs.alive with
    started := fun h => ⟨(hs.alive.started h).1, hempty', (hs.alive.started h).2.2⟩
    answering := fun _ => rfl
    dead := fun _ => ⟨hempty', fun w => ⟨fun r hr => hnot r (Or.inr ⟨w, Or.inl hr⟩), ?_⟩⟩
    deaf := fun _ => Or.inr ⟨s.requestDispatcherMQ, [], rfl, fun r hr => hnot r (Or.inl hr)⟩ }
  intro r hw
  have hprocessing := hs.wellFormed.processing w r hw
  rw [hnot r (Or.inr ⟨w, Or.inr hw⟩)] at hprocessing
  cases hprocessing

/-- The request dispatcher takes an element of its queue. -/
lemma Alive.dispatch (hs : Alive s) {r : Request} {rest : List (Option Request)}
    (hrunning : s.requestDispatcherThread = .running) (hq : s.requestDispatcherMQ = some r :: rest)
    {queue : Worker → List Request}
    (hqueue : ∀ w, ∀ r' ∈ queue w, r' ∈ s.queue w ∨ r' = r) :
    Alive { s with requestDispatcherMQ := rest, queue := queue } := by
  have hdeaf : s.killed = true → isShutdown r.mess.qid = true ∧
      ∃ before after, rest = before ++ none :: after ∧
        ∀ r, some r ∈ before → isShutdown r.mess.qid = true := by
    intro hkilled
    rcases hs.deaf hkilled with hstopped | ⟨before, after, hsplit, hbefore⟩
    · rw [hrunning] at hstopped
      cases hstopped
    · rw [hq] at hsplit
      cases before with
      | nil =>
          rw [List.nil_append, List.cons.injEq] at hsplit
          exact absurd hsplit.1 (Option.some_ne_none r)
      | cons x before =>
          rw [List.cons_append, List.cons.injEq] at hsplit
          refine ⟨hbefore r ?_, before, after, hsplit.2,
            fun r' hr' => hbefore r' (List.mem_cons_of_mem x hr')⟩
          rw [hsplit.1]
          exact List.mem_cons_self
  refine { hs with
    dead := ?_
    deaf := fun hkilled => Or.inr (hdeaf hkilled).2 }
  intro hkilled
  obtain ⟨hanswers, hloops⟩ := hs.dead hkilled
  refine ⟨hanswers, fun w => ⟨fun r' hr' => ?_, (hloops w).2⟩⟩
  rcases hqueue w r' hr' with hold | rfl
  · exact (hloops w).1 r' hold
  · exact (hdeaf hkilled).1

lemma mem_queue_sendTo {v : Worker} {r' : Request} (hr' : r' ∈ (s.sendTo w r).queue v) :
    r' ∈ s.queue v ∨ r' = r := by
  have hr' : r' ∈ Function.update s.queue w (s.queue w ++ [r]) v := hr'
  by_cases hv : v = w
  · subst hv
    rw [Function.update_self, List.mem_append, List.mem_singleton] at hr'
    exact hr'
  · rw [Function.update_of_ne hv] at hr'
    exact Or.inl hr'

/-- A loop takes the next message of its queue. -/
lemma Alive.take (hs : Alive s) {l : Loop} {rest : List Request} (hq : s.queue w = r :: rest)
    (hw : s.loop w = .waiting)
    (hl : (∀ r', l ≠ .processing r') ∨ isShutdown r.mess.qid = false) :
    Alive (State.setLoop { s with queue := Function.update s.queue w rest } w l) := by
  have hhead : r ∈ s.queue w := by
    rw [hq]
    exact List.mem_cons_self
  have hsub : ∀ v, ∀ r' ∈ Function.update s.queue w rest v, r' ∈ s.queue v := by
    intro v r' hr'
    by_cases hv : v = w
    · subst hv
      rw [Function.update_self] at hr'
      rw [hq]
      exact List.mem_cons_of_mem r hr'
    · rwa [Function.update_of_ne hv] at hr'
  refine { hs with started := ?_, dead := ?_ }
  · intro hthread
    rw [(hs.started hthread).1 w] at hw
    cases hw
  · intro hkilled
    obtain ⟨hanswers, hloops⟩ := hs.dead hkilled
    refine ⟨hanswers, fun v => ⟨fun r' hr' => (hloops v).1 r' (hsub v r' hr'), fun r' hr' => ?_⟩⟩
    by_cases hv : v = w
    · subst hv
      rw [setLoop_self] at hr'
      rcases hl with hl | hl
      · exact hl r' hr'
      · rw [(hloops v).1 r hhead] at hl
        cases hl
    · rw [setLoop_of_ne hv] at hr'
      exact (hloops v).2 r' hr'

/-- A loop that is processing sends an answer: the server is alive. -/
lemma Alive.emit (hs : Alive s) {bs : Option (NewBeliefState bso.width)} {l : Loop}
    (hw : s.loop w = .processing r) : Alive ((s.emit r bs).setLoop w l) := by
  have hrunning : s.outputDispatcherThread ≠ .notStarted := by
    intro hthread
    rw [(hs.started hthread).1 w] at hw
    cases hw
  have halive : ¬ s.killed = true := fun hkilled => ((hs.dead hkilled).2 w).2 r hw
  refine { hs with
    started := fun hthread => absurd hthread hrunning
    answering := ?_
    dead := fun hkilled => absurd hkilled halive }
  rintro (hstopped | hnone)
  · exact hs.answering (Or.inl hstopped)
  · have hnone : none ∈ s.outputDispatcherMQ ++ [some _] := hnone
    rw [List.mem_append] at hnone
    rcases hnone with hnone | hnone
    · exact hs.answering (Or.inr hnone)
    · cases List.mem_singleton.1 hnone

/-- The output dispatcher takes an element of its queue; at `NULL` it stops. -/
lemma Alive.dispatchAnswer (hs : Alive s) {x : Option (Answer bso)}
    {rest : List (Option (Answer bso))} (hq : s.outputDispatcherMQ = x :: rest)
    (hrunning : s.outputDispatcherThread = .running) {thread : Thread}
    (hthread : thread = .running ∨ (x = none ∧ thread = .stopped)) :
    Alive { s with outputDispatcherMQ := rest, outputDispatcherThread := thread } := by
  have hsub : ∀ y ∈ rest, y ∈ s.outputDispatcherMQ := by
    intro y hy
    rw [hq]
    exact List.mem_cons_of_mem x hy
  have hempty : s.outputDispatcherMQ.reduceOption = [] → rest.reduceOption = [] := by
    intro hnil
    rw [List.eq_nil_iff_forall_not_mem] at hnil ⊢
    intro a ha
    exact hnil a (List.reduceOption_mem_iff.2 (hsub _ (List.reduceOption_mem_iff.1 ha)))
  have hstarted : s.requestDispatcherThread ≠ .notStarted := by
    intro h
    rw [hs.threads.1 h] at hrunning
    cases hrunning
  have hthread' : thread ≠ .notStarted := by
    rcases hthread with rfl | ⟨-, rfl⟩
    · exact Thread.noConfusion
    · exact Thread.noConfusion
  refine { hs with
    threads := ⟨fun h => absurd h hstarted, fun h => absurd h hthread'⟩
    started := fun h => absurd h hthread'
    answering := ?_
    dead := fun hkilled => ⟨hempty (hs.dead hkilled).1, (hs.dead hkilled).2⟩ }
  have hnone : x = none → s.killed = true := by
    rintro rfl
    apply hs.answering
    rw [hq]
    exact Or.inr List.mem_cons_self
  rintro (hstopped | hmem)
  · rcases hthread with hthread | ⟨hx, -⟩
    · rw [hthread] at hstopped
      cases hstopped
    · exact hnone hx
  · exact hs.answering (Or.inr (hsub none hmem))

/-! ### Every step keeps the invariant -/

lemma registerIdOffset_isSome (hs : s.WellFormed) {ctxId : ℕ} (hnew : ctxId ∉ s.contexts) :
    s.requestDispatcher.registerIdOffset ctxId s.contexts.length ≠ none := by
  have hget : s.requestDispatcher.getOffset ctxId = none := by
    rw [Option.eq_none_iff_forall_not_mem]
    intro o ho
    exact hnew (List.mem_of_getElem? (hs.registered ctxId o ho))
  obtain ⟨rd, hrd⟩ := NewBaseDispatcher.register_of_new hget s.contexts.length
  rw [hrd]
  exact Option.some_ne_none rd

lemma new_of_keepsApart {mess : ForwardMessage} (hfirst : (s.handlers c).firstRound = true)
    (hmeets : s.keepsApart (.readMessage c mess) = true) :
    s.outputDispatcher.getOffset (ctxIdFromQid mess.qid) = none := by
  simp only [State.keepsApart, hfirst, Bool.not_true, Bool.false_or,
    Option.isNone_iff_eq_none] at hmeets
  exact hmeets

/-- A first message, up to the registration of its invoker. -/
lemma Routed.initMq (hs : Routed s) {invoker : ℕ} (hphase : (s.handlers c).phase = .readMessage)
    (hfirst : (s.handlers c).firstRound = true)
    (hnew : s.outputDispatcher.getOffset invoker = none) (h : s.initMq c invoker = some s') :
    Routed s' ∧ (s'.handlers c).firstRound = false ∧ (s'.handlers c).invokerId = invoker ∧
      (s'.handlers c).phase.isOpen = true := by
  obtain ⟨hserves, hhandler⟩ := serves_initMq hs hphase hfirst hnew h
  have hoffsets := offsets_initMq hs h
  have hwell := (hs.wellFormed.initMq hphase h).1
  obtain ⟨od, -, rfl⟩ := Option.map_eq_some_iff.1 h
  refine ⟨⟨hwell, hserves, hoffsets, { hs.alive with }, hs.asserts⟩, ?_⟩
  rw [hhandler]
  refine ⟨rfl, rfl, ?_⟩
  show (s.handlers c).phase.isOpen = true
  rw [hphase]
  rfl

/-- A message that goes to the request dispatcher. -/
lemma Routed.sendRequest (hs : Routed s) {mess : ForwardMessage}
    (hopen : (s.handlers c).phase.isOpen = true) (hfirst : (s.handlers c).firstRound = false)
    (hinvoker : (s.handlers c).invokerId = ctxIdFromQid mess.qid) :
    Routed (s.sendRequest c mess) := by
  have hoffsets := hs.offsets.setPhase c .readHeader
  exact ⟨hs.wellFormed.sendRequest hfirst mess,
    serves_sendRequest hs.serves ⟨hopen, hfirst, hinvoker.symm⟩, { hoffsets with },
    { hs.alive.sendRequest rfl with }, hs.asserts⟩

lemma Routed.connect (hs : Routed s) (hwell : s.connect.WellFormed) : Routed s.connect := by
  refine ⟨hwell, serves_connect hs, ⟨?_, hs.offsets.unused⟩, { hs.alive with }, hs.asserts⟩
  have hold : ∀ d, (s.connect.handlers d).firstRound = false →
      s.connect.handlers d = s.handlers d := by
    intro d
    show (Function.update s.handlers s.handlerVec _ d).firstRound = false →
      Function.update s.handlers s.handlerVec _ d = s.handlers d
    by_cases hd : d = s.handlerVec
    · rw [hd, Function.update_self]
      exact fun h => nomatch h
    · rw [Function.update_of_ne hd]
      exact fun _ => rfl
  intro d e hd he hde
  have hd' := hold d hd
  have he' := hold e he
  rw [hd'] at hd hde
  rw [he'] at he hde
  exact hs.offsets.distinct d e hd he hde

lemma Routed.createMainThreads (hs : Routed s)
    (hwell : State.WellFormed { s with
      requestDispatcherThread := .running, outputDispatcherThread := .running })
    (hthread : s.requestDispatcherThread = .notStarted) :
    Routed { s with requestDispatcherThread := .running, outputDispatcherThread := .running } := by
  refine ⟨hwell, fun d => { hs.serves d with }, { hs.offsets with }, ?_, hs.asserts⟩
  refine { hs.alive with
    threads := ⟨Thread.noConfusion, Thread.noConfusion⟩
    started := Thread.noConfusion
    answering := ?_
    deaf := ?_ }
  · rintro (h | h)
    · cases h
    · exact hs.alive.answering (Or.inr h)
  · intro hkilled
    rcases hs.alive.deaf hkilled with h | h
    · rw [hthread] at h
      cases h
    · exact Or.inr h

lemma Routed.startContext (hs : Routed s) {ctxId : ℕ} {rd : NewBaseDispatcher}
    (hwell : State.WellFormed { s with
      requestDispatcher := rd
      contexts := s.contexts ++ [ctxId]
      loop := fun w => if w.2 = s.contexts.length then .waiting else s.loop w })
    (hthread : s.requestDispatcherThread ≠ .notStarted) :
    Routed { s with
      requestDispatcher := rd
      contexts := s.contexts ++ [ctxId]
      loop := fun w => if w.2 = s.contexts.length then .waiting else s.loop w } := by
  refine ⟨hwell, serves_startContext hs _ _, { hs.offsets with }, ?_, hs.asserts⟩
  refine { hs.alive with
    started := fun h => absurd (hs.alive.threads.2 h) hthread
    dead := ?_ }
  intro hkilled
  obtain ⟨hanswers, hloops⟩ := hs.alive.dead hkilled
  refine ⟨hanswers, fun w => ⟨(hloops w).1, fun r hw => ?_⟩⟩
  by_cases hlen : w.2 = s.contexts.length
  · exact Loop.noConfusion ((if_pos hlen).symm.trans hw)
  · exact (hloops w).2 r ((if_neg hlen).symm.trans hw)

/-- A handler that goes on to a phase of the same kind, open or not. -/
lemma Routed.setPhase (hs : Routed s) {p : Phase} (hwell : (s.setPhase c p).WellFormed)
    (hsame : p.isOpen = (s.handlers c).phase.isOpen) : Routed (s.setPhase c p) := by
  have hserves := serves_setPhase hs.serves hsame
  exact ⟨hwell, fun d => { hserves d with }, hs.offsets.setPhase c p, { hs.alive with }, hs.asserts⟩

lemma Routed.finalize (hs : Routed s) {mess : ForwardMessage}
    (hwell : ((s.setPhase c (.sendMess mess)).sendOutput (s.handlers c).offset none).WellFormed)
    (hphase : (s.handlers c).phase = .finalize)
    (hmeets : s.keepsApart (.finalize c mess) = true) :
    Routed ((s.setPhase c (.sendMess mess)).sendOutput (s.handlers c).offset none) := by
  have hserves := serves_finalize hs mess hphase hmeets
  have hfirst : (s.handlers c).firstRound = false := by
    apply hs.wellFormed.firstRound_eq
    · rw [hphase]
      exact Phase.noConfusion
    · rw [hphase]
      exact Phase.noConfusion
  have hlt := ((hs.serves c).registered hfirst).2
  refine ⟨hwell, fun d => { hserves d with }, ⟨?_, ?_⟩, { hs.alive with }, hs.asserts⟩
  · exact (hs.offsets.setPhase c (.sendMess mess)).distinct
  · intro o ho
    have ho : s.outputMQs ≤ o := ho
    exact (sendOutput_of_ne (by omega)).trans (hs.offsets.unused o ho)

/-- The shutdown message asks for nothing, so no answer is due for it. -/
lemma Routed.sendMess (hs : Routed s) {mess : ForwardMessage}
    (hwell : State.WellFormed { s.setPhase c .notify with
      requestDispatcherMQ := s.requestDispatcherMQ ++ [some ⟨c, s.asked.length, mess⟩] })
    (hphase : (s.handlers c).phase = .sendMess mess) :
    Routed { s.setPhase c .notify with
      requestDispatcherMQ := s.requestDispatcherMQ ++ [some ⟨c, s.asked.length, mess⟩] } := by
  have hshut := (hs.wellFormed.handler c).last mess hphase
  have hserves := serves_setPhase (c := c) (p := .notify) hs.serves (by rw [hphase]; rfl)
  have hoffsets := hs.offsets.setPhase c .notify
  have hserves' := serves_of_inside (s := s.setPhase c .notify) (q := s.queue)
    (m := s.requestDispatcherMQ ++ [some ⟨c, s.asked.length, mess⟩])
    (fun d => { hserves d with }) ?_
  · exact ⟨hwell, fun d => { hserves' d with }, { hoffsets with },
      { hs.alive.sendRequest rfl with }, hs.asserts⟩
  · rintro r hr (h | h)
    · rcases List.mem_append.1 h with h | h
      · exact Or.inl h
      · obtain rfl := Option.some_inj.1 (List.mem_singleton.1 h)
        rw [hshut] at hr
        cases hr
    · exact Or.inr h

lemma Routed.shutdown (hs : Routed s)
    (hwell : State.WellFormed { s.setPhase c .closed with
      requestDispatcherMQ := s.requestDispatcherMQ ++ [none]
      outputDispatcherMQ := s.outputDispatcherMQ ++ [none]
      killed := true })
    (hphase : (s.handlers c).phase = .shutdown)
    (hmeets : s.keepsApart (.continueFinalize c) = true) :
    Routed { s.setPhase c .closed with
      requestDispatcherMQ := s.requestDispatcherMQ ++ [none]
      outputDispatcherMQ := s.outputDispatcherMQ ++ [none]
      killed := true } := by
  have hclosed : ∀ d < s.handlerVec, (s.handlers d).phase.isOpen = false := by
    simp only [State.keepsApart, hphase, ne_eq, not_true_eq_false, decide_false, Bool.false_or,
      List.all_eq_true, List.mem_range, Bool.not_eq_eq_eq_not, Bool.not_true] at hmeets
    exact hmeets
  have hserves := serves_setPhase (c := c) (p := .closed) hs.serves (by rw [hphase]; rfl)
  have hoffsets := hs.offsets.setPhase c .closed
  refine ⟨hwell, ?_, { hoffsets with }, { Alive.shutdown hs hclosed with }, hs.asserts⟩
  intro d
  apply (hserves d).of_untouched
  refine { Untouched.refl s d _ with inside := ?_, dispatching := ?_ }
  · rintro r (h | h) _ _
    · rcases List.mem_append.1 h with h | h
      · exact Or.inl h
      · cases List.mem_singleton.1 h
    · exact Or.inr h
  · show forConn d (s.outputDispatcherMQ ++ [none]).reduceOption = _
    rw [List.reduceOption_append]
    exact congrArg (forConn d) (List.append_nil _)

/-- The request dispatcher stops, at its mark or by the interrupt. -/
lemma Routed.stopRequestDispatcher (hs : Routed s) {q : List (Option Request)}
    (hwell : State.WellFormed { s with
      requestDispatcherMQ := q, requestDispatcherThread := .stopped })
    (hthread : s.requestDispatcherThread = .running)
    (hq : ∀ r, some r ∈ q → some r ∈ s.requestDispatcherMQ) :
    Routed { s with requestDispatcherMQ := q, requestDispatcherThread := .stopped } := by
  have hserves := serves_of_inside hs.serves (q := s.queue) (m := q)
    (fun r _ hr => hr.imp_left (hq r))
  refine ⟨hwell, fun d => { hserves d with }, { hs.offsets with }, ?_, hs.asserts⟩
  refine { hs.alive with
    threads := ⟨Thread.noConfusion, fun h => ?_⟩
    deaf := fun _ => Or.inl rfl }
  rw [hs.alive.threads.2 h] at hthread
  cases hthread

lemma Routed.forwardShutdown (hs : Routed s) {rest : List (Option Request)} {offset : ℕ}
    (hwell : (State.sendTo (State.sendTo { s with requestDispatcherMQ := rest }
      (.normalContext, offset) r) (.cycleBreaker, offset) r).WellFormed)
    (hthread : s.requestDispatcherThread = .running)
    (hq : s.requestDispatcherMQ = some r :: rest) (hr : isShutdown r.mess.qid = true) :
    Routed (State.sendTo (State.sendTo { s with requestDispatcherMQ := rest }
      (.normalContext, offset) r) (.cycleBreaker, offset) r) := by
  have hpop : ∀ r', isShutdown r'.mess.qid = false →
      (State.sendTo (State.sendTo { s with requestDispatcherMQ := rest }
        (.normalContext, offset) r) (.cycleBreaker, offset) r).Inside r' → s.Inside r' := by
    intro r' hr' hin
    rcases inside_sendTo hin with rfl | hin
    · rw [hr] at hr'
      cases hr'
    · rcases inside_sendTo hin with rfl | hin
      · rw [hr] at hr'
        cases hr'
      · exact inside_pop hq hin
  refine ⟨hwell, serves_of_inside hs.serves hpop, { hs.offsets with }, ?_, hs.asserts⟩
  apply hs.alive.dispatch hthread hq
  intro v r' hr'
  rcases mem_queue_sendTo hr' with hr' | hr'
  · exact mem_queue_sendTo hr'
  · exact Or.inr hr'

lemma Routed.forwardRequest (hs : Routed s) {rest : List (Option Request)}
    (hwell : (State.sendTo { s with requestDispatcherMQ := rest } w r).WellFormed)
    (hthread : s.requestDispatcherThread = .running)
    (hq : s.requestDispatcherMQ = some r :: rest) :
    Routed (State.sendTo { s with requestDispatcherMQ := rest } w r) := by
  have hpop : ∀ r', isShutdown r'.mess.qid = false →
      (State.sendTo { s with requestDispatcherMQ := rest } w r).Inside r' → s.Inside r' := by
    intro r' _ hin
    rcases inside_sendTo hin with rfl | hin
    · left
      rw [hq]
      exact List.mem_cons_self
    · exact inside_pop hq hin
  refine ⟨hwell, serves_of_inside hs.serves hpop, { hs.offsets with }, ?_, hs.asserts⟩
  exact hs.alive.dispatch hthread hq (fun v r' hr' => mem_queue_sendTo hr')

lemma Routed.dispatchAnswer (hs : Routed s) {rest : List (Option (Answer bso))} {offset : ℕ}
    (hwell : (State.sendOutput { s with outputDispatcherMQ := rest } offset (some a)).WellFormed)
    (hthread : s.outputDispatcherThread = .running)
    (hq : s.outputDispatcherMQ = some a :: rest)
    (hoffset : s.outputDispatcher.getOffset (ctxIdFromQid a.rbs.qid) = some offset) :
    Routed (State.sendOutput { s with outputDispatcherMQ := rest } offset (some a)) := by
  obtain ⟨-, hfound, hlt⟩ := getOffset_of_dispatching hs hq
  rw [hoffset, Option.some_inj] at hfound
  refine ⟨hwell, serves_dispatchAnswer hs hq hoffset, ⟨hs.offsets.distinct, ?_⟩, ?_, hs.asserts⟩
  · intro o ho
    have ho : s.outputMQs ≤ o := ho
    exact (sendOutput_of_ne (by omega)).trans (hs.offsets.unused o ho)
  · have halive := hs.alive.dispatchAnswer hq hthread (Or.inl hthread)
    exact { halive with }

lemma Routed.receiveAnswer (hs : Routed s) {res : Option (Answer bso)}
    {rest : List (Option (Answer bso))} {t : NewOutputThread.State bso}
    (hwell : State.WellFormed { s.setHandler c { s.handlers c with
        thread := State.written (s.handlers c) t
        received := (s.handlers c).received ++ (res.map Answer.rbs).toList } with
      outputMQ := Function.update s.outputMQ (s.handlers c).offset rest })
    (hfirst : (s.handlers c).firstRound = false)
    (hq : s.outputMQ (s.handlers c).offset = res :: rest)
    (ht : NewOutputThread.startup (s.handlers c).invokerId [res.map Answer.rbs]
      (s.handlers c).thread = some t) :
    Routed { s.setHandler c { s.handlers c with
        thread := State.written (s.handlers c) t
        received := (s.handlers c).received ++ (res.map Answer.rbs).toList } with
      outputMQ := Function.update s.outputMQ (s.handlers c).offset rest } := by
  have hserves := serves_receiveAnswer hs hfirst hq ht
  have hlt := ((hs.serves c).registered hfirst).2
  have hoffsets := hs.offsets.setHandler (c := c) (h := { s.handlers c with
    thread := State.written (s.handlers c) t
    received := (s.handlers c).received ++ (res.map Answer.rbs).toList }) rfl rfl
  refine ⟨hwell, fun d => { hserves d with }, ⟨hoffsets.distinct, ?_⟩, { hs.alive with },
    hs.asserts⟩
  intro o ho
  have ho : s.outputMQs ≤ o := ho
  have hne : o ≠ (s.handlers c).offset := by omega
  exact (Function.update_of_ne hne _ _).trans (hs.offsets.unused o ho)

/-- An answer that is in the mailbox of a connection is for its invoker. -/
lemma Routed.startup_isSome (hs : Routed s) {res : Option (Answer bso)}
    {rest : List (Option (Answer bso))} (hfirst : (s.handlers c).firstRound = false)
    (hq : s.outputMQ (s.handlers c).offset = res :: rest) :
    NewOutputThread.startup (s.handlers c).invokerId [res.map Answer.rbs]
      (s.handlers c).thread ≠ none := by
  intro ht
  cases res with
  | none => cases ht
  | some b =>
      have hmem : b ∈ (s.outputMQ (s.handlers c).offset).reduceOption := by
        rw [hq]
        exact List.mem_cons_self
      have hinvoker := (conn_of_sent hs hfirst hmem).2.invoker
      unfold NewOutputThread.startup at ht
      simp only [Option.map_some, NewOutputThread.startup] at ht
      rw [if_neg (not_not.2 hinvoker)] at ht
      split_ifs at ht

/-- The loop of a context is interrupted after the shutdown, when it has nothing to answer. -/
lemma Routed.interruptContext (hs : Routed s) {offset : ℕ}
    (hwell : (s.setLoop (.normalContext, offset) .stopped).WellFormed) (hkilled : s.killed = true)
    (hoffset : offset < s.contexts.length) :
    Routed (s.setLoop (.normalContext, offset) .stopped) := by
  obtain ⟨hanswers, hloops⟩ := hs.alive.dead hkilled
  have hloop : ∀ v r, (s.setLoop (.normalContext, offset) .stopped).loop v ≠ .processing r := by
    intro v r
    by_cases hv : v = (.normalContext, offset)
    · rw [hv, setLoop_self]
      exact Loop.noConfusion
    · rw [setLoop_of_ne hv]
      exact (hloops v).2 r
  refine ⟨hwell, ?_, { hs.offsets with }, ?_, hs.asserts⟩
  · intro d
    apply (hs.serves d).of_untouched
    refine { Untouched.refl s d (s.handlers d) with inside := ?_, processing := ?_ }
    · rintro r (h | ⟨v, h | h⟩) _ _
      · exact Or.inl h
      · exact Or.inr ⟨v, Or.inl h⟩
      · exact absurd h (hloop v r)
    · intro v r hv
      exact absurd hv ((hloops v).2 r)
  · refine { hs.alive with
      started := ?_
      dead := fun _ => ⟨hanswers, fun v => ⟨(hloops v).1, hloop v⟩⟩ }
    intro h
    rw [(hs.alive.started h).2.2] at hoffset
    cases hoffset

lemma Routed.step (hs : Routed s) {act : Action bso} (hmeets : s.keepsApart act = true)
    (h : step s act = some s') : Routed s' := by
  obtain ⟨hfailed, h⟩ := outcome_of_step h
  have hwell := hs.wellFormed.step h
  have hopen : ∀ {c : ℕ} {p : Phase}, (s.handlers c).phase = p →
      (s.handlers c).phase.isOpen = p.isOpen := by
    rintro c p rfl
    rfl
  -- A branch that would fail is excluded: for requests and new invokers by the condition, for
  -- answers by what the tables hold.
  cases h with
  | createMainThreads hthread => exact hs.createMainThreads hwell hthread
  | startContext hthread => exact hs.startContext hwell hthread
  | contextRefused hnew hrd => exact absurd hrd (registerIdOffset_isSome hs.wellFormed hnew)
  | connect => exact hs.connect hwell
  | firstMessage hphase hmess hfirst hs₁ =>
      obtain ⟨hrouted, hfirst', hinvoker, hopen'⟩ :=
        hs.initMq hphase hfirst (new_of_keepsApart hfirst hmeets) hs₁
      exact hrouted.sendRequest hopen' hfirst' hinvoker
  | invokerRefused hphase hfirst hs' =>
      obtain ⟨od, hod⟩ :=
        NewBaseDispatcher.register_of_new (new_of_keepsApart hfirst hmeets) s.outputMQs
      unfold State.initMq at hs'
      rw [hod] at hs'
      cases hs'
  | nextMessage hphase hmess hfirst hinvoker =>
      exact hs.sendRequest (hopen hphase) hfirst hinvoker.symm
  | @readHeader c last hphase =>
      apply hs.setPhase hwell
      rw [hopen hphase]
      cases last with
      | true => rfl
      | false => rfl
  | finalize hphase => exact hs.finalize hwell hphase hmeets
  | sendMess hphase => exact hs.sendMess hwell hphase
  | @notify c hphase =>
      have hserves := serves_setPhase (c := c) (p := .testShutdown) hs.serves (hopen hphase).symm
      have hoffsets := hs.offsets.setPhase c .testShutdown
      exact ⟨hwell, fun d => { hserves d with }, { hoffsets with }, { hs.alive with }, hs.asserts⟩
  | testShutdown hphase =>
      apply hs.setPhase hwell
      rw [hopen hphase]
      split_ifs
      · rfl
      · rfl
  | shutdown hphase => exact hs.shutdown hwell hphase hmeets
  | stopRequests hthread hq =>
      refine hs.stopRequestDispatcher hwell hthread (fun r hr => ?_)
      rw [hq]
      exact List.mem_cons_of_mem none hr
  | requestRefused hq hoffset =>
      unfold State.keepsApart at hmeets
      rw [hq] at hmeets
      simp [hoffset] at hmeets
  | forwardShutdown hthread hq hoffset hr => exact hs.forwardShutdown hwell hthread hq hr
  | forwardRequest hthread hq hoffset hr => exact hs.forwardRequest hwell hthread hq
  | stopLoop hw hq hr =>
      refine ⟨hwell, ?_, { hs.offsets with },
        hs.alive.take hq hw (Or.inl fun _ => Loop.noConfusion), hs.asserts⟩
      exact serves_take hs hq hw (fun _ => Loop.noConfusion)
  | @takeRequest w r rest hw hq hr hok =>
      refine ⟨hwell, ?_, { hs.offsets with }, hs.alive.take hq hw (Or.inr hr), hs.asserts⟩
      apply serves_take hs hq hw
      rintro r' ⟨⟩
      rfl
  | badRequest hq hr hbad =>
      refine ⟨hwell, fun d => { hs.serves d with }, { hs.offsets with }, { hs.alive with }, ?_, ?_⟩
      · rintro ⟨⟩
      · rintro ⟨⟩
  | @sendModel w r bs hw =>
      rw [emit_eq_setLoop hw] at hwell ⊢
      exact ⟨hwell, serves_emit hs hw (Or.inl rfl), { hs.offsets with }, hs.alive.emit hw,
        hs.asserts⟩
  | @sendEndMarker w r hw =>
      exact ⟨hwell, serves_emit hs hw (Or.inr ⟨rfl, rfl⟩), { hs.offsets with }, hs.alive.emit hw,
        hs.asserts⟩
  | stopAnswers hthread hq =>
      refine ⟨hwell, ?_, { hs.offsets with },
        hs.alive.dispatchAnswer hq hthread (Or.inr ⟨rfl, rfl⟩), hs.asserts⟩
      intro d
      apply (hs.serves d).of_untouched
      refine { Untouched.refl s d (s.handlers d) with dispatching := ?_ }
      rw [hq]
      rfl
  | dispatchAnswer hthread hq hoffset => exact hs.dispatchAnswer hwell hthread hq hoffset
  | answerRefused hq hoffset =>
      rw [(getOffset_of_dispatching hs hq).2.1] at hoffset
      cases hoffset
  | receiveAnswer hfirst hrun hq ht => exact hs.receiveAnswer hwell hfirst hq ht
  | strangeAnswer hfirst hq ht => exact absurd ht (hs.startup_isSome hfirst hq)
  | interruptRequests hkilled hthread =>
      exact hs.stopRequestDispatcher hwell hthread (fun _ => id)
  | interruptAnswers hkilled hthread =>
      refine ⟨hwell, fun d => { hs.serves d with }, { hs.offsets with }, ?_, hs.asserts⟩
      refine { hs.alive with
        threads := ⟨fun h => ?_, Thread.noConfusion⟩
        started := Thread.noConfusion
        answering := fun _ => hkilled }
      rw [hs.alive.threads.1 h] at hthread
      cases hthread
  | interruptContext hkilled hoffset => exact hs.interruptContext hwell hkilled hoffset
  | @interruptThread c hphase =>
      have hserves := forall_setHandler (P := fun d h => Serves s d h)
        ((hs.serves c).interrupt hphase) (fun d _ => hs.serves d)
      have hoffsets := hs.offsets.setHandler (c := c) (h := { s.handlers c with
        thread := { (s.handlers c).thread with stopped := true } }) rfl rfl
      exact ⟨hwell, fun d => { hserves d with }, hoffsets, { hs.alive with }, hs.asserts⟩

/-! ## Runs -/

/-- In every run whose steps meet the condition, answers go back to the connection that asked.  The
invariant is `Routed`: for each connection, what was asked and not answered yet is found somewhere
on its way, and nothing else under its number. -/
theorem answersReturn_of_keepsApart {s : State bso} (h : Reached State.keepsApart s) :
    AnswersReturn s := by
  have hrouted : Routed s := by
    refine TransitionSystem.invariant_of_step Routed.init ?_ h
    rintro t t' ht ⟨act, hmeets, hstep⟩
    exact ht.step hmeets hstep
  exact hrouted.answersReturn

/-- A request of a client to the context `5`. -/
def clientRequest : ForwardMessage := ⟨forwardQid (queryId 1023 1) 5 0 0, ∅, 1, 10⟩

/-- A request of the context `7`, which has the context `5` as a neighbor. -/
def neighborRequest : ForwardMessage := ⟨forwardQid (queryId 7 1) 5 0 0, {7}, 1, 10⟩

/-- Both connections are open when the two requests come.  The context answers the request of the
client with one model, that of the other context with two, and the answers leave the server in turn.
The client terminates while the connection of the other context is still open. -/
def bothAnswered : List (Action NewOutputThread.oneBlock) :=
  [.createMainThreads, .startContext 5, .connect, .connect, .readMessage 0 clientRequest,
    .readMessage 1 neighborRequest, .dispatchRequest, .takeRequest (.normalContext, 0),
    .sendModel (.normalContext, 0) ⟨3, 1⟩, .dispatchRequest, .sendEndMarker (.normalContext, 0),
    .takeRequest (.normalContext, 0), .sendModel (.normalContext, 0) ⟨3, 1⟩, .dispatchAnswer,
    .sendModel (.normalContext, 0) ⟨1, 1⟩, .dispatchAnswer, .dispatchAnswer, .receiveAnswer 1,
    .sendEndMarker (.normalContext, 0), .receiveAnswer 0, .dispatchAnswer, .dispatchAnswer,
    .receiveAnswer 1, .receiveAnswer 0, .receiveAnswer 1, .readHeader 0 true,
    .finalize 0 ⟨shutdownQueryId 1023 5, ∅, 0, 0⟩]

/-- Both are served in this run: the client, which has terminated, has received its two answers, and
the other context, which has not, its three. -/
theorem answersReturn_twoInvokers : ∃ s : State NewOutputThread.oneBlock,
    Reached State.keepsApart s ∧ (s.handlers 0).received.length = 2 ∧
      (s.handlers 1).received.length = 3 ∧ (s.handlers 1).phase.isOpen = true ∧
      AnswersReturn s := by
  have hrun : ((bothAnswered.foldlM (guarded State.keepsApart) State.init).map fun s =>
      ((s.handlers 0).received.length, (s.handlers 1).received.length,
        (s.handlers 1).phase.isOpen)) = some (2, 3, true) := by decide +kernel
  obtain ⟨s, hs, hends⟩ := Option.map_eq_some_iff.1 hrun
  obtain ⟨hclient, hneighbor, hopen⟩ : (s.handlers 0).received.length = 2 ∧
      (s.handlers 1).received.length = 3 ∧ (s.handlers 1).phase.isOpen = true := by
    simpa only [Prod.mk.injEq] using hends
  have hreached := reached_of_foldlM hs
  exact ⟨s, hreached, hclient, hneighbor, hopen, answersReturn_of_keepsApart hreached⟩

/-- Two clients ask under the same id: the second does not get an output thread. -/
theorem sameInvoker_fails : ¬ ∀ s : State NewOutputThread.oneBlock,
    Reached (fun _ _ => true) s → AnswersReturn s := by
  intro hall
  have hrun : (([.connect, .connect, .readMessage 0 clientRequest,
      .readMessage 1 clientRequest] : List (Action NewOutputThread.oneBlock)).foldlM
        (guarded (fun _ _ => true)) State.init).map State.failed =
      some (some .newBaseDispatcher) := by decide +kernel
  obtain ⟨s, hs, hfailed⟩ := Option.map_eq_some_iff.1 hrun
  exact (hall s (reached_of_foldlM hs)).asserts hfailed

end NewServer

end Dmcs
