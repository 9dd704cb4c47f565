import Dmcs.Network.AnswerRouting

/-!
# Who may end a context (`NewHandler::handle_finalize`, `NormalContext::startup`)

A handler that is finalized counts towards the shutdown of the server, and sends its shutdown
message on to the context.  The loops of the context stop at the first such message, whoever sent
it: the requests of the other invokers, and their later ones, stay in the queues
(`otherInvoker_orphaned`).

If only the last open handler is ever finalized, and nobody connects after that, the loops run as
long as a handler is open, and every request of an open connection gets its end marker
(`notOrphaned_of_keepsAlive`).

## The argument

The workers of a context stop at the first shutdown message they take from their queue.  Under
`keepsAlive` a connection is finalized only as the last open one, and after that nobody connects.
So a run has two parts: before (`Serving`) no shutdown message is anywhere, no thread has stopped,
and every request is inside the server or was answered; after (`Over`) no connection is open, and
nothing is promised.
-/

namespace Dmcs

open QueryID ReturnedBeliefState

variable {bso : BeliefStateOffset}

namespace NewServer

namespace State

/-- Some handler was not finalized. -/
def SomeOpen (s : State bso) : Prop := ∃ c, (s.handlers c).phase.isOpen = true

/-- The marker for the end of models was sent. -/
def Answered (s : State bso) (r : Request) : Prop :=
  ∃ a ∈ s.emitted, a.request = r ∧ isEndMarker a.rbs = true ∧ a.rbs.qid = r.mess.qid

/-- A first message comes from an invoker that is not registered and requests are allowed ones, a
message is dispatched only to a context that is registered, only the last open handler is finalized,
and nobody connects after that. -/
def keepsAlive (s : State bso) : Action bso → Bool
  | .readMessage c mess => s.keepsApart (.readMessage c mess) && allowed mess
  | .dispatchRequest => s.keepsApart .dispatchRequest
  | .connect => (List.range s.handlerVec).all fun d => (s.handlers d).phase.isOpen
  | .finalize c _ => (List.range s.handlerVec).all fun d => d = c || !(s.handlers d).phase.isOpen
  | _ => true

end State

/-- No request is orphaned: as long as some handler is open, no assertion has failed, the request
dispatcher and the loops run, and every request of an open connection is inside or was answered; and
when all threads wait, it was answered. -/
structure NotOrphaned (s : State bso) : Prop where
  running : s.SomeOpen →
    s.failed = none ∧ s.requestDispatcherThread ≠ .stopped ∧ ∀ w, s.loop w ≠ .stopped
  pending : ∀ r ∈ s.asked, (s.handlers r.conn).phase.isOpen = true → s.Inside r ∨ s.Answered r
  answered : s.Quiet → ∀ r ∈ s.asked, (s.handlers r.conn).phase.isOpen = true → s.Answered r

/-! ## The invariant -/

/-- Nobody was finalized yet. -/
structure Serving (s : State bso) : Prop where
  routed : Routed s
  allOpen : ∀ d < s.handlerVec, (s.handlers d).phase.isOpen = true
  noNull : none ∉ s.requestDispatcherMQ
  requests : ∀ r, s.Inside r → isShutdown r.mess.qid = false ∧ State.allowed r.mess = true
  loops : ∀ w, s.loop w ≠ .stopped ∧ (w.2 < s.contexts.length → s.loop w ≠ .notStarted)
  running : s.requestDispatcherThread ≠ .stopped
  alive : s.killed = false
  failed : s.failed = none
  accounted : ∀ r ∈ s.asked, s.Inside r ∨ s.Answered r

/-- Everybody was finalized. -/
structure Over (s : State bso) : Prop where
  connected : 0 < s.handlerVec
  closed : ∀ c, (s.handlers c).phase.isOpen = false

variable {s s' : State bso} {c : ℕ} {w : Worker} {r : Request}

lemma Serving.notOrphaned (hs : Serving s) : NotOrphaned s where
  running _ := ⟨hs.failed, hs.running, fun w => (hs.loops w).1⟩
  pending r hr _ := hs.accounted r hr
  answered hquiet r hr _ := by
    have hstep : ∀ a : Action bso, a.ofServer = true → step s a = none := hquiet
    unfold step at hstep
    simp only [hs.failed, Option.isSome_none, Bool.false_eq_true, if_false] at hstep
    refine (hs.accounted r hr).resolve_left ?_
    rintro (hin | ⟨w, hin⟩)
    · have hthread : s.requestDispatcherThread = .running := by
        cases h : s.requestDispatcherThread with
        | notStarted =>
            have hnone : s.createMainThreads = none := hstep .createMainThreads rfl
            unfold State.createMainThreads at hnone
            rw [if_pos h] at hnone
            cases hnone
        | running => rfl
        | stopped => exact absurd h hs.running
      have hnone : s.dispatchRequest = none := hstep .dispatchRequest rfl
      unfold State.dispatchRequest at hnone
      rw [if_neg (by rw [hthread]; exact not_not.2 rfl)] at hnone
      rcases hq : s.requestDispatcherMQ with _ | ⟨_ | x, rest⟩
      · rw [hq] at hin
        cases hin
      · simp [hq] at hnone
      · simp [hq] at hnone
    · have hloop : ∀ r', s.loop w ≠ .processing r' := by
        intro r' hw
        have hnone : s.sendEndMarker w = none := hstep (.sendEndMarker w) rfl
        unfold State.sendEndMarker at hnone
        rw [hw] at hnone
        cases hnone
      rcases hin with hin | hin
      · have hlt := hs.routed.wellFormed.lt_of_queue hin
        have hwaiting : s.loop w = .waiting := by
          cases h : s.loop w with
          | notStarted => exact absurd h ((hs.loops w).2 hlt)
          | waiting => rfl
          | processing r' => exact absurd h (hloop r')
          | stopped => exact absurd h (hs.loops w).1
        have hnone : s.takeRequest w = none := hstep (.takeRequest w) rfl
        unfold State.takeRequest at hnone
        rw [if_neg (by rw [hwaiting]; exact not_not.2 rfl)] at hnone
        rcases hq : s.queue w with _ | ⟨x, rest⟩
        · rw [hq] at hin
          cases hin
        · simp only [hq] at hnone
          split_ifs at hnone
      · exact hloop r hin

lemma Over.notOrphaned (hs : Over s) : NotOrphaned s where
  running := by
    rintro ⟨c, hc⟩
    rw [hs.closed c] at hc
    cases hc
  pending r _ hopen := by
    rw [hs.closed] at hopen
    cases hopen
  answered _ r _ hopen := by
    rw [hs.closed] at hopen
    cases hopen

lemma Serving.init : Serving (State.init : State bso) where
  routed := Routed.init
  allOpen _ hd := nomatch hd
  noNull h := nomatch h
  requests := by
    rintro r (h | ⟨w, h | h⟩)
    · cases h
    · cases h
    · cases h
  loops _ := ⟨Loop.noConfusion, fun h => nomatch h⟩
  running := Thread.noConfusion
  alive := rfl
  failed := rfl
  accounted _ h := nomatch h

/-! ### The steps -/

lemma closed_setPhase (hs : ∀ d, (s.handlers d).phase.isOpen = false) {phase : Phase}
    (hphase : phase.isOpen = false) : ∀ d, ((s.setPhase c phase).handlers d).phase.isOpen = false :=
  forall_setHandler (P := fun _ h => h.phase.isOpen = false) hphase (fun d _ => hs d)

/-- Nobody connects any more. -/
lemma Over.step (hs : Over s) {act : Action bso} (hmeets : s.keepsAlive act = true)
    (h : Outcome s act s') : Over s' := by
  have hnot : ∀ {c : ℕ} {p : Phase}, (s.handlers c).phase = p → p.isOpen = true → False := by
    rintro c p rfl hp
    rw [hs.closed c] at hp
    cases hp
  cases h with
  | createMainThreads => exact ⟨hs.connected, hs.closed⟩
  | startContext => exact ⟨hs.connected, hs.closed⟩
  | contextRefused => exact ⟨hs.connected, hs.closed⟩
  | connect =>
      simp only [State.keepsAlive, List.all_eq_true, List.mem_range] at hmeets
      have hopen := hmeets 0 hs.connected
      rw [hs.closed 0] at hopen
      cases hopen
  | firstMessage hphase => exact (hnot hphase rfl).elim
  | invokerRefused hphase => exact (hnot hphase rfl).elim
  | nextMessage hphase => exact (hnot hphase rfl).elim
  | readHeader last hphase => exact (hnot hphase rfl).elim
  | finalize hphase => exact (hnot hphase rfl).elim
  | sendMess => exact ⟨hs.connected, closed_setPhase hs.closed rfl⟩
  | notify => exact ⟨hs.connected, closed_setPhase hs.closed rfl⟩
  | testShutdown =>
      refine ⟨hs.connected, closed_setPhase hs.closed ?_⟩
      split_ifs
      · rfl
      · rfl
  | shutdown => exact ⟨hs.connected, closed_setPhase hs.closed rfl⟩
  | stopRequests => exact ⟨hs.connected, hs.closed⟩
  | requestRefused => exact ⟨hs.connected, hs.closed⟩
  | forwardShutdown => exact ⟨hs.connected, hs.closed⟩
  | forwardRequest => exact ⟨hs.connected, hs.closed⟩
  | stopLoop => exact ⟨hs.connected, hs.closed⟩
  | takeRequest => exact ⟨hs.connected, hs.closed⟩
  | badRequest => exact ⟨hs.connected, hs.closed⟩
  | sendModel => exact ⟨hs.connected, hs.closed⟩
  | sendEndMarker => exact ⟨hs.connected, hs.closed⟩
  | stopAnswers => exact ⟨hs.connected, hs.closed⟩
  | dispatchAnswer => exact ⟨hs.connected, hs.closed⟩
  | answerRefused => exact ⟨hs.connected, hs.closed⟩
  | @receiveAnswer c =>
      exact ⟨hs.connected, forall_setHandler (P := fun _ h => h.phase.isOpen = false) (hs.closed c)
        (fun d _ => hs.closed d)⟩
  | strangeAnswer => exact ⟨hs.connected, hs.closed⟩
  | interruptRequests => exact ⟨hs.connected, hs.closed⟩
  | interruptAnswers => exact ⟨hs.connected, hs.closed⟩
  | interruptContext => exact ⟨hs.connected, hs.closed⟩
  | @interruptThread c =>
      exact ⟨hs.connected, forall_setHandler (P := fun _ h => h.phase.isOpen = false) (hs.closed c)
        (fun d _ => hs.closed d)⟩

/-- Requests are not lost while they are passed on. -/
lemma Serving.accounted_of (hs : Serving s) (hin : ∀ r, s.Inside r → s'.Inside r ∨ s'.Answered r)
    (hemitted : s.emitted ⊆ s'.emitted) : ∀ r ∈ s.asked, s'.Inside r ∨ s'.Answered r := by
  intro r hr
  rcases hs.accounted r hr with hr | ⟨a, ha, hanswer⟩
  · exact hin r hr
  · exact Or.inr ⟨a, hemitted ha, hanswer⟩

/-- A handler that is not open is not there while all are. -/
lemma Serving.not_closed (hs : Serving s) {p : Phase} (hphase : (s.handlers c).phase = p)
    (hp : p ≠ .unconnected) (hclosed : p.isOpen = false) : False := by
  have hlt := hs.routed.wellFormed.lt_of_phase (c := c) (by rw [hphase]; exact hp)
  have hopen := hs.allOpen c hlt
  rw [hphase, hclosed] at hopen
  cases hopen

lemma allOpen_setHandler (hs : ∀ d < s.handlerVec, (s.handlers d).phase.isOpen = true)
    {h : Handler bso} (hh : h.phase.isOpen = true) :
    ∀ d < s.handlerVec, ((s.setHandler c h).handlers d).phase.isOpen = true :=
  forall_setHandler (P := fun d h => d < s.handlerVec → h.phase.isOpen = true) (fun _ => hh)
    (fun d _ => hs d)

/-- A message that is read. -/
lemma Serving.sendRequest {mess : ForwardMessage} (hs : Serving s)
    (hrouted : Routed (s.sendRequest c mess)) (hmess : isRequest mess.qid = true)
    (hallowed : State.allowed mess = true) : Serving (s.sendRequest c mess) where
  routed := hrouted
  allOpen := allOpen_setHandler hs.allOpen rfl
  noNull hmem := by
    rcases List.mem_append.1 hmem with hmem | hmem
    · exact hs.noNull hmem
    · cases List.mem_singleton.1 hmem
  requests r hr := by
    rcases inside_sendRequest hr with rfl | hr
    · exact ⟨isShutdown_of_isRequest hmess, hallowed⟩
    · exact hs.requests r hr
  loops := hs.loops
  running := hs.running
  alive := hs.alive
  failed := hs.failed
  accounted r hr := by
    rcases List.mem_append.1 hr with hr | hr
    · rcases hs.accounted r hr with (hr | hr) | hr
      · exact Or.inl (Or.inl (List.mem_append_left _ hr))
      · exact Or.inl (Or.inr hr)
      · exact Or.inr hr
    · rw [List.mem_singleton.1 hr]
      exact Or.inl (Or.inl (List.mem_append_right _ (List.mem_singleton_self _)))

/-- All handlers but one are closed, and this one is finalized. -/
lemma Over.finalize (hs : s.WellFormed) {h : Handler bso} (hc : c < s.handlerVec)
    (hother : ∀ d < s.handlerVec, d ≠ c → (s.handlers d).phase.isOpen = false)
    (hh : h.phase.isOpen = false) : Over (s.setHandler c h) := by
  refine ⟨Nat.zero_lt_of_lt hc, forall_setHandler (P := fun _ h => h.phase.isOpen = false) hh ?_⟩
  intro d hd
  rcases Nat.lt_or_ge d s.handlerVec with hlt | hge
  · exact hother d hlt hd
  · rw [hs.uncreated d hge]
    rfl

/-- As long as nobody is finalized, answers are kept apart as well. -/
lemma Serving.keepsApart (hs : Serving s) {act : Action bso} (hmeets : s.keepsAlive act = true)
    (h : Outcome s act s') : s.keepsApart act = true ∨ ∃ c mess, act = .finalize c mess := by
  cases act with
  | readMessage c mess =>
      unfold State.keepsAlive at hmeets
      rw [Bool.and_eq_true] at hmeets
      exact Or.inl hmeets.1
  | dispatchRequest => exact Or.inl hmeets
  | finalize c mess => exact Or.inr ⟨c, mess, rfl⟩
  | continueFinalize c =>
      refine Or.inl ?_
      cases h with
      | sendMess hphase => exact (hs.not_closed hphase Phase.noConfusion rfl).elim
      | notify hphase => exact (hs.not_closed hphase Phase.noConfusion rfl).elim
      | testShutdown hphase => exact (hs.not_closed hphase Phase.noConfusion rfl).elim
      | shutdown hphase => exact (hs.not_closed hphase Phase.noConfusion rfl).elim
  | _ => exact Or.inl rfl

/-- A request goes to the queue of its context. -/
lemma Serving.forward (hs : Serving s) {rest : List (Option Request)}
    (hq : s.requestDispatcherMQ = some r :: rest)
    (hrouted : Routed (State.sendTo { s with requestDispatcherMQ := rest } w r)) :
    Serving (State.sendTo { s with requestDispatcherMQ := rest } w r) where
  routed := hrouted
  allOpen := hs.allOpen
  noNull hmem := by
    apply hs.noNull
    rw [hq]
    exact List.mem_cons_of_mem _ hmem
  requests r' hr' := by
    apply hs.requests r'
    rcases inside_sendTo hr' with rfl | hr'
    · left
      rw [hq]
      exact List.mem_cons_self
    · exact inside_pop hq hr'
  loops := hs.loops
  running := hs.running
  alive := hs.alive
  failed := hs.failed
  accounted := by
    refine hs.accounted_of ?_ (List.Subset.refl _)
    have hself : r ∈ Function.update s.queue w (s.queue w ++ [r]) w := by
      rw [Function.update_self]
      exact List.mem_append_right _ (List.mem_singleton_self r)
    rintro r' (hr' | ⟨v, hr' | hr'⟩)
    · rw [hq] at hr'
      rcases List.mem_cons.1 hr' with hr' | hr'
      · rw [Option.some_inj.1 hr']
        exact Or.inl (Or.inr ⟨w, Or.inl hself⟩)
      · exact Or.inl (Or.inl hr')
    · refine Or.inl (Or.inr ⟨v, Or.inl ?_⟩)
      show r' ∈ Function.update s.queue w (s.queue w ++ [r]) v
      by_cases hv : v = w
      · subst hv
        rw [Function.update_self]
        exact List.mem_append_left _ hr'
      · rwa [Function.update_of_ne hv]
    · exact Or.inl (Or.inr ⟨v, Or.inr hr'⟩)

/-- A loop takes a request. -/
lemma Serving.take (hs : Serving s) {rest : List Request} (hw : s.loop w = .waiting)
    (hq : s.queue w = r :: rest)
    (hrouted : Routed (State.setLoop { s with queue := Function.update s.queue w rest } w
      (.processing r))) :
    Serving (State.setLoop { s with queue := Function.update s.queue w rest } w
      (.processing r)) where
  routed := hrouted
  allOpen := hs.allOpen
  noNull := hs.noNull
  requests r' hr' := by
    apply hs.requests r' (inside_take hq ?_ hr')
    rintro r'' ⟨⟩
    rfl
  loops v := by
    by_cases hv : v = w
    · rw [hv, setLoop_self]
      exact ⟨Loop.noConfusion, fun _ => Loop.noConfusion⟩
    · rw [setLoop_of_ne hv]
      exact hs.loops v
  running := hs.running
  alive := hs.alive
  failed := hs.failed
  accounted := by
    refine hs.accounted_of ?_ (List.Subset.refl _)
    rintro r' (hr' | ⟨v, hr' | hr'⟩)
    · exact Or.inl (Or.inl hr')
    · left
      by_cases hv : v = w
      · subst hv
        rw [hq] at hr'
        rcases List.mem_cons.1 hr' with rfl | hr'
        · exact Or.inr ⟨v, Or.inr setLoop_self⟩
        · refine Or.inr ⟨v, Or.inl ?_⟩
          show r' ∈ Function.update s.queue v rest v
          rwa [Function.update_self]
      · refine Or.inr ⟨v, Or.inl ?_⟩
        show r' ∈ Function.update s.queue w rest v
        rwa [Function.update_of_ne hv]
    · have hv : v ≠ w := by
        rintro rfl
        rw [hw] at hr'
        cases hr'
      exact Or.inl (Or.inr ⟨v, Or.inr ((setLoop_of_ne hv).trans hr')⟩)

/-- A loop sends an answer, and goes on or waits. -/
lemma Serving.emit (hs : Serving s) {bs : Option (NewBeliefState bso.width)} {l : Loop}
    (hw : s.loop w = .processing r) (hl : l = .processing r ∨ (l = .waiting ∧ bs = none))
    (hrouted : Routed ((s.emit r bs).setLoop w l)) : Serving ((s.emit r bs).setLoop w l) where
  routed := hrouted
  allOpen := hs.allOpen
  noNull := hs.noNull
  requests r' hr' := by
    apply hs.requests r'
    rcases hr' with hr' | ⟨v, hr' | hr'⟩
    · exact Or.inl hr'
    · exact Or.inr ⟨v, Or.inl hr'⟩
    · by_cases hv : v = w
      · subst hv
        rw [setLoop_self] at hr'
        rcases hl with hl | ⟨hl, -⟩
        · rw [hl] at hr'
          cases hr'
          exact Or.inr ⟨v, Or.inr hw⟩
        · rw [hl] at hr'
          cases hr'
      · rw [setLoop_of_ne hv] at hr'
        exact Or.inr ⟨v, Or.inr hr'⟩
  loops v := by
    by_cases hv : v = w
    · rw [hv, setLoop_self]
      rcases hl with rfl | ⟨rfl, -⟩
      · exact ⟨Loop.noConfusion, fun _ => Loop.noConfusion⟩
      · exact ⟨Loop.noConfusion, fun _ => Loop.noConfusion⟩
    · rw [setLoop_of_ne hv]
      exact hs.loops v
  running := hs.running
  alive := hs.alive
  failed := hs.failed
  accounted := by
    refine hs.accounted_of ?_ (List.subset_append_left _ _)
    rintro r' (hr' | ⟨v, hr' | hr'⟩)
    · exact Or.inl (Or.inl hr')
    · exact Or.inl (Or.inr ⟨v, Or.inl hr'⟩)
    · by_cases hv : v = w
      · subst hv
        rw [hw] at hr'
        cases hr'
        rcases hl with rfl | ⟨-, rfl⟩
        · exact Or.inl (Or.inr ⟨v, Or.inr setLoop_self⟩)
        · exact Or.inr ⟨_, List.mem_append_right _ (List.mem_singleton_self _), rfl, rfl, rfl⟩
      · exact Or.inl (Or.inr ⟨v, Or.inr ((setLoop_of_ne hv).trans hr')⟩)

lemma inside_of_queue {rest : List Request} (hq : s.queue w = r :: rest) : s.Inside r := by
  refine Or.inr ⟨w, Or.inl ?_⟩
  rw [hq]
  exact List.mem_cons_self

lemma Serving.initMq (hs : Serving s) {invoker : ℕ} (hphase : (s.handlers c).phase = .readMessage)
    (hrouted : Routed s') (h : s.initMq c invoker = some s') : Serving s' := by
  obtain ⟨od, -, rfl⟩ := Option.map_eq_some_iff.1 h
  refine { hs with routed := hrouted, allOpen := allOpen_setHandler hs.allOpen ?_ }
  show (s.handlers c).phase.isOpen = true
  rw [hphase]
  rfl

/-- The last handler is finalized. -/
lemma Serving.finalize (hs : Serving s) {mess : ForwardMessage}
    (hphase : (s.handlers c).phase = .finalize) (hmeets : s.keepsAlive (.finalize c mess) = true) :
    Over ((s.setPhase c (.sendMess mess)).sendOutput (s.handlers c).offset none) := by
  have hc := hs.routed.wellFormed.lt_of_phase (c := c) (by rw [hphase]; exact Phase.noConfusion)
  simp only [State.keepsAlive, List.all_eq_true, List.mem_range, Bool.or_eq_true,
    decide_eq_true_eq, Bool.not_eq_eq_eq_not, Bool.not_true] at hmeets
  have hover := Over.finalize (c := c) (h := { s.handlers c with phase := .sendMess mess })
    hs.routed.wellFormed hc (fun d hd hne => (hmeets d hd).resolve_left hne) rfl
  exact ⟨hover.connected, hover.closed⟩

lemma Serving.step (hs : Serving s) {act : Action bso} (hmeets : s.keepsAlive act = true)
    (hstep : NewServer.step s act = some s') : Serving s' ∨ Over s' := by
  obtain ⟨-, h⟩ := outcome_of_step hstep
  -- Finalizing the last open handler ends this part of the run; every other step goes on with it.
  rcases hs.keepsApart hmeets h with hapart | ⟨c, mess, rfl⟩
  · have hrouted := hs.routed.step hapart hstep
    cases h with
    | createMainThreads =>
        exact Or.inl { hs with routed := hrouted, running := Thread.noConfusion }
    | @startContext ctxId rd =>
        have hinside := fun r => inside_startContext (r := r) hs.routed.wellFormed ctxId rd
        refine Or.inl { hs with
          routed := hrouted
          requests := fun r hr => hs.requests r ((hinside r).1 hr)
          loops := ?_
          accounted :=
            hs.accounted_of (fun r hr => Or.inl ((hinside r).2 hr)) (List.Subset.refl _) }
        intro w
        show (if w.2 = s.contexts.length then Loop.waiting else s.loop w) ≠ .stopped ∧
          (w.2 < (s.contexts ++ [ctxId]).length →
            (if w.2 = s.contexts.length then Loop.waiting else s.loop w) ≠ .notStarted)
        by_cases hw : w.2 = s.contexts.length
        · rw [if_pos hw]
          exact ⟨Loop.noConfusion, fun _ => Loop.noConfusion⟩
        · rw [if_neg hw, List.length_append, List.length_singleton]
          exact ⟨(hs.loops w).1, fun hlt => (hs.loops w).2 (by omega)⟩
    | contextRefused => exact absurd rfl hrouted.asserts.1
    | connect =>
        refine Or.inl { hs with routed := hrouted, allOpen := ?_ }
        intro d hd
        have hall := forall_setHandler (s := s) (c := s.handlerVec)
          (h := { Handler.init with phase := .readMessage })
          (P := fun d h => d < s.handlerVec + 1 → h.phase.isOpen = true) (fun _ => rfl)
        exact hall (fun e he hlt => hs.allOpen e (by omega)) d hd
    | firstMessage hphase hmess hfirst hs₁ =>
        unfold State.keepsAlive at hmeets
        rw [Bool.and_eq_true] at hmeets
        have hrouted₁ :=
          (hs.routed.initMq hphase hfirst (new_of_keepsApart hfirst hmeets.1) hs₁).1
        exact Or.inl ((hs.initMq hphase hrouted₁ hs₁).sendRequest hrouted hmess hmeets.2)
    | invokerRefused => exact absurd rfl hrouted.asserts.1
    | nextMessage hphase hmess =>
        unfold State.keepsAlive at hmeets
        rw [Bool.and_eq_true] at hmeets
        exact Or.inl (hs.sendRequest hrouted hmess hmeets.2)
    | readHeader last hphase =>
        refine Or.inl { hs with routed := hrouted, allOpen := allOpen_setHandler hs.allOpen ?_ }
        cases last with
        | true => rfl
        | false => rfl
    | finalize hphase hmess => exact Or.inr (hs.finalize hphase hmeets)
    | sendMess hphase => exact (hs.not_closed hphase Phase.noConfusion rfl).elim
    | notify hphase => exact (hs.not_closed hphase Phase.noConfusion rfl).elim
    | testShutdown hphase => exact (hs.not_closed hphase Phase.noConfusion rfl).elim
    | shutdown hphase => exact (hs.not_closed hphase Phase.noConfusion rfl).elim
    | stopRequests hthread hq =>
        refine absurd ?_ hs.noNull
        rw [hq]
        exact List.mem_cons_self
    | requestRefused => exact absurd rfl hrouted.asserts.1
    | @forwardShutdown r rest _ hthread hq hoffset hr =>
        have hin : s.Inside r := by
          left
          rw [hq]
          exact List.mem_cons_self
        rw [(hs.requests r hin).1] at hr
        cases hr
    | forwardRequest hthread hq => exact Or.inl (hs.forward hq hrouted)
    | @stopLoop w r rest hw hq hr =>
        rw [(hs.requests r (inside_of_queue hq)).1] at hr
        cases hr
    | takeRequest hw hq => exact Or.inl (hs.take hw hq hrouted)
    | @badRequest w r rest hq hr hbad =>
        have hfresh : s.fresh w r.mess = true := by
          apply hs.routed.wellFormed.queued w r ?_ hr
          rw [hq]
          exact List.mem_cons_self
        rw [(hs.requests r (inside_of_queue hq)).2, hfresh] at hbad
        cases hbad
    | @sendModel w r bs hw =>
        rw [emit_eq_setLoop hw] at hrouted ⊢
        exact Or.inl (hs.emit hw (Or.inl rfl) hrouted)
    | sendEndMarker hw => exact Or.inl (hs.emit hw (Or.inr ⟨rfl, rfl⟩) hrouted)
    | stopAnswers => exact Or.inl { hs with routed := hrouted }
    | dispatchAnswer => exact Or.inl { hs with routed := hrouted }
    | answerRefused => exact absurd rfl hrouted.asserts.1
    | @receiveAnswer c res rest t hfirst =>
        have hopen := hs.allOpen c (hs.routed.wellFormed.lt_of_firstRound hfirst)
        exact Or.inl { hs with
          routed := hrouted
          allOpen := allOpen_setHandler hs.allOpen hopen }
    | strangeAnswer => exact absurd rfl hrouted.asserts.2
    | interruptRequests hkilled =>
        rw [hs.alive] at hkilled
        cases hkilled
    | interruptAnswers hkilled =>
        rw [hs.alive] at hkilled
        cases hkilled
    | interruptContext hkilled =>
        rw [hs.alive] at hkilled
        cases hkilled
    | interruptThread hphase => exact (hs.not_closed hphase Phase.noConfusion rfl).elim
  · cases h with
    | finalize hphase => exact Or.inr (hs.finalize hphase hmeets)

/-! ## Runs -/

/-- In every run whose steps meet the condition, no request is orphaned.  While the server
serves, every request is accounted for; after that no connection is open. -/
theorem notOrphaned_of_keepsAlive {s : State bso} (h : Reached State.keepsAlive s) :
    NotOrphaned s := by
  have hinv : Serving s ∨ Over s := by
    refine TransitionSystem.invariant_of_step (I := fun t => Serving t ∨ Over t)
      (Or.inl Serving.init) ?_ h
    rintro t t' (ht | ht) ⟨act, hmeets, hstep⟩
    · exact ht.step hmeets hstep
    · exact Or.inr (ht.step hmeets (outcome_of_step hstep).2)
  rcases hinv with hs | hs
  · exact hs.notOrphaned
  · exact hs.notOrphaned

/-- Two invokers ask at the same time, and the second is answered first. -/
def twoInvokers : List (Action NewOutputThread.oneBlock) :=
  [.createMainThreads, .startContext 5, .connect, .connect, .readMessage 0 clientRequest,
    .readMessage 1 neighborRequest, .dispatchRequest, .dispatchRequest,
    .takeRequest (.normalContext, 0), .sendEndMarker (.normalContext, 0),
    .takeRequest (.normalContext, 0), .sendEndMarker (.normalContext, 0)]

/-- Neither of the two requests is orphaned. -/
theorem notOrphaned_twoInvokers : ∃ s : State NewOutputThread.oneBlock,
    Reached State.keepsAlive s ∧ s.asked.length = 2 ∧ NotOrphaned s := by
  have hrun : ((twoInvokers.foldlM (guarded State.keepsAlive) State.init).map
      fun s => s.asked.length) = some 2 := by decide +kernel
  obtain ⟨s, hs, hlength⟩ := Option.map_eq_some_iff.1 hrun
  have hreached := reached_of_foldlM hs
  exact ⟨s, hreached, hlength, notOrphaned_of_keepsAlive hreached⟩

/-- The first of them terminates. -/
def oneTerminates : List (Action NewOutputThread.oneBlock) :=
  twoInvokers ++ [.readHeader 0 true, .finalize 0 ⟨shutdownQueryId 1023 5, ∅, 0, 0⟩,
    .continueFinalize 0, .dispatchRequest, .takeRequest (.normalContext, 0)]

/-- The first invoker terminates, and the loop of the context stops while the second one is still
connected. -/
theorem otherInvoker_orphaned : ¬ ∀ s : State NewOutputThread.oneBlock,
    Reached (fun _ _ => true) s → NotOrphaned s := by
  intro hall
  have hrun : ((oneTerminates.foldlM (guarded (fun _ _ => true)) State.init).map
      fun s => ((s.handlers 1).phase.isOpen, s.loop (.normalContext, 0))) =
        some (true, .stopped) := by decide +kernel
  obtain ⟨s, hs, hend⟩ := Option.map_eq_some_iff.1 hrun
  rw [Prod.mk.injEq] at hend
  exact ((hall s (reached_of_foldlM hs)).running ⟨1, hend.1⟩).2.2 _ hend.2

end NewServer

end Dmcs
