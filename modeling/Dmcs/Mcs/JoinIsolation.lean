import Dmcs.Lib.TransitionSystem
import Dmcs.Mcs.PackSizes

/-!
# Query isolation of the joiner (`NormalContext::process_request`)

`process_request` calls `first_join` once and then `next_join` as long as it wants more input, each
time with a new query id.  All answers come through one queue, so an answer that is left unread
when a call returns is met by a later call.  `next_join` reads everything it asks for; `first_join`
does not: when the end marker of a neighbour without states arrives, `ask_first_packs` returns at
once, and what the other neighbours have sent or will send stays behind (`run_leftover`).

`run_isolated` is about the runs in which, at every `first_join`, the end marker of a neighbour
without states is the last message to arrive, in which the query counter fits its field, and in
which there are fewer than 64 neighbours: `ask_first_packs` does not wait for 64, and returns with
all their answers unread (`askFirstPacks_all64`).

## The invariant

The network of the joiner is settled between two calls as long as every call reads all it has asked
for.  `Inv` says that it is, and that the joiner is in its loop while a request is processed.  For
`first_join` this needs `InOrder`: then the end marker at which it stops is the last message, and
everything else was read before.  `next_join` reads all it asks for; the only assertion that can
fail in it is the one on first packs that were there before (`Safe`).

`Isolated` is about every state of a run, with any interleaving of the answers.
-/

namespace Dmcs

open Odometer Paging QueryID StreamingJoiner

variable {bso : BeliefStateOffset}

namespace JoinIsolation

/-- A context with its joiner; its id fits the field of a query id. -/
structure Context where
  ctxId : ℕ
  ctxId_lt : ctxId < 2 ^ 10
  joiner : JoinerConfig

/-- The thread of a context.  `processing` holds, inside `process_request`, the history of the
request and the input at hand; `fault` is set when a call of the joiner fails. -/
structure State (bso : BeliefStateOffset) where
  joiner : StreamingJoiner.State bso
  queryCounter : ℕ
  processing : Option (Finset ℕ × NewBeliefState bso.width)
  fault : Option Fault

/-- A new context. -/
def State.init (c : Context) : State bso := ⟨StreamingJoiner.State.init c.joiner, 0, none, none⟩

/-- What the thread does next: begin with a request, ask for the next input after `process_input`
was not satisfied with this one, or leave the loop because it was. -/
inductive Action
  | request (history : Finset ℕ) (fuel : ℕ)
  | next (fuel : ℕ)
  | stop

/-- The id of the next call: `query_id(ctx_id, ++query_counter)`. -/
def State.nextQid (c : Context) (s : State bso) : Qid := queryId c.ctxId (s.queryCounter + 1)

/-- A call of the joiner comes back.  A `NULL` ends the request; a call whose loop is given up has
not come back. -/
def State.returned (s : State bso) (history : Finset ℕ) :
    Except Fault (ReturnedBeliefState bso × StreamingJoiner.State bso) → Option (State bso)
  | .error .fuel => none
  | .error f => some { s with queryCounter := s.queryCounter + 1, fault := some f }
  | .ok (rbs, joiner) => some
      { s with
        joiner := joiner
        queryCounter := s.queryCounter + 1
        processing := rbs.beliefState.map (fun bs => (history, bs)) }

/-- One step of the thread. -/
def step (c : Context) (env : Environment bso) (s : State bso) : Action → Option (State bso)
  | .request history fuel =>
      if s.fault.isSome || s.processing.isSome then none
      else s.returned history (firstJoin c.joiner env history (s.nextQid c) fuel s.joiner)
  | .next fuel =>
      match s.fault, s.processing with
      | none, some (history, _) =>
          s.returned history (nextJoin c.joiner env history (s.nextQid c) fuel s.joiner)
      | _, _ => none
  | .stop =>
      match s.fault, s.processing with
      | none, some _ => some { s with processing := none }
      | _, _ => none

/-- No answer is unread or on the way, every end marker so far answered the query of the call that
read it, and no comparison of ids has failed; all that can fail is the assertion of `next_join` that
a first pack which was there before is still there. -/
structure Isolated (s : State bso) : Prop where
  settled : s.joiner.net.Settled
  fault : s.fault = none ∨ s.fault = some .firstPacks

/-- A call that asks neighbours has a query counter that fits its field and, at a `first_join`,
there are fewer than 64 of them and the end marker of a neighbour without states arrives last. -/
def InOrder (c : Context) (env : Environment bso) (s : State bso) : Action → Prop
  | .request history _ =>
      s.queryCounter + 1 < 2 ^ 24 ∧ c.joiner.neighbors.length < 64 ∧
        MarkersLast c.joiner (s.nextQid c) 0
          (packAnswers c.joiner env history (s.nextQid c) 0 c.joiner.neighbors.length
            s.joiner.net.clock)
          (packArrivals c.joiner env history (s.nextQid c) 0 c.joiner.neighbors.length
            s.joiner.net.clock)
  | .next _ =>
      s.joiner.joinedResults = [] → c.joiner.packSize ≠ 0 → s.queryCounter + 1 < 2 ^ 24
  | .stop => True

/-! ## What the calls preserve -/

variable {J : JoinerConfig} {env : Environment bso} {history : Finset ℕ} {qid : Qid}

/-- A settled joiner in the loop of `next_join`: the packs from `next_neighbor` on are at hand. -/
structure Open (J : JoinerConfig) (s : StreamingJoiner.State bso) : Prop where
  net : s.net.Settled
  length : s.inputBeliefStates.length = J.neighbors.length
  nextNeighbor : s.nextNeighbor ≤ J.neighbors.length
  askingNext : s.askingNext = decide (0 < s.nextNeighbor)
  later : ∀ i, s.nextNeighbor ≤ i → s.inputBeliefStates[i]? ≠ some []

variable (qid) in
lemma joinAndReturn_ok {s : StreamingJoiner.State bso} (hnet : s.net.Settled)
    (hlen : s.inputBeliefStates.length = J.neighbors.length)
    (hne : ∀ p ∈ s.inputBeliefStates, p ≠ []) :
    ∃ rbs s', joinAndReturn qid s = .ok (rbs, s') ∧ Open J s' := by
  have hopen : ∀ (results : List (ReturnedBeliefState bso)) tried, Open J
      { s with
        nextNeighbor := 0
        askingNext := false
        joinedResults := results
        tried := tried } :=
    fun _ _ => ⟨hnet, hlen, Nat.zero_le _, rfl, fun i _ hi => hne [] (List.mem_of_getElem? hi) rfl⟩
  rw [joinAndReturn, joinPacks, doJoin_eq hne]
  cases (product s.inputBeliefStates).filterMap joinOne with
  | nil => exact ⟨none, _, rfl, hopen _ _⟩
  | cons bs results =>
      cases s.joinedResults with
      | nil => exact ⟨some _, _, rfl, hopen _ _⟩
      | cons rbs rest => exact ⟨some _, _, rfl, hopen _ _⟩

/-- A call has returned: the joiner is settled, and in the loop unless it returned `NULL`. -/
structure Returned (J : JoinerConfig) (rbs : ReturnedBeliefState bso)
    (s : StreamingJoiner.State bso) : Prop where
  net : s.net.Settled
  length : s.inputBeliefStates.length = J.neighbors.length
  isOpen : rbs.beliefState ≠ none → Open J s

/-- What a round or a call of a settled joiner can come to. -/
def Safe (J : JoinerConfig) :
    Except Fault (Option (ReturnedBeliefState bso) × StreamingJoiner.State bso) → Prop
  | .error f => f = .firstPacks
  | .ok (none, s) => Open J s
  | .ok (some rbs, s) => Returned J rbs s

lemma Open.returned {s : StreamingJoiner.State bso} (h : Open J s) (rbs : ReturnedBeliefState bso) :
    Returned J rbs s :=
  ⟨h.net, h.length, fun _ => h⟩

variable (qid) in
lemma safe_joinAndReturn {s : StreamingJoiner.State bso} (hnet : s.net.Settled)
    (hlen : s.inputBeliefStates.length = J.neighbors.length)
    (hne : ∀ p ∈ s.inputBeliefStates, p ≠ []) : Safe J (joinAndReturn qid s) := by
  obtain ⟨rbs, s', hjoin, hopen⟩ := joinAndReturn_ok qid hnet hlen hne
  rw [hjoin]
  cases rbs with
  | none => exact hopen
  | some rbs => exact hopen.returned rbs

variable (env history) in
/-- The neighbours in front of `next_neighbor` are asked again: afterwards all packs are at hand, or
the assertion on first packs fails. -/
lemma askEarlier_cases (h64 : J.neighbors.length < 64) (hq : Plain qid)
    {s : StreamingJoiner.State bso} (h : Open J s) :
    askEarlier J env history qid s = .error .firstPacks ∨
      ∃ s', askEarlier J env history qid s = .ok s' ∧ s'.net.Settled ∧
        s'.inputBeliefStates.length = J.neighbors.length ∧ ∀ p ∈ s'.inputBeliefStates, p ≠ [] := by
  have hlater : ∀ p ∈ s.inputBeliefStates.drop s.nextNeighbor, p ≠ [] := by
    rintro p hp rfl
    obtain ⟨i, hi⟩ := List.getElem?_of_mem hp
    rw [List.getElem?_drop] at hi
    exact h.later _ (by omega) hi
  by_cases hzero : s.nextNeighbor = 0
  · right
    refine ⟨s, ?_, h.net, h.length, ?_⟩
    · rw [askEarlier, if_neg (by simp [h.askingNext, hzero])]
    · simpa [hzero] using hlater
  · have hle := h.nextNeighbor
    obtain ⟨result, s', hask, hrec⟩ := askFirstPacks_received env history hq h64.le
      (Nat.zero_le (s.nextNeighbor - 1)) (by omega) (by omega) h.net h.length
    have hlast : s.nextNeighbor - 1 - 0 + 1 = s.nextNeighbor := by omega
    rw [hlast] at hrec
    have hasking : s.askingNext = true := by
      rw [h.askingNext]
      simp
      omega
    rw [askEarlier, if_pos hasking, if_neg hzero, hask]
    cases result with
    | false => exact Or.inl rfl
    | true =>
        right
        refine ⟨_, rfl, hrec.settled h.net, hrec.length.trans h.length, ?_⟩
        simp only [hrec.inputs_eq, length_packAnswers]
        intro p hp
        rcases List.mem_append.mp hp with hp | hp
        · exact hrec.result_iff.mp rfl p hp
        · exact hlater p hp

variable (env history) in
lemma safe_nextRound (h64 : J.neighbors.length < 64) (hq : Plain qid)
    {s : StreamingJoiner.State bso} (h : Open J s) : Safe J (nextRound J env history qid s) := by
  by_cases hlast : s.nextNeighbor = J.neighbors.length
  · rw [nextRound, if_pos hlast]
    exact ⟨h.net, by simp [StreamingJoiner.State.reset, h.length], fun hne => absurd rfl hne⟩
  · rw [nextRound, if_neg hlast]
    have hle := h.nextNeighbor
    obtain ⟨net, hnet, hask⟩ := askNeighborAndReceive_eq env history hq
      (by omega : s.nextNeighbor < J.neighbors.length)
      (packRange J.packSize ((s.packCount.getD s.nextNeighbor 0 + 1) % 2 ^ 64)).1
      (packRange J.packSize ((s.packCount.getD s.nextNeighbor 0 + 1) % 2 ^ 64)).2
      (s := { s with
        packCount := s.packCount.set s.nextNeighbor
          ((s.packCount.getD s.nextNeighbor 0 + 1) % 2 ^ 64) })
      h.net
    simp only [hask]
    generalize answerOf J env history qid _ _ _ _ = models
    cases models with
    | nil =>
        refine ⟨hnet, by simpa using h.length, by simp only; omega, by simp, fun i hi => ?_⟩
        simp only at hi
        rw [List.getElem?_set_ne (by omega)]
        exact h.later i (by omega)
    | cons bs models =>
        have hopen : Open J { s with
            packCount := s.packCount.set s.nextNeighbor
              ((s.packCount.getD s.nextNeighbor 0 + 1) % 2 ^ 64)
            inputBeliefStates := s.inputBeliefStates.set s.nextNeighbor (bs :: models)
            net := net } := by
          refine ⟨hnet, by simpa using h.length, h.nextNeighbor, h.askingNext, fun i hi => ?_⟩
          simp only [List.getElem?_set]
          by_cases hi' : s.nextNeighbor = i
          · rw [if_pos hi']
            split <;> simp
          · rw [if_neg hi']
            exact h.later i hi
        rcases askEarlier_cases env history h64 hq hopen with
          herr | ⟨s', hok, hnet', hlen', hne'⟩
        · simp only [List.isEmpty_cons, Bool.not_false, herr]
          exact rfl
        · simp only [List.isEmpty_cons, Bool.not_false, hok]
          exact safe_joinAndReturn qid hnet' hlen' hne'

/-- What a call can come to, unless its loop is given up. -/
def SafeCall (J : JoinerConfig) :
    Except Fault (ReturnedBeliefState bso × StreamingJoiner.State bso) → Prop
  | .error f => f = .firstPacks ∨ f = .fuel
  | .ok (rbs, s) => Returned J rbs s

lemma safe_nextLoop (h64 : J.neighbors.length < 64) (hq : Plain qid) (fuel : ℕ) :
    ∀ {s : StreamingJoiner.State bso}, Open J s →
      SafeCall J (nextLoop J env history qid fuel s) := by
  induction fuel with
  | zero => exact fun _ => Or.inr rfl
  | succ fuel ih =>
      intro s h
      have hround := safe_nextRound env history h64 hq h
      rw [nextLoop]
      cases hr : nextRound J env history qid s with
      | error f =>
          rw [hr] at hround
          exact Or.inl hround
      | ok r =>
          obtain ⟨rbs, s'⟩ := r
          rw [hr] at hround
          cases rbs with
          | none => exact ih hround
          | some rbs => exact hround

lemma safe_nextJoin (h64 : J.neighbors.length < 64) (fuel : ℕ) {s : StreamingJoiner.State bso}
    (h : Open J s) (hq : s.joinedResults = [] → J.packSize ≠ 0 → Plain qid) :
    SafeCall J (nextJoin J env history qid fuel s) := by
  rw [nextJoin]
  cases hres : s.joinedResults with
  | cons rbs rest =>
      have hopen : Open J { s with joinedResults := rest } :=
        ⟨h.net, h.length, h.nextNeighbor, h.askingNext, h.later⟩
      exact hopen.returned rbs
  | nil =>
      simp only
      split
      · exact h.returned _
      · rename_i hp
        exact safe_nextLoop h64 (hq hres hp) fuel h

/-- The end marker of a neighbour without states must arrive last. -/
lemma safe_firstJoin (h64 : J.neighbors.length < 64) (hq : Plain qid) (fuel : ℕ)
    {s : StreamingJoiner.State bso} (hnet : s.net.Settled)
    (hlen : s.inputBeliefStates.length = J.neighbors.length)
    (hlast : MarkersLast J qid 0 (packAnswers J env history qid 0 J.neighbors.length s.net.clock)
      (packArrivals J env history qid 0 J.neighbors.length s.net.clock)) :
    SafeCall J (firstJoin J env history qid fuel s) := by
  obtain ⟨result, s', hask, ⟨_, hrec⟩, htrue⟩ := askFirstPacks_all env history hq h64 hnet hlen
  rw [firstJoin, hask]
  cases result with
  | false =>
      have hsettled : s'.net.Settled :=
        ⟨hrec.joinIn (Or.inr hlast), hrec.pending.trans hnet.pending, hrec.conclusions⟩
      refine ⟨hsettled, ?_, fun hne => absurd rfl hne⟩
      have hlen' := hrec.length
      simp only [StreamingJoiner.State.reset, List.length_map] at hlen' ⊢
      rw [hlen', hlen]
  | true =>
      obtain ⟨hs', hsettled⟩ := htrue rfl
      have hin : s'.inputBeliefStates =
          packAnswers J env history qid 0 J.neighbors.length s.net.clock := by rw [hs']
      have hjoin := safe_joinAndReturn (J := J) qid hsettled
        (by rw [hin, length_packAnswers])
        (by rw [hin]; exact hrec.result_iff.mp rfl)
      simp only
      cases hr : joinAndReturn qid s' with
      | error f =>
          rw [hr] at hjoin
          exact Or.inl hjoin
      | ok r =>
          obtain ⟨rbs, s''⟩ := r
          rw [hr] at hjoin
          cases rbs with
          | some rbs => exact hjoin
          | none =>
              simp only
              split
              · exact safe_nextJoin h64 fuel hjoin (fun _ _ => hq)
              · exact Open.returned hjoin _

/-! ## Runs -/

variable {c : Context}

/-- The invariant: the context is isolated, and its joiner is in the loop while a request is being
processed. -/
structure Inv (c : Context) (s : State bso) : Prop where
  isolated : Isolated s
  length : s.joiner.inputBeliefStates.length = c.joiner.neighbors.length
  isOpen : s.processing ≠ none → c.joiner.neighbors.length < 64 ∧ Open c.joiner s.joiner

lemma inv_init (c : Context) : Inv c (State.init c : State bso) :=
  ⟨⟨(idle_init c.joiner).net, Or.inl rfl⟩, (idle_init c.joiner).inputs, fun h => absurd rfl h⟩

lemma Inv.returned {s s' : State bso} (h : Inv c s)
    {r : Except Fault (ReturnedBeliefState bso × StreamingJoiner.State bso)}
    (h64 : c.joiner.neighbors.length < 64) (hsafe : SafeCall c.joiner r) (hfault : s.fault = none)
    (hr : s.returned history r = some s') : Inv c s' := by
  cases r with
  | error f =>
      rcases hsafe with rfl | rfl
      · cases hr
        exact ⟨⟨h.isolated.settled, Or.inr rfl⟩, h.length, h.isOpen⟩
      · cases hr
  | ok r =>
      obtain ⟨rbs, joiner⟩ := r
      cases hr
      refine ⟨⟨hsafe.net, Or.inl hfault⟩, hsafe.length, fun hp => ⟨h64, hsafe.isOpen ?_⟩⟩
      intro hnone
      simp [hnone] at hp

lemma Inv.step {s s' : State bso} {a : Action} (h : Inv c s) (hin : InOrder c env s a)
    (hstep : step c env s a = some s') : Inv c s' := by
  cases a with
  | request history fuel =>
      rw [JoinIsolation.step] at hstep
      split at hstep
      · cases hstep
      · rename_i hidle
        have hfault : s.fault = none := by
          cases hf : s.fault <;> simp_all
        have hq : Plain (s.nextQid c) := plain_queryId c.ctxId_lt hin.1
        exact h.returned hin.2.1
          (safe_firstJoin hin.2.1 hq fuel h.isolated.settled h.length hin.2.2) hfault hstep
  | next fuel =>
      rw [JoinIsolation.step] at hstep
      split at hstep
      · rename_i history input hfault hprocessing
        obtain ⟨h64, hopen⟩ := h.isOpen (by simp [hprocessing])
        exact h.returned h64 (safe_nextJoin h64 fuel hopen
          (fun hres hp => plain_queryId c.ctxId_lt (hin hres hp))) hfault hstep
      · cases hstep
  | stop =>
      rw [JoinIsolation.step] at hstep
      split at hstep
      · cases hstep
        exact ⟨⟨h.isolated.settled, h.isolated.fault⟩, h.length, fun hp => absurd rfl hp⟩
      · cases hstep

/-- In every run whose steps are in order, the calls of the joiner are isolated from each other:
when a call has returned nothing is unread or on the way, the assertion on query ids never fails,
and every end marker is read by the call that asked for it.  One call starts and ends with
everything read, by the specification of each of the functions that ask; so the calls do not see
each other. -/
theorem run_isolated (c : Context) (env : Environment bso) (s : State bso)
    (hrun : Relation.ReflTransGen
      (fun s s' => ∃ a, InOrder c env s a ∧ step c env s a = some s') (State.init c) s) :
    Isolated s :=
  (TransitionSystem.invariant_of_step (I := Inv c) (inv_init c)
    (fun _ _ h ⟨_, hin, hstep⟩ => h.step hin hstep) hrun).isolated

/-! ## An answer left behind -/

/-- Context `0` with two neighbours. -/
def twoNeighborContext : Context := ⟨0, by norm_num, twoNeighbors⟩

/-- The first neighbour has no state, the second has one; the answers arrive in the order of the
neighbours. -/
def oneInconsistent : Environment twoBlocks :=
  listEnvironment twoNeighbors [[], [NewBeliefState.empty _]]

/-- Two requests, the second after the first has been answered. -/
def twoRequests : List Action := [.request ∅ 1, .request ∅ 1]

/-- The first `first_join` returns at the end marker of the first neighbour and leaves the answer of
the second unread; the second `first_join` fails on it. -/
theorem run_leftover :
    ¬ ∀ s : State twoBlocks, Relation.ReflTransGen
        (fun s s' => ∃ a, step twoNeighborContext oneInconsistent s a = some s')
        (State.init twoNeighborContext) s → Isolated s := by
  intro h
  have hfault : (twoRequests.foldlM (step twoNeighborContext oneInconsistent)
      (State.init twoNeighborContext)).map State.fault = some (some .strippedQid) := by
    decide +kernel
  obtain ⟨s, hs, hstripped⟩ := Option.map_eq_some_iff.mp hfault
  have hisolated := h s (TransitionSystem.reflTransGen_of_foldlM hs)
  rcases hisolated.fault with hnone | hfirst
  · rw [hnone] at hstripped
    cases hstripped
  · rw [hfirst] at hstripped
    cases hstripped

/-- Both neighbours have a state. -/
def bothConsistent : Environment twoBlocks :=
  listEnvironment twoNeighbors [[NewBeliefState.empty _], [NewBeliefState.empty _]]

/-- A request whose neighbours are consistent is in order. -/
theorem run_isolated_consistent :
    ∃ s : State twoBlocks,
      step twoNeighborContext bothConsistent (State.init twoNeighborContext) (.request ∅ 1) =
        some s ∧ s.processing.isSome = true ∧ Isolated s := by
  have hsome : ((step twoNeighborContext bothConsistent (State.init twoNeighborContext)
      (.request ∅ 1)).map (fun s => s.processing.isSome)) = some true := by
    decide +kernel
  obtain ⟨s, hs, hprocessing⟩ := Option.map_eq_some_iff.mp hsome
  have hnone : [] ∉ packAnswers twoNeighbors bothConsistent ∅ (queryId 0 1) 0 2 0 := by
    decide +kernel
  have hin : InOrder twoNeighborContext bothConsistent (State.init twoNeighborContext)
      (.request ∅ 1) :=
    ⟨by decide, by decide, fun i pre post hi => absurd (List.mem_of_getElem? hi) hnone⟩
  exact ⟨s, hs, hprocessing, run_isolated twoNeighborContext bothConsistent s
    (Relation.ReflTransGen.single ⟨_, hin, hs⟩)⟩

end JoinIsolation

end Dmcs
