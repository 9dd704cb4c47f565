import Dmcs.Lib.Service
import Dmcs.Mcs.NewContext

/-!
# The cycle breaker of a context (`CycleBreaker`)

A request that reaches a context already in its history is answered by guessing the whole input
signature: `startup` runs `compute` on one guess after the other.  The context keeps its
`CachePosition` across requests and resumes at the step `find_position` gives.

`serve_eq` reduces a request to `pageInputs` on the list of model lists, one for each guess.  The
answer does depend on earlier requests: `find_position` skips steps, but the requested range is not
shifted by the models of the skipped steps, step `0` is never recorded, and a step may have to be
recorded out of order.  `ServesInPlace` is the exact condition on a request and the cache before it;
it also leaves out the ranges that the assertion of `startup` refuses.

## Runs

A run is a list of requests served by `Service.run`, with the cache as the state between them.  The
condition is lifted along the run by `Service.Along`: each request has to meet it with the cache
that the requests before it have left.  `startup_answers_pages` is then an equivalence for whole
runs.  One direction is the rule `run_of_along`; for the other `along_of_run` needs that a good
answer forces the condition, which holds as long as no two models of a request are equal after the
projection.

`fourGuesses` has two guessed beliefs and so four guesses; the two requests of
`startup_repeated_request` are the same, and the second is answered differently.
-/

namespace Dmcs

open Paging NewContext

variable {bso : BeliefStateOffset}

/-- A cycle breaker: a context with the ground input signatures of its query plans, by neighbour
id. -/
structure CycleBreaker (bso : BeliefStateOffset) extends NewContext bso where
  queryPlan : List (ℕ × List ℕ)

namespace CycleBreaker

/-- `total_guessing_input` and `starting_guess` as `init` builds them. -/
def guesses (cb : CycleBreaker bso) : GuessSpace bso := GuessSpace.ofPlan bso cb.queryPlan

/-- A request: from a parent with an interface, for an admissible range of `size_t` numbers. -/
structure Request (cb : CycleBreaker bso) where
  parent : ℕ
  k1 : ℕ
  k2 : ℕ
  interface : NewBeliefState bso.width
  known : cb.returnPlan parent = some interface
  admissible : Admissible k1 k2
  k2_lt : k2 < 2 ^ 64

/-- One round of `startup`: the messages put on the output queue, `none` the end marker, and the
cache for the next request; or a failed assertion.  The loop tries at most `2 ^ m` guesses. -/
def serve (cb : CycleBreaker bso) (cache : CachePosition) (req : cb.Request) :
    Option (List (Option (NewBeliefState bso.width)) × CachePosition) :=
  if GoodRequest req.k1 req.k2 then
    let step := cache.findPosition req.k1
    (cb.guessLoop cb.guesses id req.parent (2 ^ cb.guesses.noGuessed)
      (firstGuess cb.guesses step) step req.k1 req.k2 cache).map
        (fun r => (r.sent.map some ++ [none], r.cache))
  else none

/-- The evaluator models for the guess of a step. -/
def guessModels (cb : CycleBreaker bso) (step : ℕ) : List (NewBeliefState bso.width) :=
  DLVEvaluator.evaluatorModels cb.solver cb.ctxId cb.bridgeRules (cb.guesses.guessAt step)

/-- The model lists of all guesses, in order. -/
def modelLists (cb : CycleBreaker bso) : List (List (NewBeliefState bso.width)) :=
  (List.range (2 ^ cb.guesses.noGuessed)).map cb.guessModels

/-- The right answer to a request: its page of the concatenated models, projected to the interface
of the parent, and the end marker. -/
def Answered (cb : CycleBreaker bso) (req : cb.Request)
    (messages : List (Option (NewBeliefState bso.width))) : Prop :=
  messages = (page req.k1 req.k2 cb.modelLists.flatten).map
    (fun bs => some (bs.inter req.interface)) ++ [none]

/-- The range does not end at the largest `size_t`, and resuming at the cached position is right for
the request: the steps it skips have no model (or the request lies beyond all models), and the steps
it tries are recorded without a gap. -/
def ServesInPlace (cb : CycleBreaker bso) (cache : CachePosition) (req : cb.Request) : Prop :=
  req.k2 + 1 < 2 ^ 64 ∧
    InPlace cache (cache.findPosition req.k1) (cb.modelLists.map List.length) 0 req.k1 req.k2

/-! ## The loop over guesses is the loop over model lists -/

section Refinement

variable (cb : CycleBreaker bso)

/-- The models as sent to one parent. -/
def projected (interface : NewBeliefState bso.width) : List (List (NewBeliefState bso.width)) :=
  cb.guessAnswers cb.guesses id interface

lemma projected_eq (interface : NewBeliefState bso.width) :
    cb.projected interface =
      cb.modelLists.map (fun M => M.map (fun bs => bs.inter interface)) := by
  rw [modelLists, List.map_map]
  rfl

lemma projected_flatten (interface : NewBeliefState bso.width) :
    (cb.projected interface).flatten =
      cb.modelLists.flatten.map (fun bs => bs.inter interface) := by
  rw [projected_eq, List.map_flatten]

lemma projected_length (interface : NewBeliefState bso.width) :
    (cb.projected interface).map List.length = cb.modelLists.map List.length := by
  rw [projected_eq, List.map_map]
  exact List.map_congr_left (fun M _ => by simp)

lemma length_projected (interface : NewBeliefState bso.width) :
    (cb.projected interface).length = 2 ^ cb.guesses.noGuessed :=
  cb.length_guessAnswers _ _ _

/-- A range up to the largest `size_t` is refused. -/
lemma bound_of_serve {cache : CachePosition} {req : cb.Request}
    {o : List (Option (NewBeliefState bso.width)) × CachePosition}
    (h : cb.serve cache req = some o) : req.k2 + 1 < 2 ^ 64 := by
  rw [serve] at h
  split at h
  · exact (goodRequest_iff req.admissible req.k2_lt).mp ‹_›
  · cases h

/-- A round of `startup` serves the range from the model lists, as its only input. -/
theorem serve_eq (cache : CachePosition) (hc : cache.mark.length < 2 ^ cb.guesses.noGuessed)
    (req : cb.Request) (hk2 : req.k2 + 1 < 2 ^ 64) :
    cb.serve cache req =
      (pageInputs [(true, cb.projected req.interface)] req.k1 req.k2 cache).map
        (fun o => (o.1.map some ++ [none], o.2)) := by
  rw [serve, if_pos ((goodRequest_iff req.admissible req.k2_lt).mpr hk2)]
  simp only
  rw [firstGuess_eq _ (lt_of_le_of_lt (cache.findPosition_le req.k1) hc),
    cb.guessLoop_eq_pageFrom _ _ req.known req.admissible hc, pageInputs_singleton, Option.map_map]
  rfl

end Refinement

/-! ## Whole runs -/

section Runs

variable (cb : CycleBreaker bso)

lemma answered_iff (req : cb.Request) (sent : List (NewBeliefState bso.width)) :
    cb.Answered req (sent.map some ++ [none]) ↔
      sent = page req.k1 req.k2 (cb.projected req.interface).flatten := by
  have hmap : (page req.k1 req.k2 cb.modelLists.flatten).map
      (fun bs => some (bs.inter req.interface)) =
      (page req.k1 req.k2 (cb.projected req.interface).flatten).map some := by
    rw [projected_flatten, page_map, List.map_map]
    rfl
  rw [Answered, hmap, List.append_left_inj]
  exact (List.map_injective_iff.mpr (Option.some_injective _)).eq_iff

lemma servesInPlace_iff (cache : CachePosition) (req : cb.Request) :
    cb.ServesInPlace cache req ↔ req.k2 + 1 < 2 ^ 64 ∧
      AllInPlace [(true, cb.projected req.interface)] req.k1 req.k2 cache := by
  simp only [AllInPlace, ServesInPlace, cb.projected_length, inputsModels_nil, List.length_nil,
    startStep, if_true, implies_true, and_true]

/-- The cache of a cycle breaker never records a step beyond the last guess. -/
lemma serve_recorded {cache cache' : CachePosition}
    (hc : cache.mark.length < 2 ^ cb.guesses.noGuessed) {req : cb.Request}
    {messages : List (Option (NewBeliefState bso.width))}
    (h : cb.serve cache req = some (messages, cache')) :
    cache'.mark.length < 2 ^ cb.guesses.noGuessed := by
  rw [cb.serve_eq cache hc req (cb.bound_of_serve h), Option.map_eq_some_iff] at h
  obtain ⟨o, ho, heq⟩ := h
  obtain ⟨rfl, rfl⟩ := Prod.mk.injEq .. ▸ heq
  refine pageInputs_recorded req.admissible ?_ hc ho
  intro item hitem
  rw [List.mem_singleton] at hitem
  subst hitem
  exact (cb.length_projected req.interface).le

/-- In every run of requests from a fresh cache that are all served in place, every request is
answered with its page; and a run in which every request is answered with its page serves all of
them in place, when the models as sent are pairwise different.  The invariant of the run is that
fewer steps are recorded in the cache than there are guesses; so a search in it names one of them.
-/
theorem startup_answers_pages (reqs : List cb.Request) :
    (Service.Along cb.serve cb.ServesInPlace CachePosition.init reqs →
      ∃ answers, Service.run cb.serve CachePosition.init reqs = some answers ∧
        List.Forall₂ cb.Answered reqs answers) ∧
    ((∀ req ∈ reqs,
        (cb.modelLists.flatten.map (fun bs => bs.inter req.interface)).Nodup) →
      (∃ answers, Service.run cb.serve CachePosition.init reqs = some answers ∧
        List.Forall₂ cb.Answered reqs answers) →
      Service.Along cb.serve cb.ServesInPlace CachePosition.init reqs) := by
  have hinit : CachePosition.init.mark.length < 2 ^ cb.guesses.noGuessed := by
    simp [CachePosition.init]
  have hmodels : ∀ req : cb.Request,
      inputsModels [(true, cb.projected req.interface)] = (cb.projected req.interface).flatten := by
    intro req
    simp
  constructor
  · refine Service.run_of_along
      (I := fun cache => cache.mark.length < 2 ^ cb.guesses.noGuessed) ?_ hinit
    intro cache req hc hin
    obtain ⟨hk2, hin⟩ := (cb.servesInPlace_iff cache req).mp hin
    obtain ⟨o, ho, hsent⟩ := hin.sent_eq req.admissible
    have hserve : cb.serve cache req = some (o.1.map some ++ [none], o.2) := by
      rw [cb.serve_eq cache hc req hk2, ho]
      rfl
    exact ⟨_, _, hserve, (cb.answered_iff req _).mpr (by rw [hsent, hmodels]),
      cb.serve_recorded hc hserve⟩
  · intro hnd
    refine Service.along_of_run
      (I := fun cache => cache.mark.length < 2 ^ cb.guesses.noGuessed) ?_ hinit
    intro cache req hreq messages cache' hc hserve hans
    have hk2 := cb.bound_of_serve hserve
    refine ⟨(cb.servesInPlace_iff cache req).mpr ⟨hk2, ?_⟩, cb.serve_recorded hc hserve⟩
    rw [cb.serve_eq cache hc req hk2, Option.map_eq_some_iff] at hserve
    obtain ⟨o, ho, heq⟩ := hserve
    obtain ⟨rfl, rfl⟩ := Prod.mk.injEq .. ▸ heq
    refine AllInPlace.of_sent_eq req.admissible ?_ ho ?_
    · rw [hmodels, projected_flatten]
      exact hnd req hreq
    · rw [hmodels]
      exact (cb.answered_iff req _).mp hans

/-! ## A repeated request that is answered differently -/

/-- Two contexts with up to two beliefs each. -/
def twoBlocks : BeliefStateOffset := .ofSucc 1 1

/-- A local state of context `0`: its first belief as given, the second `FALSE`. -/
def localState (v : TruthVal) : NewBeliefState twoBlocks.width :=
  ((((NewBeliefState.empty _).setEpsilon twoBlocks 0).set 1 v).set 2 .dmcsFalse)

/-- Context `0` guesses the two beliefs of context `1`.  Its evaluator has one model for the first
two guesses, two models for the third and none for the last. -/
def fourGuesses : CycleBreaker twoBlocks where
  ctxId := 0
  returnPlan := fun _ => some ⟨BitVec.allOnes _, BitVec.allOnes _⟩
  bridgeRules := []
  solver := fun _ input =>
    match input.test 4, input.test 5 with
    | .dmcsFalse, .dmcsTrue =>
        [.answerSet (localState .dmcsFalse), .answerSet (localState .dmcsTrue)]
    | .dmcsTrue, .dmcsTrue => []
    | _, _ => [.answerSet (localState .dmcsFalse)]
  queryPlan := [(1, [1, 2])]

/-- The request for the third model. -/
def thirdModel : fourGuesses.Request := ⟨7, 3, 3, _, rfl, by decide, by decide⟩

/-- Asked twice for the third model, the cycle breaker sends the third and then the fourth: the
first round records step `1`, so the second one does not try step `0`, and counts its model
nowhere. -/
theorem startup_repeated_request :
    ¬ ∃ answers, Service.run fourGuesses.serve CachePosition.init [thirdModel, thirdModel] =
        some answers ∧ List.Forall₂ fourGuesses.Answered [thirdModel, thirdModel] answers := by
  rintro ⟨answers, hrun, hall⟩
  have hsent : Service.run fourGuesses.serve CachePosition.init [thirdModel, thirdModel] =
      some [[some ⟨63, 41⟩, none], [some ⟨63, 43⟩, none]] := by decide +kernel
  rw [hsent, Option.some.injEq] at hrun
  subst hrun
  have hsecond : fourGuesses.Answered thirdModel [some ⟨63, 43⟩, none] := by
    cases hall with
    | cons _ h => exact (List.forall₂_cons.mp h).1
  have hright : (page 3 3 fourGuesses.modelLists.flatten).map
      (fun bs => some (bs.inter thirdModel.interface)) ++ [none] = [some ⟨63, 41⟩, none] := by
    decide +kernel
  rw [Answered] at hsecond
  have := hsecond.trans hright
  revert this
  decide +kernel

/-- The request for all models. -/
def allModels : fourGuesses.Request := ⟨7, 0, 0, _, rfl, admissible_all, by decide⟩

/-- A run in place: all models, then the third. -/
theorem startup_answers_pages_fourGuesses :
    ∃ answers, Service.run fourGuesses.serve CachePosition.init [allModels, thirdModel] =
        some answers ∧ List.Forall₂ fourGuesses.Answered [allModels, thirdModel] answers := by
  have hcounts : fourGuesses.modelLists.map List.length = [1, 1, 2, 0] := by decide +kernel
  refine (fourGuesses.startup_answers_pages _).1 ⟨⟨by decide, Or.inl ?_, ?_⟩, ?_⟩
  · simp [SkipsNothing]
  · intro h
    exact absurd h (by decide)
  · intro messages cache hserve
    have hcache : (fourGuesses.serve CachePosition.init allModels).map Prod.snd =
        some CachePosition.init := by decide +kernel
    rw [hserve, Option.map_some, Option.some.injEq] at hcache
    subst hcache
    refine ⟨⟨by decide, Or.inl (by simp [SkipsNothing]), ?_⟩, fun _ _ _ => trivial⟩
    rw [RecordsInOrder, hcounts]
    rintro - ⟨j, t, -, ht, -, -, -, hzero, hsum⟩
    simp only [CachePosition.findPosition_init, List.drop_zero, List.length_cons,
      List.length_nil] at ht hzero hsum
    have hlast : t = 0 ∨ t = 1 ∨ t = 2 ∨ t = 3 := by omega
    rcases hlast with rfl | rfl | rfl | rfl <;> simp [thirdModel] at hzero hsum

end Runs

end CycleBreaker

end Dmcs
