import Dmcs.Mcs.ComputeCalls
import Dmcs.Mcs.CycleBreaker

/-!
# When `update_cache` is called in order

`update_cache(index, k)` asserts that steps are recorded without a gap.  `read_and_send_k1_k2` calls
it only for steps that send nothing, while the step number goes up with every guess: a step that
sends something is not recorded, and the next step without models then leaves a gap.

`updateCalls` lists the calls of `update_cache` in a run of requests, the failing one included (a
range up to the largest `size_t` is refused before the first call), and
`updateCalls_inOrder_iff` says that all of them are in order exactly if along the run the model
counts of the steps tried do not straddle the range (`RecordsInOrder`).

## Runs of both services

The statement is made for the cycle breaker and for the normal context at once.  An `UpdateCall` is
a call of `update_cache` with the number of steps it finds recorded.  For each service the calls of
a request are listed by following its loop over the calls of `compute`, and a run fails exactly at a
call that is out of order; so the list of calls of a run ends with the first one that is.
-/

namespace Dmcs

open Paging NewContext

variable {bso : BeliefStateOffset}

/-- For every input that is reached, the steps that are tried are recorded in order. -/
def AllInOrder {α : Type*} : List (Bool × List (List α)) → ℕ → ℕ → CachePosition → Prop
  | [], _, _, _ => True
  | (guess, Ms) :: items, k1, k2, cache =>
      RecordsInOrder cache (startStep guess cache k1) (Ms.map List.length) k1 k2 ∧
        ∀ r, pageFrom (startStep guess cache k1) Ms k1 k2 cache = some r → r.finished = false →
          AllInOrder items r.k1 r.k2 r.cache

/-- A call of `update_cache`, with the number of steps recorded before it. -/
structure UpdateCall where
  index : ℕ
  count : ℕ
  recorded : ℕ

/-- The step is recorded already, or it is the next one. -/
def UpdateCall.InOrder (u : UpdateCall) : Prop := u.index ≤ u.recorded ∨ u.index = u.recorded + 1

instance (u : UpdateCall) : Decidable u.InOrder := inferInstanceAs (Decidable (_ ∨ _))

namespace NewContext

/-- The call of `update_cache` in a call of `compute`, that is in its `read_and_send_k1_k2`. -/
def ComputeCall.updateCall (ctx : NewContext bso) (parent : ℕ) (call : ComputeCall bso) :
    Option UpdateCall :=
  let heads := evaluateBridgeRules ctx.bridgeRules call.input
  let eval := DLVEvaluator.solve ctx.solver ctx.ctxId ⟨call.input, heads, call.k1, call.k2⟩
  match ctx.readAndSend parent eval.sent with
  | none => none
  | some (_, modelsSent, conflictModels) =>
      if call.k1 = 0 ∧ call.k2 = 0 then none
      else if ¬ conflictModels ≤ eval.modelsCounter then none
      else
        let modelsCounter := eval.modelsCounter - conflictModels
        if modelsSent = 0 then
          if ¬ modelsCounter < call.k1 then none
          else if 0 < call.step then some ⟨call.step, modelsCounter, call.cache.mark.length⟩
          else none
        else none

/-- The call of `update_cache`, if there is one, is in order. -/
def ComputeCall.RecordsNext (ctx : NewContext bso) (parent : ℕ) (call : ComputeCall bso) : Prop :=
  ∀ u, call.updateCall ctx parent = some u → u.InOrder

lemma updateCache_eq_none_iff {cache : CachePosition} {index k : ℕ} :
    cache.updateCache index k = none ↔
      ¬ (index ≤ cache.mark.length ∨ index = cache.mark.length + 1) := by
  rcases cache.updateCache_cases index k with ⟨h, heq⟩ | ⟨h, x, heq⟩ | ⟨h, heq⟩ <;>
    rw [heq] <;> simp <;> omega

section Calls

variable (ctx : NewContext bso) {parent : ℕ} {interface : NewBeliefState bso.width}
  (hp : ctx.returnPlan parent = some interface)
include hp

/-- A call of `compute` fails exactly if it records out of order. -/
lemma ComputeCall.result_eq_none_iff (call : ComputeCall bso) (hadm : Admissible call.k1 call.k2) :
    call.result ctx parent = none ↔ ¬ call.RecordsNext ctx parent := by
  obtain ⟨hsent, hcount⟩ := DLVEvaluator.solve_spec ctx.ctxId ctx.solver
    ⟨call.input, evaluateBridgeRules ctx.bridgeRules call.input, call.k1, call.k2⟩ hadm
  unfold ComputeCall.RecordsNext ComputeCall.updateCall ComputeCall.result
  rw [ctx.compute_eq_pageStep hp _ _ _ _ _ hadm]
  set M := DLVEvaluator.linesModels ctx.ctxId call.input
    (ctx.solver (evaluateBridgeRules ctx.bridgeRules call.input) call.input) with hM
  have hanswer : ctx.answerModels interface call.input = M.map (fun bs => bs.inter interface) := rfl
  rw [hanswer, pageStep]
  simp only [ctx.readAndSend_eq hp, hsent, hcount, List.length_map]
  by_cases hall : call.k1 = 0 ∧ call.k2 = 0
  · rw [if_pos hall, if_pos hall]
    simp
  · obtain ⟨h1, h2⟩ : 1 ≤ call.k1 ∧ call.k1 ≤ call.k2 := hadm.resolve_left hall
    have hlen := page_length h1 call.k2 M
    simp only [if_neg hall, Nat.zero_le, not_true_eq_false, if_false, Nat.sub_zero]
    by_cases hlt : M.length < call.k1
    · have hmin : min call.k2 M.length < call.k1 := by omega
      have h0 : (page call.k1 call.k2 M).length = 0 := by omega
      rw [if_pos hlt, if_pos h0, if_neg (not_not.mpr hmin), Option.map_eq_none_iff]
      by_cases hstep : 0 < call.step
      · rw [if_pos hstep, if_pos hstep, updateCache_eq_none_iff]
        simp [UpdateCall.InOrder]
      · rw [if_neg hstep, if_neg hstep]
        simp
    · have h0 : ¬ (page call.k1 call.k2 M).length = 0 := by omega
      rw [if_neg hlt, if_neg h0]
      by_cases hk2 : M.length < call.k2
      · rw [if_pos hk2]
        simp
      · rw [if_neg hk2]
        simp

/-- A loop over guesses fails exactly if one of its calls records out of order. -/
lemma guessLoop_eq_none_iff (G : GuessSpace bso)
    (inputOf : NewBeliefState bso.width → NewBeliefState bso.width) (fuel : ℕ) :
    ∀ step k1 k2 cache, Admissible k1 k2 → step < 2 ^ G.noGuessed →
      2 ^ G.noGuessed ≤ step + fuel →
        (ctx.guessLoop G inputOf parent fuel (some (G.guessAt step)) step k1 k2 cache = none ↔
          ∃ call ∈ ctx.guessCalls G inputOf parent fuel (some (G.guessAt step)) step k1 k2 cache,
            ¬ call.RecordsNext ctx parent) := by
  induction fuel with
  | zero => intro step k1 k2 cache _ hstep hfuel; omega
  | succ fuel ih =>
      intro step k1 k2 cache hadm hstep hfuel
      have hcall := ComputeCall.result_eq_none_iff ctx hp
        ⟨step, G.guessAt step, inputOf (G.guessAt step), k1, k2, cache⟩ hadm
      rw [guessLoop, guessCalls, List.exists_mem_cons_iff, ← hcall, ComputeCall.result]
      cases hr : ctx.compute (inputOf (G.guessAt step)) parent step k1 k2 cache with
      | none => simp
      | some r =>
          simp only [reduceCtorEq, false_or]
          by_cases hf : r.finished = true
          · rw [if_pos hf, if_pos hf]
            simp
          · have hadm' : Admissible r.k1 r.k2 := by
              rw [ctx.compute_eq_pageStep hp _ _ _ _ _ hadm] at hr
              exact pageStep_admissible hadm hr (by simpa using hf)
            rw [if_neg hf, if_neg hf, Option.map_eq_none_iff, G.nextGuess_guessAt hstep]
            by_cases hlast : step + 1 < 2 ^ G.noGuessed
            · rw [if_pos hlast]
              exact ih _ _ _ _ hadm' hlast (by omega)
            · rw [if_neg hlast, guessLoop, guessCalls]
              simp

end Calls

end NewContext

namespace CycleBreaker

variable (cb : CycleBreaker bso)

/-- The calls of `update_cache` in a round of `startup`: none when the range is refused. -/
def roundUpdates (cache : CachePosition) (req : cb.Request) : List UpdateCall :=
  if GoodRequest req.k1 req.k2 then
    let step := cache.findPosition req.k1
    (cb.guessCalls cb.guesses id req.parent (2 ^ cb.guesses.noGuessed) (firstGuess cb.guesses step)
      step req.k1 req.k2 cache).filterMap
        (fun call => call.updateCall cb.toNewContext req.parent)
  else []

/-- The calls of `update_cache` while a list of requests is processed, from a fresh cache on. -/
def updateCalls (reqs : List cb.Request) : List UpdateCall :=
  Service.trace cb.serve cb.roundUpdates CachePosition.init reqs

/-- The steps that are tried for a request do not straddle its range.  For a range up to the largest
`size_t` no step is tried. -/
def RecordsInOrder (cache : CachePosition) (req : cb.Request) : Prop :=
  req.k2 + 1 < 2 ^ 64 →
    Dmcs.RecordsInOrder cache (cache.findPosition req.k1) (cb.modelLists.map List.length)
    req.k1 req.k2

lemma forall_mem_roundUpdates_iff {cache : CachePosition}
    (hc : cache.mark.length < 2 ^ cb.guesses.noGuessed) (req : cb.Request) :
    (∀ u ∈ cb.roundUpdates cache req, u.InOrder) ↔ cb.RecordsInOrder cache req := by
  have hstep := lt_of_le_of_lt (cache.findPosition_le req.k1) hc
  have hcalls := cb.guessLoop_eq_none_iff req.known cb.guesses id (2 ^ cb.guesses.noGuessed)
    (cache.findPosition req.k1) req.k1 req.k2 cache req.admissible hstep (by omega)
  rw [cb.guessLoop_eq_pageFrom _ _ req.known req.admissible hc,
    pageFrom_eq_none_iff (cache.findPosition_le req.k1) req.admissible] at hcalls
  have hcounts : (cb.guessAnswers cb.guesses id req.interface).map List.length =
      cb.modelLists.map List.length := cb.projected_length req.interface
  rw [hcounts] at hcalls
  have hgood := goodRequest_iff req.admissible req.k2_lt
  unfold roundUpdates RecordsInOrder
  by_cases hk2 : req.k2 + 1 < 2 ^ 64
  · rw [if_pos (hgood.mpr hk2), forall_prop_of_true hk2]
    simp only
    rw [firstGuess_eq _ hstep, List.forall_mem_filterMap, ← not_iff_not, hcalls]
    simp only [not_forall, exists_prop, ComputeCall.RecordsNext]
  · rw [if_neg (fun h => hk2 (hgood.mp h)), forall_prop_of_false hk2]
    simp

lemma forall_mem_updateCalls_iff (reqs : List cb.Request) :
    (∀ u ∈ cb.updateCalls reqs, u.InOrder) ↔
      Service.Along cb.serve cb.RecordsInOrder CachePosition.init reqs := by
  rw [updateCalls, Service.forall_mem_trace_iff]
  refine Service.along_congr (I := fun cache => cache.mark.length < 2 ^ cb.guesses.noGuessed)
    (fun cache req messages cache' hc hserve => cb.serve_recorded hc hserve)
    (fun cache req hc => cb.forall_mem_roundUpdates_iff hc req) ?_
  exact Nat.two_pow_pos _

end CycleBreaker

namespace NormalContext

variable (nc : NormalContext bso)

/-- The calls of `update_cache` in `process_request`.  A joined input that is evaluated without a
guess has step `0`, and records nothing. -/
def requestUpdates (parent : ℕ) :
    List (NewBeliefState bso.width) → ℕ → ℕ → CachePosition → List UpdateCall
  | [], _, _, _ => []
  | input :: inputs, k1, k2, cache =>
      (nc.inputCalls input parent k1 k2 cache).filterMap
          (fun call => call.updateCall nc.toNewContext parent) ++
        match nc.processInput input parent k1 k2 cache with
        | none => []
        | some r => if r.finished then [] else requestUpdates parent inputs r.k1 r.k2 r.cache

/-- The calls of `update_cache` for a request: none when the range is refused. -/
def processUpdates (cache : CachePosition) (req : nc.Request) : List UpdateCall :=
  if GoodRequest req.k1 req.k2 then nc.requestUpdates req.parent req.inputs req.k1 req.k2 cache
  else []

/-- The calls of `update_cache` while a list of requests is processed, from a fresh cache on. -/
def updateCalls (reqs : List nc.Request) : List UpdateCall :=
  Service.trace nc.processRequest nc.processUpdates CachePosition.init reqs

/-- For every joined input that is reached, the steps that are tried do not straddle the range.  For
a range up to the largest `size_t` no input is reached. -/
def RecordsInOrder (cache : CachePosition) (req : nc.Request) : Prop :=
  req.k2 + 1 < 2 ^ 64 → AllInOrder (nc.projectedItems req.interface req.inputs) req.k1 req.k2 cache

/-- One evaluation without a guess has nothing to record. -/
lemma recordsInOrder_singleton {cache : CachePosition} (n k1 k2 : ℕ) :
    Dmcs.RecordsInOrder cache 0 [n] k1 k2 := by
  rintro - ⟨j, t, hjt, ht, -⟩
  simp only [List.drop_zero, List.length_singleton] at ht
  omega

/-- The calls of `update_cache` for one joined input. -/
lemma forall_mem_inputUpdates_iff {parent : ℕ} {interface : NewBeliefState bso.width}
    (hp : nc.returnPlan parent = some interface) (input : NewBeliefState bso.width) {k1 k2 : ℕ}
    (hadm : Admissible k1 k2) {cache : CachePosition}
    (hc : cache.mark.length < 2 ^ nc.guesses.noGuessed) :
    (∀ u ∈ (nc.inputCalls input parent k1 k2 cache).filterMap
        (fun call => call.updateCall nc.toNewContext parent), u.InOrder) ↔
      Dmcs.RecordsInOrder cache (startStep (nc.mustGuess input) cache k1)
        ((nc.projectedLists interface input).map List.length) k1 k2 := by
  cases hguess : nc.mustGuess input with
  | true =>
      have hstep := lt_of_le_of_lt (cache.findPosition_le k1) hc
      have hcalls := nc.guessLoop_eq_none_iff hp nc.guesses (fun g => input.union g)
        (2 ^ nc.guesses.noGuessed) (cache.findPosition k1) k1 k2 cache hadm hstep (by omega)
      rw [nc.guessLoop_eq_pageFrom _ _ hp hadm hc,
        pageFrom_eq_none_iff (cache.findPosition_le k1) hadm] at hcalls
      unfold inputCalls startStep
      rw [if_pos hguess, if_pos rfl, nc.projectedLists_of_mustGuess interface hguess]
      simp only
      rw [firstGuess_eq _ hstep, List.forall_mem_filterMap, ← not_iff_not, hcalls]
      simp only [not_forall, exists_prop, ComputeCall.RecordsNext]
  | false =>
      unfold inputCalls startStep
      rw [if_neg (by simp [hguess]), if_neg (by simp),
        nc.projectedLists_of_not_mustGuess interface hguess]
      simp [recordsInOrder_singleton]

lemma forall_mem_requestUpdates_iff {parent : ℕ} {interface : NewBeliefState bso.width}
    (hp : nc.returnPlan parent = some interface) (inputs : List (NewBeliefState bso.width)) :
    ∀ {k1 k2 : ℕ} {cache : CachePosition}, Admissible k1 k2 →
      cache.mark.length < 2 ^ nc.guesses.noGuessed →
        ((∀ u ∈ nc.requestUpdates parent inputs k1 k2 cache, u.InOrder) ↔
          AllInOrder (nc.projectedItems interface inputs) k1 k2 cache) := by
  induction inputs with
  | nil =>
      intro k1 k2 cache _ _
      simp [requestUpdates, projectedItems, AllInOrder]
  | cons input inputs ih =>
      intro k1 k2 cache hadm hc
      rw [requestUpdates, projectedItems, List.map_cons, AllInOrder, ← projectedItems,
        List.forall_mem_append, nc.forall_mem_inputUpdates_iff hp input hadm hc,
        nc.processInput_eq hp input hadm hc]
      refine and_congr_right (fun _ => ?_)
      cases hr : pageFrom (startStep (nc.mustGuess input) cache k1)
          (nc.projectedLists interface input) k1 k2 cache with
      | none => simp
      | some r =>
          have hout := pageFrom_some hadm hr
          simp only [Option.some.injEq, forall_eq']
          by_cases hf : r.finished = true
          · simp [hf]
          · rw [Bool.not_eq_true] at hf
            have hle := hout.recorded_le
            have hstart := startStep_le (nc.mustGuess input) cache k1
            have hlen := nc.length_projectedLists interface input
            rw [if_neg (by simp [hf]), ih (hout.admissible hf) (by omega)]
            exact (true_imp_iff.symm.trans (by simp [hf]))

lemma forall_mem_processUpdates_iff {cache : CachePosition}
    (hc : cache.mark.length < 2 ^ nc.guesses.noGuessed) (req : nc.Request) :
    (∀ u ∈ nc.processUpdates cache req, u.InOrder) ↔ nc.RecordsInOrder cache req := by
  have hgood := goodRequest_iff req.admissible req.k2_lt
  unfold processUpdates RecordsInOrder
  by_cases hk2 : req.k2 + 1 < 2 ^ 64
  · rw [if_pos (hgood.mpr hk2), forall_prop_of_true hk2]
    exact nc.forall_mem_requestUpdates_iff req.known req.inputs req.admissible hc
  · rw [if_neg (fun h => hk2 (hgood.mp h)), forall_prop_of_false hk2]
    simp

lemma forall_mem_updateCalls_iff (reqs : List nc.Request) :
    (∀ u ∈ nc.updateCalls reqs, u.InOrder) ↔
      Service.Along nc.processRequest nc.RecordsInOrder CachePosition.init reqs := by
  rw [updateCalls, Service.forall_mem_trace_iff]
  refine Service.along_congr (I := fun cache => cache.mark.length < 2 ^ nc.guesses.noGuessed)
    (fun cache req sent cache' hc hserve => nc.processRequest_recorded hc hserve)
    (fun cache req hc => nc.forall_mem_processUpdates_iff hc req) ?_
  exact Nat.two_pow_pos _

end NormalContext

/-- In every run of requests, all calls of `update_cache` are in order exactly if the steps that are
tried for the requests do not straddle their ranges.  Both sides are about the same runs: the calls
include the one at which a run fails. -/
theorem updateCalls_inOrder_iff (cb : CycleBreaker bso) (nc : NormalContext bso) :
    (∀ reqs : List cb.Request, (∀ u ∈ cb.updateCalls reqs, u.InOrder) ↔
      Service.Along cb.serve cb.RecordsInOrder CachePosition.init reqs) ∧
    ∀ reqs : List nc.Request, (∀ u ∈ nc.updateCalls reqs, u.InOrder) ↔
      Service.Along nc.processRequest nc.RecordsInOrder CachePosition.init reqs :=
  ⟨cb.forall_mem_updateCalls_iff, nc.forall_mem_updateCalls_iff⟩

/-- The request for the first ten of four models. -/
def tenModels : CycleBreaker.fourGuesses.Request :=
  { CycleBreaker.thirdModel with k1 := 1, k2 := 10, admissible := by decide, k2_lt := by decide }

/-- The first three guesses send models and are not recorded, the last one has none and is recorded
as step `3` in an empty cache. -/
theorem update_leaves_gap :
    ¬ ∀ u ∈ CycleBreaker.fourGuesses.updateCalls [tenModels], u.InOrder := by
  decide +kernel

end Dmcs
