import Dmcs.Mcs.DLVEvaluator
import Dmcs.Mcs.Guess
import Dmcs.Mcs.PageRun

/-!
# What normal contexts and cycle breakers share (`NewContext`)

`compute` evaluates the bridge rules of the context in an input, lets the evaluator solve, sends
the answers projected to the interface of the invoker, and shrinks the requested range `(k1, k2)`
in place.  With a positive guess step and no model in range it also records the step in the
context's `CachePosition`.  Both kinds of context run `compute` in a loop over guess steps
(`guessLoop`).

`compute_eq_pageStep` and `guessLoop_eq` reduce the two to `pageStep` and `pageRun` on the models
of each step.

## Two levels

The lower level is the code: `readAndSend` passes on what the evaluator sends until the end marker,
`readAndSendK1K2` cuts the range and records a step without models, `compute` chooses between them,
and `guessLoop` calls `compute` for one guess after the other as long as the range is not used up.

The upper level, in `PageRun`, knows only the list of models of each step.  The two theorems below
are the refinement: with the answers of the evaluator given by `answerModels`, a call of `compute`
is a `pageStep`, and the loop a `pageFrom` on the lists of all steps.  What is sent, what is left of
the range and what the cache holds afterwards are the same.
-/

namespace Dmcs

open Paging

variable {bso : BeliefStateOffset}

/-- The data a context keeps: its id, the return plan by parent id, its bridge rules, and the
solver behind its evaluator. -/
structure NewContext (bso : BeliefStateOffset) where
  ctxId : ℕ
  returnPlan : ℕ → Option (NewBeliefState bso.width)
  bridgeRules : List BridgeRule
  solver : Solver bso

namespace NewContext

/-- The range of a request as `startup` and `process_request` assert it, with the sum on `size_t`:
"Bad requests are not allowed". -/
def GoodRequest (k1 k2 : ℕ) : Prop := (k1 = 0 ∧ k2 = 0) ∨ (0 < k1 ∧ k1 < (k2 + 1) % 2 ^ 64)

instance (k1 k2 : ℕ) : Decidable (GoodRequest k1 k2) := inferInstanceAs (Decidable (_ ∨ _))

lemma GoodRequest.admissible {k1 k2 : ℕ} (h : GoodRequest k1 k2) : Admissible k1 k2 := by
  rcases h with hall | ⟨h1, h2⟩
  · exact Or.inl hall
  · have hle := Nat.mod_le (k2 + 1) (2 ^ 64)
    exact Or.inr ⟨h1, by omega⟩

/-- Of the admissible ranges only those up to the largest `size_t` are refused, where the sum wraps
to `0`. -/
lemma goodRequest_iff {k1 k2 : ℕ} (hadm : Admissible k1 k2) (hk2 : k2 < 2 ^ 64) :
    GoodRequest k1 k2 ↔ k2 + 1 < 2 ^ 64 := by
  rcases hadm with ⟨rfl, rfl⟩ | ⟨h1, h2⟩
  · simp [GoodRequest]
  · by_cases hlast : k2 + 1 < 2 ^ 64
    · rw [GoodRequest, Nat.mod_eq_of_lt hlast]
      omega
    · have hk : k2 + 1 = 2 ^ 64 := by omega
      rw [GoodRequest, hk, Nat.mod_self]
      omega

/-- `send_out_result`: project to the interface of the parent.  The lookup is asserted; the
function returns `true` in every other case. -/
def sendOutResult (ctx : NewContext bso) (parent : ℕ) (bs : NewBeliefState bso.width) :
    Option (NewBeliefState bso.width) :=
  (ctx.returnPlan parent).map (fun interface => bs.inter interface)

/-- `read_and_send`: the states sent, `models_sent` and `conflict_models`. -/
def readAndSend (ctx : NewContext bso) (parent : ℕ) :
    List (NewBeliefState bso.width) → Option (List (NewBeliefState bso.width) × ℕ × ℕ)
  | [] => some ([], 0, 0)
  | bs :: received =>
      match ctx.sendOutResult parent bs with
      | none => none
      | some out =>
          (readAndSend ctx parent received).map (fun r => (out :: r.1, r.2.1 + 1, r.2.2))

/-- `read_and_send_k1_k2`; `eval` is what the evaluator did for this call. -/
def readAndSendK1K2 (ctx : NewContext bso) (parent currentStep k1 k2 : ℕ)
    (cache : CachePosition) (eval : DLVEvaluator.Progress bso.width) :
    Option (ComputeResult (NewBeliefState bso.width)) :=
  match ctx.readAndSend parent eval.sent with
  | none => none
  | some (sent, modelsSent, conflictModels) =>
      if k1 = 0 ∧ k2 = 0 then some ⟨sent, k1, k2, cache, false⟩
      else if ¬ conflictModels ≤ eval.modelsCounter then none
      else
        let modelsCounter := eval.modelsCounter - conflictModels
        if modelsSent = 0 then
          if ¬ modelsCounter < k1 then none
          else if 0 < currentStep then
            (cache.updateCache currentStep modelsCounter).map
              (fun c => ⟨sent, k1 - modelsCounter, k2 - modelsCounter, c, false⟩)
          else some ⟨sent, k1 - modelsCounter, k2 - modelsCounter, cache, false⟩
        else if modelsSent < k2 - k1 + 1 then
          some ⟨sent, 1, k2 - modelsSent - k1 + 1, cache, false⟩
        else if ¬ modelsSent = k2 - k1 + 1 then none
        else some ⟨sent, k1, k2, cache, true⟩

/-- `compute`. -/
def compute (ctx : NewContext bso) (input : NewBeliefState bso.width)
    (parent currentStep k1 k2 : ℕ) (cache : CachePosition) :
    Option (ComputeResult (NewBeliefState bso.width)) :=
  let heads := evaluateBridgeRules ctx.bridgeRules input
  ctx.readAndSendK1K2 parent currentStep k1 k2 cache
    (DLVEvaluator.solve ctx.solver ctx.ctxId ⟨input, heads, k1, k2⟩)

/-- The loops `while (current_guess)` of `CycleBreaker::startup` and `do … while (current_guess)` of
`NormalContext::process_input`, over the guesses from `guess` on.  `inputOf` makes the input from a
guess. -/
def guessLoop (ctx : NewContext bso) (G : GuessSpace bso)
    (inputOf : NewBeliefState bso.width → NewBeliefState bso.width) (parent : ℕ) :
    ℕ → Option (NewBeliefState bso.width) → ℕ → ℕ → ℕ → CachePosition →
      Option (ComputeResult (NewBeliefState bso.width))
  | _, none, _, k1, k2, cache => some ⟨[], k1, k2, cache, false⟩
  | 0, some _, _, _, _, _ => none
  | fuel + 1, some g, step, k1, k2, cache =>
      match ctx.compute (inputOf g) parent step k1 k2 cache with
      | none => none
      | some r =>
          if r.finished then some r
          else (guessLoop ctx G inputOf parent fuel (nextGuess g G.total) (step + 1)
            r.k1 r.k2 r.cache).map (fun r' => { r' with sent := r.sent ++ r'.sent })

/-- The guess to start with: the step `find_position` gives, by `jump_guess` unless it is `0`. -/
def firstGuess (G : GuessSpace bso) (step : ℕ) : Option (NewBeliefState bso.width) :=
  if step = 0 then some G.starting else jumpGuess G.starting G.total step

/-- The models a context answers for an input, in evaluator order: the evaluator models projected
to the interface. -/
def answerModels (ctx : NewContext bso) (interface input : NewBeliefState bso.width) :
    List (NewBeliefState bso.width) :=
  (DLVEvaluator.evaluatorModels ctx.solver ctx.ctxId ctx.bridgeRules input).map
    (fun bs => bs.inter interface)

/-! ## Refinement to the loop over model lists -/

lemma readAndSend_eq (ctx : NewContext bso) {parent : ℕ} {interface : NewBeliefState bso.width}
    (hp : ctx.returnPlan parent = some interface) (received : List (NewBeliefState bso.width)) :
    ctx.readAndSend parent received =
      some (received.map (fun bs => bs.inter interface), received.length, 0) := by
  induction received with
  | nil => rfl
  | cons bs received ih => simp [readAndSend, sendOutResult, hp, ih]

/-- `compute` is `pageStep` on the models of its input. -/
theorem compute_eq_pageStep (ctx : NewContext bso) {parent : ℕ}
    {interface : NewBeliefState bso.width} (hp : ctx.returnPlan parent = some interface)
    (input : NewBeliefState bso.width) (step k1 k2 : ℕ) (cache : CachePosition)
    (hadm : Admissible k1 k2) :
    ctx.compute input parent step k1 k2 cache =
      pageStep (ctx.answerModels interface input) step k1 k2 cache := by
  set heads := evaluateBridgeRules ctx.bridgeRules input with hheads
  obtain ⟨hsent, hcount⟩ := DLVEvaluator.solve_spec ctx.ctxId ctx.solver ⟨input, heads, k1, k2⟩ hadm
  set M := DLVEvaluator.linesModels ctx.ctxId input (ctx.solver heads input) with hM
  have hanswer : ctx.answerModels interface input = M.map (fun bs => bs.inter interface) := rfl
  rw [compute, readAndSendK1K2, hanswer, pageStep, ← hheads, ctx.readAndSend_eq hp]
  simp only [hsent, hcount, List.length_map, ← page_map]
  rcases hadm with ⟨rfl, rfl⟩ | ⟨h1, h2⟩
  · simp
  · have hne : ¬ (k1 = 0 ∧ k2 = 0) := by omega
    have hlen := page_length h1 k2 M
    simp only [hne, if_false, Nat.zero_le, not_true_eq_false, Nat.sub_zero]
    by_cases hlt : M.length < k1
    · have h0 : (page k1 k2 M).length = 0 := by omega
      have hmin : min k2 M.length = M.length := by omega
      have hnil : page k1 k2 (M.map (fun bs => bs.inter interface)) = [] :=
        page_eq_nil_of_length_lt h1 (by simpa using hlt)
      rw [if_pos h0, if_pos hlt, hmin, if_neg (not_not.mpr hlt), hnil]
      by_cases hstep : 0 < step <;> simp [hstep]
    · have h0 : ¬ (page k1 k2 M).length = 0 := by omega
      rw [if_neg h0, if_neg hlt]
      by_cases hk2 : M.length < k2
      · rw [if_pos (by omega), if_pos hk2]
        congr 2
        omega
      · rw [if_neg (by omega), if_neg (by omega), if_neg hk2]

section GuessLoop

variable (ctx : NewContext bso) (G : GuessSpace bso)
  (inputOf : NewBeliefState bso.width → NewBeliefState bso.width)

/-- The answers for all guesses, one list for each. -/
def guessAnswers (interface : NewBeliefState bso.width) : List (List (NewBeliefState bso.width)) :=
  (List.range (2 ^ G.noGuessed)).map
    (fun step => ctx.answerModels interface (inputOf (G.guessAt step)))

@[simp] lemma length_guessAnswers (interface : NewBeliefState bso.width) :
    (ctx.guessAnswers G inputOf interface).length = 2 ^ G.noGuessed := by
  simp [guessAnswers]

lemma guessAnswers_drop (interface : NewBeliefState bso.width) {step : ℕ}
    (h : step < 2 ^ G.noGuessed) :
    (ctx.guessAnswers G inputOf interface).drop step =
      ctx.answerModels interface (inputOf (G.guessAt step)) ::
        (ctx.guessAnswers G inputOf interface).drop (step + 1) := by
  rw [List.drop_eq_getElem_cons (by rw [length_guessAnswers]; exact h)]
  congr 1
  simp [guessAnswers]

/-- From the guess of a step on, the loop runs over the remaining model lists. -/
lemma guessLoop_eq {parent : ℕ} {interface : NewBeliefState bso.width}
    (hp : ctx.returnPlan parent = some interface) :
    ∀ (fuel step k1 k2 : ℕ) (cache : CachePosition), Admissible k1 k2 →
      step < 2 ^ G.noGuessed → 2 ^ G.noGuessed ≤ step + fuel →
        ctx.guessLoop G inputOf parent fuel (some (G.guessAt step)) step k1 k2 cache =
          pageRun ((ctx.guessAnswers G inputOf interface).drop step) step k1 k2 cache := by
  intro fuel
  induction fuel with
  | zero => intro step k1 k2 cache _ h1 h2; omega
  | succ fuel ih =>
      intro step k1 k2 cache hadm hstep hfuel
      rw [ctx.guessAnswers_drop G inputOf interface hstep, pageRun, guessLoop,
        ctx.compute_eq_pageStep hp _ _ _ _ _ hadm]
      cases hr : pageStep (ctx.answerModels interface (inputOf (G.guessAt step))) step k1 k2
          cache with
      | none => rfl
      | some r =>
          simp only
          by_cases hf : r.finished = true
          · rw [if_pos hf, if_pos hf]
          · rw [if_neg hf, if_neg hf, G.nextGuess_guessAt hstep]
            congr 1
            by_cases hlast : step + 1 < 2 ^ G.noGuessed
            · rw [if_pos hlast]
              exact ih _ _ _ _ (pageStep_admissible hadm hr (by simpa using hf)) hlast (by omega)
            · have hnil : (ctx.guessAnswers G inputOf interface).drop (step + 1) = [] := by
                rw [List.drop_eq_nil_iff, length_guessAnswers]
                omega
              rw [if_neg hlast, hnil, guessLoop, pageRun]

lemma firstGuess_eq {step : ℕ} (hstep : step < 2 ^ G.noGuessed) :
    firstGuess G step = some (G.guessAt step) := by
  rw [firstGuess]
  by_cases h0 : step = 0
  · rw [if_pos h0, h0, G.guessAt_zero]
  · rw [if_neg h0, G.jumpGuess_eq, if_pos hstep]

/-- There is no first guess at a step past the last one. -/
lemma firstGuess_lt {step : ℕ} {g : NewBeliefState bso.width} (h : firstGuess G step = some g) :
    step < 2 ^ G.noGuessed := by
  by_contra hno
  have h0 : step ≠ 0 := by
    rintro rfl
    exact hno (Nat.two_pow_pos _)
  rw [firstGuess, if_neg h0, G.jumpGuess_eq, if_neg hno] at h
  cases h

/-- Started at the cached position, the loop serves the range from there on. -/
theorem guessLoop_eq_pageFrom {parent : ℕ} {interface : NewBeliefState bso.width}
    (hp : ctx.returnPlan parent = some interface) {k1 k2 : ℕ} (hadm : Admissible k1 k2)
    {cache : CachePosition} (hc : cache.mark.length < 2 ^ G.noGuessed) :
    ctx.guessLoop G inputOf parent (2 ^ G.noGuessed)
        (some (G.guessAt (cache.findPosition k1))) (cache.findPosition k1) k1 k2 cache =
      pageFrom (cache.findPosition k1) (ctx.guessAnswers G inputOf interface) k1 k2 cache :=
  ctx.guessLoop_eq G inputOf hp _ _ _ _ _ hadm
    (lt_of_le_of_lt (cache.findPosition_le k1) hc) (by omega)

end GuessLoop

end NewContext

end Dmcs
