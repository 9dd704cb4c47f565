import Dmcs.Lib.Page
import Dmcs.Mcs.BridgeRuleEvaluator

/-!
# The evaluator (`DLVEvaluator`)

The solver process is outside the code: all the evaluator sees is the list of lines it prints for
a program, ended by an empty line.  A line is either a `Cost ([Weight:Level]):` line, which is
discarded, or an answer set, which the result parser turns into a local model.

`readAll` and `readUntilK2` are the two reading loops of `solve`.  Both keep only the local models
that are consistent with the input on the context's own block, and send each united with the
input.  `solve_spec` is what the rest of the development uses: the states sent are the requested
page of `evaluatorModels`, and `models_counter` is the number of models seen.

## What is left open

The program that is sent to the solver is in `ResetProcess`; what the solver prints for it is a
parameter (`Solver`).  The texts of the lines are read by the grammar of `DLVResultGrammar`; here a
line is what the parser made of it.

`readUntilK2` skips the models before the range, sends those of the range and stops.  The lines
behind are not read, so `models_counter` counts only what was seen.
-/

namespace Dmcs

open BitScan Paging

variable {bso : BeliefStateOffset}

/-- A line of solver output, already parsed. -/
inductive OutputLine (w : ℕ) where
  | cost
  | answerSet (localModel : NewBeliefState w)

/-- The solver: the output lines for the facts added to the local program.  The input travels in
the same `Heads` object. -/
abbrev Solver (bso : BeliefStateOffset) :=
  (heads input : NewBeliefState bso.width) → List (OutputLine bso.width)

namespace DLVEvaluator

/-- What an evaluation has done so far: `models_counter` and the states sent to `EVAL_OUT_MQ`. -/
structure Progress (w : ℕ) where
  modelsCounter : ℕ
  sent : List (NewBeliefState w)

/-- `test_and_send`. -/
def testAndSend (ctxId : ℕ) (input localModel : NewBeliefState bso.width)
    (p : Progress bso.width) : Progress bso.width :=
  if !localModel.consistentWith input ctxId then p
  else ⟨p.modelsCounter + 1, p.sent ++ [localModel.union input]⟩

/-- `read_all`. -/
def readAll (ctxId : ℕ) (input : NewBeliefState bso.width) :
    List (OutputLine bso.width) → Progress bso.width → Progress bso.width
  | [], p => p
  | .cost :: lines, p => readAll ctxId input lines p
  | .answerSet m :: lines, p => readAll ctxId input lines (testAndSend ctxId input m p)

/-- First loop of `read_until_k2`: skip models until `target = k1 - 1` of them were seen.  Returns
the counter and the lines not read yet. -/
def skipUntil (ctxId : ℕ) (input : NewBeliefState bso.width) (target : ℕ) :
    List (OutputLine bso.width) → ℕ → ℕ × List (OutputLine bso.width)
  | [], n => (n, [])
  | .cost :: lines, n =>
      if n < target then skipUntil ctxId input target lines n else (n, .cost :: lines)
  | .answerSet m :: lines, n =>
      if n < target then
        if m.consistentWith input ctxId then skipUntil ctxId input target lines (n + 1)
        else skipUntil ctxId input target lines n
      else (n, .answerSet m :: lines)

/-- Second loop of `read_until_k2`: send models until `k2` of them were seen. -/
def sendUntil (ctxId : ℕ) (input : NewBeliefState bso.width) (k2 : ℕ) :
    List (OutputLine bso.width) → Progress bso.width → Progress bso.width
  | [], p => p
  | .cost :: lines, p =>
      if p.modelsCounter < k2 then sendUntil ctxId input k2 lines p else p
  | .answerSet m :: lines, p =>
      if p.modelsCounter < k2 then sendUntil ctxId input k2 lines (testAndSend ctxId input m p)
      else p

/-- `read_until_k2`. -/
def readUntilK2 (ctxId : ℕ) (input : NewBeliefState bso.width) (k1 k2 : ℕ)
    (lines : List (OutputLine bso.width)) : Progress bso.width :=
  let (n, rest) := skipUntil ctxId input (k1 - 1) lines 0
  if n < k1 - 1 then ⟨n, []⟩ else sendUntil ctxId input k2 rest ⟨n, []⟩

/-- `solve`: the states sent (before the final `NULL`) and `models_counter` afterwards. -/
def solve (solver : Solver bso) (ctxId : ℕ) (h : Heads bso) : Progress bso.width :=
  let lines := solver h.heads h.input
  if h.k1 = 0 ∧ h.k2 = 0 then readAll ctxId h.input lines ⟨0, []⟩
  else readUntilK2 ctxId h.input h.k1 h.k2 lines

/-- The models of an output: the local models consistent with the input, united with it. -/
def linesModels (ctxId : ℕ) (input : NewBeliefState bso.width) :
    List (OutputLine bso.width) → List (NewBeliefState bso.width)
  | [] => []
  | .cost :: lines => linesModels ctxId input lines
  | .answerSet m :: lines =>
      if m.consistentWith input ctxId then m.union input :: linesModels ctxId input lines
      else linesModels ctxId input lines

/-- The evaluator models for an input, in evaluator order. -/
def evaluatorModels (solver : Solver bso) (ctxId : ℕ) (rules : List BridgeRule)
    (input : NewBeliefState bso.width) : List (NewBeliefState bso.width) :=
  linesModels ctxId input (solver (evaluateBridgeRules rules input) input)

/-! ## The reading loops over the models -/

variable (ctxId : ℕ) (input : NewBeliefState bso.width)

lemma readAll_eq (lines : List (OutputLine bso.width)) (p : Progress bso.width) :
    readAll ctxId input lines p =
      ⟨p.modelsCounter + (linesModels ctxId input lines).length,
        p.sent ++ linesModels ctxId input lines⟩ := by
  induction lines generalizing p with
  | nil => simp [readAll, linesModels]
  | cons line lines ih =>
      cases line with
      | cost => rw [readAll, ih, linesModels]
      | answerSet m =>
          rw [readAll, ih, testAndSend, linesModels]
          by_cases hm : m.consistentWith input ctxId = true
          · simp [hm]; omega
          · simp [hm]

lemma skipUntil_eq (target : ℕ) (lines : List (OutputLine bso.width)) (n : ℕ) (hn : n ≤ target) :
    (skipUntil ctxId input target lines n).1 =
        min target (n + (linesModels ctxId input lines).length) ∧
      linesModels ctxId input (skipUntil ctxId input target lines n).2 =
        (linesModels ctxId input lines).drop (target - n) := by
  induction lines generalizing n with
  | nil => simp [skipUntil, linesModels, hn]
  | cons line lines ih =>
      by_cases hlt : n < target
      · cases line with
        | cost => simpa [skipUntil, hlt, linesModels] using ih n hn
        | answerSet m =>
            by_cases hm : m.consistentWith input ctxId = true
            · obtain ⟨h1, h2⟩ := ih (n + 1) hlt
              have hsub : target - n = (target - (n + 1)) + 1 := by omega
              simp only [skipUntil, hlt, hm, if_true, linesModels, List.length_cons]
              exact ⟨by rw [h1]; omega, by rw [h2, hsub, List.drop_succ_cons]⟩
            · simpa [skipUntil, hlt, linesModels, hm] using ih n hn
      · have : n = target := by omega
        subst this
        cases line <;> simp [skipUntil]

lemma sendUntil_eq (k2 : ℕ) (lines : List (OutputLine bso.width)) (p : Progress bso.width)
    (hp : p.modelsCounter ≤ k2) :
    sendUntil ctxId input k2 lines p =
      ⟨min k2 (p.modelsCounter + (linesModels ctxId input lines).length),
        p.sent ++ (linesModels ctxId input lines).take (k2 - p.modelsCounter)⟩ := by
  induction lines generalizing p with
  | nil => simp [sendUntil, linesModels, hp]
  | cons line lines ih =>
      by_cases hlt : p.modelsCounter < k2
      · cases line with
        | cost => simpa [sendUntil, hlt, linesModels] using ih p hp
        | answerSet m =>
            by_cases hm : m.consistentWith input ctxId = true
            · have hsub : k2 - p.modelsCounter = (k2 - (p.modelsCounter + 1)) + 1 := by omega
              simp only [sendUntil, hlt, testAndSend, hm, Bool.not_true, Bool.false_eq_true,
                if_false, linesModels, if_true]
              rw [ih _ (show p.modelsCounter + 1 ≤ k2 from hlt), hsub, List.take_succ_cons]
              simp only [List.length_cons, List.append_assoc, List.singleton_append,
                Progress.mk.injEq, and_true]
              omega
            · simpa [sendUntil, hlt, testAndSend, linesModels, hm] using ih p hp
      · have : p.modelsCounter = k2 := by omega
        subst this
        cases line <;> simp [sendUntil]

/-- What `solve` does for an admissible request: it sends the requested page of the evaluator
models, and `models_counter` is their number, cut off at `k2` for a bounded request. -/
theorem solve_spec (solver : Solver bso) (h : Heads bso) (hadm : Admissible h.k1 h.k2) :
    (solve solver ctxId h).sent =
        page h.k1 h.k2 (linesModels ctxId h.input (solver h.heads h.input)) ∧
      (solve solver ctxId h).modelsCounter =
        if h.k1 = 0 ∧ h.k2 = 0 then (linesModels ctxId h.input (solver h.heads h.input)).length
        else min h.k2 (linesModels ctxId h.input (solver h.heads h.input)).length := by
  rw [solve]
  set M := linesModels ctxId h.input (solver h.heads h.input) with hM
  rcases hadm with ⟨h1, h2⟩ | ⟨h1, h2⟩
  · rw [if_pos ⟨h1, h2⟩, readAll_eq, ← hM, h1, h2]
    simp
  · have hne : ¬ (h.k1 = 0 ∧ h.k2 = 0) := by omega
    obtain ⟨hskip, hrest⟩ :=
      skipUntil_eq ctxId h.input (h.k1 - 1) (solver h.heads h.input) 0 (Nat.zero_le _)
    rw [← hM, Nat.zero_add] at hskip
    rw [← hM, Nat.sub_zero] at hrest
    rw [if_neg hne, if_neg hne, page_pos h1, readUntilK2]
    simp only
    rw [hskip]
    by_cases hlt : min (h.k1 - 1) M.length < h.k1 - 1
    · rw [if_pos hlt]
      have hlen : M.length < h.k1 - 1 := by omega
      refine ⟨?_, by simp only; omega⟩
      rw [List.drop_eq_nil_of_le (by rw [List.length_take]; omega)]
    · rw [if_neg hlt, sendUntil_eq ctxId h.input h.k2 _ _ (by simp only; omega), hrest]
      simp only [List.nil_append, List.length_drop]
      refine ⟨?_, by omega⟩
      rw [List.drop_take]
      congr 1
      omega

end DLVEvaluator

end Dmcs
