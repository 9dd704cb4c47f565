import Dmcs.Mcs.NormalContext

/-!
# The window `k1`, `k2` on unsigned numbers

`k1`, `k2` and `models_counter` are `size_t`.  Here the functions that serve a request are followed
once more, with every assertion checked, every subtraction flagged when it wraps, and sums taken
modulo `2 ^ 64`.  The context has no guessing neighbours, so every joined input is evaluated once;
an evaluation reads an arbitrary list of lines.

`processInputs_eq_ok` says that from a range `1 ≤ k1 ≤ k2` nothing goes wrong.  Only the assertion
in front of the loop writes `k1 ≤ k2` as `k1 < k2 + 1`, which is false for the largest `k2`.

## The argument

`Stop` names what can happen before a request is served: an assertion that fails, a subtraction that
wraps, or a guess, which is left out here.  `ensure`, `sub` and `add` are the three operations of
the code that are concerned, so that a run that returns has passed all of them.

Once `1 ≤ k1 ≤ k2`, all numbers stay inside the range: `models_counter` never exceeds the number of
models, and what is subtracted is at most what there is.  So the run of this module returns what the
unchecked one in `NormalContext` returns (`processInputs_eq_unchecked`).  The only numbers left over
are those that the first assertion refuses, and `servesWindow_iff` says that these are the requests
with the largest `k2`.
-/

namespace Dmcs

open Paging

namespace Window

variable {bso : BeliefStateOffset}

/-- Why a run is not followed any further: an assertion fails, a subtraction wraps, or a guess is
needed. -/
inductive Stop where
  | assertion
  | wraps
  | guesses
  deriving DecidableEq

/-- `assert`. -/
def ensure (p : Prop) [Decidable p] : Except Stop Unit := if p then .ok () else .error .assertion

/-- `a - b` on `size_t`. -/
def sub (a b : ℕ) : Except Stop ℕ := if b ≤ a then .ok (a - b) else .error .wraps

/-- `a + b` on `size_t`. -/
def add (a b : ℕ) : ℕ := (a + b) % 2 ^ 64

/-! ## The code -/

/-- `read_until_k2`. -/
def readUntilK2 (ctxId : ℕ) (input : NewBeliefState bso.width) (k1 k2 : ℕ)
    (lines : List (OutputLine bso.width)) :
    Except Stop (DLVEvaluator.Progress bso.width) := do
  ensure (0 < k1 ∧ k1 ≤ k2)
  let target ← sub k1 1
  let (n, rest) := DLVEvaluator.skipUntil ctxId input target lines 0
  if n < target then return ⟨n, []⟩ else return DLVEvaluator.sendUntil ctxId input k2 rest ⟨n, []⟩

/-- `solve`. -/
def solve (ctxId : ℕ) (input : NewBeliefState bso.width) (k1 k2 : ℕ)
    (lines : List (OutputLine bso.width)) :
    Except Stop (DLVEvaluator.Progress bso.width) :=
  if k1 = 0 ∧ k2 = 0 then return DLVEvaluator.readAll ctxId input lines ⟨0, []⟩
  else do
    ensure (k1 ≤ k2)
    readUntilK2 ctxId input k1 k2 lines

/-- `read_and_send_k1_k2`. -/
def readAndSendK1K2 (ctx : NewContext bso) (parent currentStep k1 k2 : ℕ)
    (cache : CachePosition) (eval : DLVEvaluator.Progress bso.width) :
    Except Stop (ComputeResult (NewBeliefState bso.width)) :=
  match ctx.readAndSend parent eval.sent with
  | none => .error .assertion
  | some (sent, modelsSent, conflictModels) =>
      if k1 = 0 ∧ k2 = 0 then return ⟨sent, k1, k2, cache, false⟩
      else do
        ensure (conflictModels ≤ eval.modelsCounter)
        let modelsCounter ← sub eval.modelsCounter conflictModels
        if modelsSent = 0 then
          ensure (modelsCounter < k1)
          let k2 ← sub k2 modelsCounter
          let k1 ← sub k1 modelsCounter
          if 0 < currentStep then
            match cache.updateCache currentStep modelsCounter with
            | none => .error .assertion
            | some cache => return ⟨sent, k1, k2, cache, false⟩
          else return ⟨sent, k1, k2, cache, false⟩
        else
          let width ← sub k2 k1
          if modelsSent < add width 1 then
            let rest ← sub k2 modelsSent
            let rest ← sub rest k1
            return ⟨sent, 1, add rest 1, cache, false⟩
          else
            ensure (modelsSent = add width 1)
            return ⟨sent, k1, k2, cache, true⟩

/-- `compute`, with the lines that the evaluator reads. -/
def compute (ctx : NewContext bso) (input : NewBeliefState bso.width)
    (lines : List (OutputLine bso.width)) (parent currentStep k1 k2 : ℕ) (cache : CachePosition) :
    Except Stop (ComputeResult (NewBeliefState bso.width)) := do
  let eval ← solve ctx.ctxId input k1 k2 lines
  readAndSendK1K2 ctx parent currentStep k1 k2 cache eval

/-- `process_input`. -/
def processInput (nc : NormalContext bso) (input : NewBeliefState bso.width)
    (lines : List (OutputLine bso.width)) (parent k1 k2 : ℕ) (cache : CachePosition) :
    Except Stop (ComputeResult (NewBeliefState bso.width)) :=
  if nc.mustGuess input then .error .guesses
  else compute nc.toNewContext input lines parent 0 k1 k2 cache

/-- The loop of `process_request` over the joined inputs, each with the lines that are read for it:
the states sent, and the range `(k1, k2)` before each evaluation. -/
def processInputs (nc : NormalContext bso) (parent : ℕ) :
    List (NewBeliefState bso.width × List (OutputLine bso.width)) → ℕ → ℕ → CachePosition →
      Except Stop (List (NewBeliefState bso.width) × List (ℕ × ℕ))
  | [], _, _, _ => return ([], [])
  | (input, lines) :: evaluations, k1, k2, cache => do
      let r ← processInput nc input lines parent k1 k2 cache
      if r.finished then return (r.sent, [(k1, k2)])
      else
        let o ← processInputs nc parent evaluations r.k1 r.k2 r.cache
        return (r.sent ++ o.1, (k1, k2) :: o.2)

/-- `process_request`. -/
def processRequest (nc : NormalContext bso) (parent : ℕ)
    (evaluations : List (NewBeliefState bso.width × List (OutputLine bso.width))) (k1 k2 : ℕ)
    (cache : CachePosition) :
    Except Stop (List (NewBeliefState bso.width) × List (ℕ × ℕ)) := do
  ensure ((k1 = 0 ∧ k2 = 0) ∨ (0 < k1 ∧ k1 < add k2 1))
  processInputs nc parent evaluations k1 k2 cache

/-- The consistent models of all evaluations, one after the other. -/
def models (nc : NormalContext bso)
    (evaluations : List (NewBeliefState bso.width × List (OutputLine bso.width))) :
    List (NewBeliefState bso.width) :=
  evaluations.flatMap (fun e => DLVEvaluator.linesModels nc.ctxId e.1 e.2)

/-! ## Nothing goes wrong -/

lemma ensure_eq_ok {p : Prop} [Decidable p] (h : p) : ensure p = .ok () := if_pos h

lemma sub_eq_ok {a b : ℕ} (h : b ≤ a) : sub a b = .ok (a - b) := if_pos h

lemma add_eq {a b : ℕ} (h : a + b < 2 ^ 64) : add a b = a + b := Nat.mod_eq_of_lt h

section Steps

variable (ctx : NewContext bso) {parent : ℕ} {interface : NewBeliefState bso.width}
  {k1 k2 : ℕ} (h1 : 1 ≤ k1) (h2 : k1 ≤ k2)
include h1 h2

lemma solve_eq_ok (ctxId : ℕ) (input : NewBeliefState bso.width)
    (lines : List (OutputLine bso.width)) :
    solve ctxId input k1 k2 lines = .ok (DLVEvaluator.readUntilK2 ctxId input k1 k2 lines) := by
  have hne : ¬ (k1 = 0 ∧ k2 = 0) := by omega
  have hpos : 0 < k1 ∧ k1 ≤ k2 := ⟨h1, h2⟩
  rw [solve, if_neg hne, ensure_eq_ok h2, readUntilK2, ensure_eq_ok hpos, sub_eq_ok h1,
    DLVEvaluator.readUntilK2]
  show (if (DLVEvaluator.skipUntil ctxId input (k1 - 1) lines 0).1 < k1 - 1 then
      (.ok _ : Except Stop (DLVEvaluator.Progress bso.width)) else .ok _) = _
  split <;> simp_all

/-- One evaluation serves its part of the range. -/
lemma compute_eq_ok (hsize : k2 < 2 ^ 64) (hp : ctx.returnPlan parent = some interface)
    (input : NewBeliefState bso.width) (lines : List (OutputLine bso.width))
    (cache : CachePosition) :
    ∃ r, compute ctx input lines parent 0 k1 k2 cache = .ok r ∧
      pageStep ((DLVEvaluator.linesModels ctx.ctxId input lines).map
        (fun bs => bs.inter interface)) 0 k1 k2 cache = some r := by
  obtain ⟨hsent, hcount⟩ := DLVEvaluator.solve_spec ctx.ctxId (fun _ _ => lines)
    ⟨input, input, k1, k2⟩ (Or.inr ⟨h1, h2⟩)
  have hne : ¬ (k1 = 0 ∧ k2 = 0) := by omega
  simp only [DLVEvaluator.solve, hne, if_false] at hsent hcount
  set M := DLVEvaluator.linesModels ctx.ctxId input lines with hM
  have hlen := page_length h1 k2 M
  rw [compute, solve_eq_ok h1 h2]
  show ∃ r, readAndSendK1K2 ctx parent 0 k1 k2 cache _ = .ok r ∧ _
  rw [readAndSendK1K2, ctx.readAndSend_eq hp, hsent, hcount, pageStep, if_neg hne]
  simp only [hne, if_false, List.length_map, page_map]
  rw [ensure_eq_ok (Nat.zero_le _), sub_eq_ok (Nat.zero_le _)]
  show ∃ r, (if (page k1 k2 M).length = 0 then _ else _) = _ ∧ _
  by_cases hlt : M.length < k1
  · have hmin : min k2 M.length - 0 = M.length := by omega
    have hnil : page k1 k2 M = [] := page_eq_nil_of_length_lt h1 hlt
    rw [if_pos (by omega), if_pos hlt, hmin, hnil, ensure_eq_ok hlt, sub_eq_ok (by omega),
      sub_eq_ok (by omega)]
    exact ⟨_, rfl, rfl⟩
  · rw [if_neg (by omega), if_neg hlt, sub_eq_ok h2]
    show ∃ r, (if _ < add (k2 - k1) 1 then _ else _) = _ ∧ _
    rw [add_eq (by omega)]
    by_cases hk2 : M.length < k2
    · have hrest : k2 - (page k1 k2 M).length - k1 + 1 = k2 - M.length := by omega
      rw [if_pos (by omega), if_pos hk2, sub_eq_ok (by omega)]
      show ∃ r, (sub (k2 - (page k1 k2 M).length) k1 >>= _) = _ ∧ _
      rw [sub_eq_ok (by omega)]
      refine ⟨_, rfl, ?_⟩
      rw [add_eq (by omega), hrest]
    · rw [if_neg (by omega), if_neg hk2, ensure_eq_ok (by omega)]
      exact ⟨_, rfl, rfl⟩

end Steps

lemma mustGuess_eq_false {nc : NormalContext bso} (hnone : nc.guessingNeighbors = none)
    (input : NewBeliefState bso.width) : nc.mustGuess input = false := by
  unfold NormalContext.mustGuess
  rw [hnone]

section Requests

variable {nc : NormalContext bso} (hnone : nc.guessingNeighbors = none) {parent : ℕ}
  {interface : NewBeliefState bso.width} (hp : nc.returnPlan parent = some interface)
include hnone hp

/-- One evaluation sends its part of the window, and leaves the range for the evaluations after it.
-/
lemma processInput_eq_ok {k1 k2 : ℕ} (h1 : 1 ≤ k1) (h2 : k1 ≤ k2) (hsize : k2 < 2 ^ 64)
    (input : NewBeliefState bso.width) (lines : List (OutputLine bso.width))
    (cache : CachePosition) :
    ∃ r, processInput nc input lines parent k1 k2 cache = .ok r ∧
      pageStep ((DLVEvaluator.linesModels nc.ctxId input lines).map
        (fun bs => bs.inter interface)) 0 k1 k2 cache = some r ∧
      PageOutcome [(DLVEvaluator.linesModels nc.ctxId input lines).map
        (fun bs => bs.inter interface)] 0 k1 k2 cache r := by
  unfold processInput
  rw [mustGuess_eq_false hnone, if_neg (by simp)]
  obtain ⟨r, hr, hstep⟩ := compute_eq_ok nc.toNewContext h1 h2 hsize hp input lines cache
  refine ⟨r, hr, hstep, pageRun_some _ 0 k1 k2 cache r h1 h2 ?_⟩
  rw [pageRun_singleton]
  exact hstep

/-- From a range `1 ≤ k1 ≤ k2` no assertion fails and no subtraction wraps, every evaluation starts
with such a range, and the window of the models is sent. -/
lemma processInputs_eq_ok
    (evaluations : List (NewBeliefState bso.width × List (OutputLine bso.width))) :
    ∀ {k1 k2 : ℕ} (cache : CachePosition), 1 ≤ k1 → k1 ≤ k2 → k2 < 2 ^ 64 →
      ∃ ranges, processInputs nc parent evaluations k1 k2 cache =
          .ok ((page k1 k2 (models nc evaluations)).map (fun bs => bs.inter interface), ranges) ∧
        ∀ range ∈ ranges, 1 ≤ range.1 ∧ range.1 ≤ range.2 := by
  induction evaluations with
  | nil =>
      intro k1 k2 cache h1 h2 hsize
      refine ⟨[], ?_, by simp⟩
      rw [processInputs, models, List.flatMap_nil, page_nil]
      rfl
  | cons evaluation evaluations ih =>
      obtain ⟨input, lines⟩ := evaluation
      intro k1 k2 cache h1 h2 hsize
      obtain ⟨r, hr, -, hout⟩ := processInput_eq_ok hnone hp h1 h2 hsize input lines cache
      set M := DLVEvaluator.linesModels nc.ctxId input lines with hM
      have hmodels : models nc ((input, lines) :: evaluations) = M ++ models nc evaluations := rfl
      have hsent : r.sent = (page k1 k2 M).map (fun bs => bs.inter interface) := by
        rw [hout.sent, List.flatten_singleton, page_map]
      have hlen : [M.map (fun bs => bs.inter interface)].flatten.length = M.length := by simp
      have hfinished := hout.finished
      have hlow := hout.low
      have hhigh := hout.high
      rw [hlen] at hfinished hlow hhigh
      rw [processInputs, hr, hmodels, page_append h1, List.map_append, ← hsent]
      by_cases hk2 : k2 ≤ M.length
      · have hf : r.finished = true := by rw [hfinished]; exact decide_eq_true hk2
        refine ⟨[(k1, k2)], ?_, by simp [h1, h2]⟩
        show (if r.finished = true then _ else _) = _
        rw [if_pos hf, if_pos hk2, List.map_nil, List.append_nil]
        rfl
      · have hf : r.finished = false := by rw [hfinished]; exact decide_eq_false hk2
        obtain ⟨ranges, hrest, hranges⟩ := ih r.cache
          (show 1 ≤ restLow k1 M.length from restLow_pos)
          (restLow_le_restHigh h2 (not_le.mp hk2))
          (lt_of_le_of_lt (Nat.sub_le _ _) hsize)
        refine ⟨(k1, k2) :: ranges, ?_, ?_⟩
        · show (if r.finished = true then _ else _) = _
          rw [if_neg (by simp [hf]), hlow hf, hhigh hf, hrest, if_neg hk2]
          rfl
        · intro range hrange
          rcases List.mem_cons.mp hrange with rfl | hrange
          · exact ⟨h1, h2⟩
          · exact hranges range hrange

/-- Where the evaluator reads what the solver prints, this is the run of `NormalContext`. -/
theorem processInputs_eq_unchecked (inputs : List (NewBeliefState bso.width)) :
    ∀ {k1 k2 : ℕ} (cache : CachePosition), 1 ≤ k1 → k1 ≤ k2 → k2 < 2 ^ 64 →
      ∃ o ranges, processInputs nc parent (inputs.map (fun input =>
            (input, nc.solver (evaluateBridgeRules nc.bridgeRules input) input))) k1 k2 cache =
          .ok (o.1, ranges) ∧
        nc.processInputs parent inputs k1 k2 cache = some o := by
  induction inputs with
  | nil =>
      intro k1 k2 cache _ _ _
      exact ⟨([], cache), [], rfl, rfl⟩
  | cons input inputs ih =>
      intro k1 k2 cache h1 h2 hsize
      set lines := nc.solver (evaluateBridgeRules nc.bridgeRules input) input with hlines
      obtain ⟨r, hr, hstep, hout⟩ := processInput_eq_ok hnone hp h1 h2 hsize input lines cache
      have hrun : nc.processInput input parent k1 k2 cache = some r := by
        unfold NormalContext.processInput
        rw [mustGuess_eq_false hnone, if_neg (by simp),
          nc.compute_eq_pageStep hp _ _ _ _ _ (Or.inr ⟨h1, h2⟩)]
        exact hstep
      rw [List.map_cons, processInputs, NormalContext.processInputs, ← hlines, hr, hrun]
      show ∃ o ranges, (if r.finished = true then _ else _) = _ ∧
        (if r.finished = true then _ else _) = _
      by_cases hf : r.finished = true
      · rw [if_pos hf, if_pos hf]
        exact ⟨(r.sent, r.cache), _, rfl, rfl⟩
      · have hf' : r.finished = false := Bool.not_eq_true _ ▸ hf
        have hlt : [(DLVEvaluator.linesModels nc.ctxId input lines).map
            (fun bs => bs.inter interface)].flatten.length < k2 := by
          rw [hout.finished, decide_eq_false_iff_not] at hf'
          omega
        rw [if_neg hf, if_neg hf, hout.low hf', hout.high hf']
        obtain ⟨o, ranges, hrest, hunchecked⟩ := ih r.cache restLow_pos
          (restLow_le_restHigh h2 hlt) (lt_of_le_of_lt (Nat.sub_le _ _) hsize)
        rw [hrest, hunchecked]
        exact ⟨(r.sent ++ o.1, o.2), _, rfl, rfl⟩

end Requests

/-- The request is served: nothing stops the run, exactly the models at the positions `k1` to `k2`
are sent, and `1 ≤ k1 ≤ k2` holds before every evaluation. -/
def ServesWindow (nc : NormalContext bso) (parent : ℕ) (interface : NewBeliefState bso.width)
    (evaluations : List (NewBeliefState bso.width × List (OutputLine bso.width))) (k1 k2 : ℕ)
    (cache : CachePosition) : Prop :=
  ∃ ranges, processRequest nc parent evaluations k1 k2 cache =
      .ok (((models nc evaluations).take k2 |>.drop (k1 - 1)).map
        (fun bs => bs.inter interface), ranges) ∧
    ∀ range ∈ ranges, 1 ≤ range.1 ∧ range.1 ≤ range.2

/-- A request from a known parent with `1 ≤ k1 ≤ k2` is served unless `k2` is the largest `size_t`.
There `k2 + 1` is `0`, and the assertion on the window fails. -/
theorem servesWindow_iff {nc : NormalContext bso} (hnone : nc.guessingNeighbors = none)
    {parent : ℕ} {interface : NewBeliefState bso.width}
    (hp : nc.returnPlan parent = some interface)
    (evaluations : List (NewBeliefState bso.width × List (OutputLine bso.width))) {k1 k2 : ℕ}
    (h1 : 1 ≤ k1) (h2 : k1 ≤ k2) (hsize : k2 < 2 ^ 64) (cache : CachePosition) :
    ServesWindow nc parent interface evaluations k1 k2 cache ↔ k2 + 1 < 2 ^ 64 := by
  unfold ServesWindow processRequest
  constructor
  · rintro ⟨ranges, hrun, -⟩
    by_contra hmax
    have hwrap : add k2 1 = 0 := by
      have : k2 + 1 = 2 ^ 64 := by omega
      rw [add, this, Nat.mod_self]
    have hfail : ¬ ((k1 = 0 ∧ k2 = 0) ∨ (0 < k1 ∧ k1 < add k2 1)) := by omega
    rw [ensure, if_neg hfail] at hrun
    cases hrun
  · intro hmax
    have hassert : (k1 = 0 ∧ k2 = 0) ∨ (0 < k1 ∧ k1 < add k2 1) := by
      rw [add_eq hmax]
      omega
    rw [ensure_eq_ok hassert, ← page_pos h1]
    exact processInputs_eq_ok hnone hp evaluations cache h1 h2 hsize

/-- A context with one belief and no guessing neighbours. -/
def oneBelief : NormalContext (BeliefStateOffset.ofSucc 0 0) where
  ctxId := 0
  returnPlan := fun _ => some ⟨BitVec.allOnes _, BitVec.allOnes _⟩
  bridgeRules := []
  solver := fun _ _ => []
  guessingNeighbors := none

/-- The client may ask for everything from the first model up to the largest number. -/
theorem largest_k2_not_served :
    ¬ ServesWindow oneBelief 7 ⟨BitVec.allOnes _, BitVec.allOnes _⟩ [] 1 (2 ^ 64 - 1)
      CachePosition.init := by
  rintro ⟨ranges, hrun, -⟩
  have hfail : processRequest oneBelief 7 [] 1 (2 ^ 64 - 1) CachePosition.init =
      .error .assertion := by decide +kernel
  rw [hfail] at hrun
  cases hrun

/-- The request for the first model, with one joined input for which a cost and a model are read. -/
theorem servesWindow_iff_oneBelief :
    ServesWindow oneBelief 7 ⟨BitVec.allOnes _, BitVec.allOnes _⟩
        [(NewBeliefState.empty _, [.cost, .answerSet (NewBeliefState.empty _)])] 1 1
        CachePosition.init ↔ 1 + 1 < 2 ^ 64 :=
  servesWindow_iff rfl rfl _ le_rfl le_rfl (by norm_num) _

end Window

end Dmcs
