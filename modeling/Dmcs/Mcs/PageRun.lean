import Mathlib.Algebra.Order.Ring.Nat
import Mathlib.Data.List.GetD
import Dmcs.Lib.Page
import Dmcs.Mcs.CachePosition

/-!
# Serving a range of models step by step

Both kinds of context answer a request `(k1, k2)` in a loop over guess steps, each step with its
own list of models, and shrink the range in place.  `pageStep` is what one call of `compute` does
once its models are known and `pageRun` the loop over a list of such lists.

The loop fails exactly when the assertion of `update_cache` does, which `Straddles` describes on
the model counts alone; otherwise `pageRun_some` gives what is sent and what is left of the range.
`pageFrom` starts the loop where a persistent cache says; `InPlace` is when that gives the
requested page.

## What can go wrong, and what cannot

* A step is recorded in the cache only when it sends nothing.  The assertion of `update_cache` wants
  the steps in order, so it fails when a step beyond the recorded ones sends something and a later
  one does not.  `Straddles` says this about the numbers of models alone.
* Resuming at a step that the cache names skips the models of the steps before it, while the range
  is still counted from the first model.  `SkipsNothing` is when that makes no difference.
* The range itself is handled correctly: for the request `(k1, k2)` the loop sends the page of what
  it is given, and what is left of the range afterwards is `restLow` and `restHigh` of `Page`.

`InPlace` puts the three together.  Over a list of inputs (`AllInPlace`) the range and the cache are
threaded through, which is how a normal context serves a request.
-/

namespace Dmcs

open Paging

/-- What one call of `compute` leaves behind: the states put on the output queue, the range still
wanted, the cache, and whether the range was exhausted. -/
structure ComputeResult (α : Type*) where
  sent : List α
  k1 : ℕ
  k2 : ℕ
  cache : CachePosition
  finished : Bool

/-! ## The loop over given model lists -/

/-- One call of `compute`, with the models of this step given. -/
def pageStep {α : Type*} (M : List α) (step k1 k2 : ℕ) (cache : CachePosition) :
    Option (ComputeResult α) :=
  if k1 = 0 ∧ k2 = 0 then some ⟨M, 0, 0, cache, false⟩
  else if M.length < k1 then
    (if 0 < step then cache.updateCache step M.length else some cache).map
      (fun c => ⟨[], k1 - M.length, k2 - M.length, c, false⟩)
  else if M.length < k2 then some ⟨page k1 k2 M, 1, k2 - M.length, cache, false⟩
  else some ⟨page k1 k2 M, k1, k2, cache, true⟩

/-- The loop over consecutive steps: stop when the range is exhausted. -/
def pageRun {α : Type*} : List (List α) → ℕ → ℕ → ℕ → CachePosition → Option (ComputeResult α)
  | [], _, k1, k2, cache => some ⟨[], k1, k2, cache, false⟩
  | M :: Ms, step, k1, k2, cache =>
      match pageStep M step k1 k2 cache with
      | none => none
      | some r =>
          if r.finished then some r
          else (pageRun Ms (step + 1) r.k1 r.k2 r.cache).map
            (fun r' => { r' with sent := r.sent ++ r'.sent })

/-! ## When the cache assertion fails -/

/-- On the model counts `ns` of the steps `step, step + 1, …`, with `recorded` steps in the cache:
some step after the recorded ones sends a model, and a later step without models is reached while
the range is not exhausted.  That later step is then recorded out of order. -/
def Straddles (recorded step : ℕ) (ns : List ℕ) (k1 k2 : ℕ) : Prop :=
  ∃ j t, j < t ∧ t < ns.length ∧ recorded < step + j ∧ 0 < ns.getD j 0 ∧
    k1 ≤ (ns.take (j + 1)).sum ∧ ns.getD t 1 = 0 ∧ (ns.take t).sum < k2

instance (recorded step : ℕ) (ns : List ℕ) (k1 k2 : ℕ) :
    Decidable (Straddles recorded step ns k1 k2) :=
  decidable_of_iff (∃ t < ns.length, ∃ j < t, recorded < step + j ∧ 0 < ns.getD j 0 ∧
      k1 ≤ (ns.take (j + 1)).sum ∧ ns.getD t 1 = 0 ∧ (ns.take t).sum < k2)
    ⟨fun ⟨t, ht, j, hjt, h⟩ => ⟨j, t, hjt, ht, h⟩, fun ⟨j, t, hjt, ht, h⟩ => ⟨t, ht, j, hjt, h⟩⟩

section PageRun

variable {α : Type*}

/-- Everything `pageStep` can do in a bounded range. -/
lemma pageStep_cases (M : List α) (step : ℕ) {k1 : ℕ} (k2 : ℕ) (cache : CachePosition)
    (h1 : 1 ≤ k1) :
    (M.length < k1 ∧ (step = 0 ∨ step ≤ cache.mark.length) ∧
      pageStep M step k1 k2 cache = some ⟨[], k1 - M.length, k2 - M.length, cache, false⟩) ∨
    (M.length < k1 ∧ step = cache.mark.length + 1 ∧ ∃ x,
      pageStep M step k1 k2 cache =
        some ⟨[], k1 - M.length, k2 - M.length, ⟨cache.mark ++ [x]⟩, false⟩) ∨
    (M.length < k1 ∧ cache.mark.length + 1 < step ∧ pageStep M step k1 k2 cache = none) ∨
    (k1 ≤ M.length ∧ M.length < k2 ∧
      pageStep M step k1 k2 cache = some ⟨page k1 k2 M, 1, k2 - M.length, cache, false⟩) ∨
    (k2 ≤ M.length ∧
      pageStep M step k1 k2 cache = some ⟨page k1 k2 M, k1, k2, cache, true⟩) := by
  have hne : ¬ (k1 = 0 ∧ k2 = 0) := by omega
  rw [pageStep, if_neg hne]
  by_cases hlt : M.length < k1
  · rw [if_pos hlt]
    by_cases hs : 0 < step
    · rw [if_pos hs]
      rcases cache.updateCache_cases step M.length with ⟨h, he⟩ | ⟨h, x, he⟩ | ⟨h, he⟩
      · exact Or.inl ⟨hlt, Or.inr h, by rw [he]; rfl⟩
      · exact Or.inr (Or.inl ⟨hlt, h, x, by rw [he]; rfl⟩)
      · exact Or.inr (Or.inr (Or.inl ⟨hlt, h, by rw [he]; rfl⟩))
    · rw [if_neg hs]
      exact Or.inl ⟨hlt, Or.inl (by omega), rfl⟩
  · rw [if_neg hlt]
    by_cases hk : M.length < k2
    · rw [if_pos hk]
      exact Or.inr (Or.inr (Or.inr (Or.inl ⟨by omega, hk, rfl⟩)))
    · rw [if_neg hk]
      exact Or.inr (Or.inr (Or.inr (Or.inr ⟨by omega, rfl⟩)))

/-- The range left by a step that did not exhaust it is admissible again. -/
lemma pageStep_admissible {M : List α} {step k1 k2 : ℕ} {cache : CachePosition}
    {r : ComputeResult α} (hadm : Admissible k1 k2) (h : pageStep M step k1 k2 cache = some r)
    (hf : r.finished = false) : Admissible r.k1 r.k2 := by
  rcases hadm with ⟨rfl, rfl⟩ | ⟨h1, h2⟩
  · simp only [pageStep, and_self, if_true, Option.some.injEq] at h
    subst h
    exact Or.inl ⟨rfl, rfl⟩
  · rcases pageStep_cases M step k2 cache h1 with
      ⟨hlt, -, hs⟩ | ⟨hlt, -, x, hs⟩ | ⟨-, -, hs⟩ | ⟨-, hlt, hs⟩ | ⟨-, hs⟩ <;>
      rw [hs] at h <;> simp only [Option.some.injEq, reduceCtorEq] at h <;> subst h
    · exact Or.inr ⟨by simp only; omega, by simp only; omega⟩
    · exact Or.inr ⟨by simp only; omega, by simp only; omega⟩
    · exact Or.inr ⟨by simp only; omega, by simp only; omega⟩
    · simp at hf

/-- The loop for the request `(0, 0)` sends everything. -/
lemma pageRun_all (Ms : List (List α)) (step : ℕ) (cache : CachePosition) :
    pageRun Ms step 0 0 cache = some ⟨Ms.flatten, 0, 0, cache, false⟩ := by
  induction Ms generalizing step with
  | nil => rfl
  | cons M Ms ih => simp [pageRun, pageStep, ih]

/-- A loop of one step is that step. -/
lemma pageRun_singleton (M : List α) (step k1 k2 : ℕ) (cache : CachePosition) :
    pageRun [M] step k1 k2 cache = pageStep M step k1 k2 cache := by
  rw [pageRun]
  cases pageStep M step k1 k2 cache with
  | none => rfl
  | some r =>
      obtain ⟨sent, l, h, c, finished⟩ := r
      cases finished <;> simp [pageRun]

/-- What the loop has done when it returns for a bounded range. -/
structure PageOutcome (Ms : List (List α)) (step k1 k2 : ℕ) (cache : CachePosition)
    (r : ComputeResult α) : Prop where
  sent : r.sent = page k1 k2 Ms.flatten
  finished : r.finished = decide (k2 ≤ Ms.flatten.length)
  low : r.finished = false → r.k1 = restLow k1 Ms.flatten.length
  high : r.finished = false → r.k2 = restHigh k2 Ms.flatten.length
  recorded_le : r.cache.mark.length ≤ max cache.mark.length (step + Ms.length - 1)

private lemma PageOutcome.cons {M : List α} {Ms : List (List α)} {step k1 k2 : ℕ}
    {cache cache' : CachePosition} {sent : List α} {r : ComputeResult α}
    (hr : PageOutcome Ms (step + 1) (restLow k1 M.length) (restHigh k2 M.length) cache' r)
    (h1 : 1 ≤ k1) (hk : M.length < k2) (hsent : sent = page k1 k2 M)
    (hcache : cache'.mark.length ≤ max cache.mark.length step) :
    PageOutcome (M :: Ms) step k1 k2 cache { r with sent := sent ++ r.sent } := by
  have hlen : (M :: Ms).flatten.length = M.length + Ms.flatten.length := by simp
  refine ⟨?_, ?_, ?_, ?_, ?_⟩
  · rw [List.flatten_cons, page_append h1, if_neg (by omega), hsent, hr.sent]
  · rw [hlen, show r.finished = _ from hr.finished, restHigh]
    congr 1
    exact propext ⟨fun h => by omega, fun h => by omega⟩
  · intro hf
    rw [hlen, hr.low hf, restLow_add]
  · intro hf
    rw [hlen, hr.high hf, restHigh_add]
  · have := hr.recorded_le
    simp only [List.length_cons]
    omega

/-- A loop that returns has sent exactly the requested page, and left the range that remains. -/
theorem pageRun_some (Ms : List (List α)) :
    ∀ (step k1 k2 : ℕ) (cache : CachePosition) (r : ComputeResult α), 1 ≤ k1 → k1 ≤ k2 →
      pageRun Ms step k1 k2 cache = some r → PageOutcome Ms step k1 k2 cache r := by
  induction Ms with
  | nil =>
      intro step k1 k2 cache r h1 h2 hrun
      simp only [pageRun, Option.some.injEq] at hrun
      subst hrun
      have hk : ¬ k2 ≤ 0 := by omega
      refine ⟨by simp, by simpa using hk, fun _ => ?_, fun _ => ?_, by simp⟩
      · simp only [List.flatten_nil, List.length_nil, restLow]
        rw [if_pos (by omega), Nat.sub_zero]
      · simp [restHigh]
  | cons M Ms ih =>
      intro step k1 k2 cache r h1 h2 hrun
      rw [pageRun] at hrun
      rcases pageStep_cases M step k2 cache h1 with
        ⟨hlt, -, hs⟩ | ⟨hlt, hstep, x, hs⟩ | ⟨-, -, hs⟩ | ⟨hge, hlt, hs⟩ | ⟨hge, hs⟩
      · rw [hs] at hrun
        simp only [Bool.false_eq_true, if_false, Option.map_eq_some_iff] at hrun
        obtain ⟨r', hr', rfl⟩ := hrun
        have hout := ih _ _ _ _ _ (by omega) (by omega) hr'
        rw [show k1 - M.length = restLow k1 M.length from (if_pos hlt).symm] at hout
        exact hout.cons h1 (by omega) (page_eq_nil_of_length_lt h1 hlt).symm (by omega)
      · rw [hs] at hrun
        simp only [Bool.false_eq_true, if_false, Option.map_eq_some_iff] at hrun
        obtain ⟨r', hr', rfl⟩ := hrun
        have hout := ih _ _ _ _ _ (by omega) (by omega) hr'
        rw [show k1 - M.length = restLow k1 M.length from (if_pos hlt).symm] at hout
        refine hout.cons h1 (by omega) (page_eq_nil_of_length_lt h1 hlt).symm ?_
        simp only [List.length_append, List.length_singleton]
        omega
      · rw [hs] at hrun
        simp at hrun
      · rw [hs] at hrun
        simp only [Bool.false_eq_true, if_false, Option.map_eq_some_iff] at hrun
        obtain ⟨r', hr', rfl⟩ := hrun
        have hlow : restLow k1 M.length = 1 := if_neg (by omega)
        have hout : PageOutcome Ms (step + 1) (restLow k1 M.length) (restHigh k2 M.length) cache
            r' := by
          rw [hlow]
          exact ih _ _ _ _ _ le_rfl (by rw [restHigh]; omega) hr'
        exact hout.cons h1 hlt rfl (by omega)
      · rw [hs] at hrun
        simp only [if_true, Option.some.injEq] at hrun
        subst hrun
        have hlen : k2 ≤ (M :: Ms).flatten.length := by
          simp only [List.flatten_cons, List.length_append]
          omega
        refine ⟨?_, by simpa using hlen, by simp, by simp, by simp⟩
        rw [List.flatten_cons, page_append h1, if_pos hge, List.append_nil]

-- Once a step beyond the cache has sent a model the cache is out of step for good: the next step
-- without models fails the assertion.  Here `k1 = 1`, so "sends nothing" is "has no models".
private lemma pageRun_none_of_behind (Ms : List (List α)) :
    ∀ (step k2 : ℕ) (cache : CachePosition), 1 ≤ k2 → cache.mark.length + 1 < step →
      (pageRun Ms step 1 k2 cache = none ↔
        ∃ t, t < Ms.length ∧ (Ms.map List.length).getD t 1 = 0 ∧
          ((Ms.map List.length).take t).sum < k2) := by
  induction Ms with
  | nil => intro step k2 cache _ _; simp [pageRun]
  | cons M Ms ih =>
      intro step k2 cache h2 hbehind
      rw [pageRun]
      rcases pageStep_cases M step k2 cache le_rfl with
        ⟨-, h, -⟩ | ⟨-, h, -⟩ | ⟨hlt, -, hs⟩ | ⟨hge, hlt, hs⟩ | ⟨hge, hs⟩
      · omega
      · omega
      · rw [hs]
        refine ⟨fun _ => ⟨0, by simp, ?_, by simp; omega⟩, fun _ => rfl⟩
        simp only [List.map_cons, List.getD_cons_zero]
        omega
      · rw [hs]
        simp only [Bool.false_eq_true, if_false, Option.map_eq_none_iff]
        rw [ih (step + 1) (k2 - M.length) cache (by omega) (by omega)]
        constructor
        · rintro ⟨t, ht, hz, hsum⟩
          refine ⟨t + 1, by simpa using ht, by simpa using hz, ?_⟩
          simp only [List.map_cons, List.take_succ_cons, List.sum_cons]
          omega
        · rintro ⟨t, ht, hz, hsum⟩
          cases t with
          | zero =>
              simp only [List.map_cons, List.getD_cons_zero] at hz
              omega
          | succ t =>
              simp only [List.map_cons, List.getD_cons_succ, List.take_succ_cons, List.sum_cons,
                List.length_cons] at ht hz hsum
              exact ⟨t, by omega, hz, by omega⟩
      · rw [hs]
        simp only [if_true, reduceCtorEq, false_iff]
        rintro ⟨t, ht, hz, hsum⟩
        cases t with
        | zero =>
            simp only [List.map_cons, List.getD_cons_zero] at hz
            omega
        | succ t =>
            simp only [List.map_cons, List.take_succ_cons, List.sum_cons] at hsum
            omega

/-- A step that sends nothing moves `Straddles` to the following steps. -/
private lemma straddles_cons_of_lt {n : ℕ} {ns : List ℕ} {recorded step k1 k2 : ℕ}
    (recorded' : ℕ) (hn : n < k1) (h2 : k1 ≤ k2)
    (hrec : ∀ j, recorded < step + (j + 1) ↔ recorded' < step + 1 + j) :
    Straddles recorded step (n :: ns) k1 k2 ↔
      Straddles recorded' (step + 1) ns (k1 - n) (k2 - n) := by
  constructor
  · rintro ⟨j, t, hjt, ht, hr, hpos, hk1, hz, hk2⟩
    cases j with
    | zero => simp at hk1; omega
    | succ j =>
        obtain ⟨t, rfl⟩ : ∃ t', t = t' + 1 := ⟨t - 1, by omega⟩
        simp only [List.take_succ_cons, List.sum_cons, List.getD_cons_succ, List.length_cons]
          at ht hpos hk1 hz hk2
        exact ⟨j, t, by omega, by omega, (hrec j).mp hr, hpos, by omega, hz, by omega⟩
  · rintro ⟨j, t, hjt, ht, hr, hpos, hk1, hz, hk2⟩
    refine ⟨j + 1, t + 1, by omega, by simpa using ht, (hrec j).mpr hr, by simpa using hpos, ?_,
      by simpa using hz, ?_⟩
    · rw [List.take_succ_cons, List.sum_cons]; omega
    · rw [List.take_succ_cons, List.sum_cons]; omega

/-- So does a recorded step that sends models without exhausting the range. -/
private lemma straddles_cons_of_recorded {n : ℕ} {ns : List ℕ} {recorded step k1 k2 : ℕ}
    (hn : k1 ≤ n) (hk : n < k2) (hrec : step ≤ recorded) :
    Straddles recorded step (n :: ns) k1 k2 ↔ Straddles recorded (step + 1) ns 1 (k2 - n) := by
  constructor
  · rintro ⟨j, t, hjt, ht, hr, hpos, hk1, hz, hk2⟩
    cases j with
    | zero => omega
    | succ j =>
        obtain ⟨t, rfl⟩ : ∃ t', t = t' + 1 := ⟨t - 1, by omega⟩
        simp only [List.take_succ_cons, List.sum_cons, List.getD_cons_succ,
          List.length_cons] at ht hpos hk1 hz hk2
        have hj : j < ns.length := by omega
        have hmem : ns[j] ∈ ns.take (j + 1) := by
          rw [List.take_add_one, List.getElem?_eq_getElem hj]
          exact List.mem_append_right _ (List.mem_singleton.mpr rfl)
        have hle := List.single_le_sum (fun _ _ => Nat.zero_le _) _ hmem
        have hpos' := hpos
        rw [List.getD_eq_getElem _ _ hj] at hpos'
        exact ⟨j, t, by omega, by omega, by omega, hpos, by omega, hz, by omega⟩
  · rintro ⟨j, t, hjt, ht, hr, hpos, hk1, hz, hk2⟩
    refine ⟨j + 1, t + 1, by omega, by simpa using ht, by omega, by simpa using hpos, ?_,
      by simpa using hz, ?_⟩
    · rw [List.take_succ_cons, List.sum_cons]; omega
    · rw [List.take_succ_cons, List.sum_cons]; omega

/-- A step that sends models and is not recorded: only a later step without models is missing. -/
private lemma straddles_cons_of_behind {n : ℕ} {ns : List ℕ} {recorded step k1 k2 : ℕ}
    (h1 : 1 ≤ k1) (hn : k1 ≤ n) (hk : n < k2) (hrec : recorded < step) :
    Straddles recorded step (n :: ns) k1 k2 ↔
      ∃ t, t < ns.length ∧ ns.getD t 1 = 0 ∧ (ns.take t).sum < k2 - n := by
  constructor
  · rintro ⟨j, t, hjt, ht, hr, hpos, hk1, hz, hk2⟩
    obtain ⟨t, rfl⟩ : ∃ t', t = t' + 1 := ⟨t - 1, by omega⟩
    simp only [List.take_succ_cons, List.sum_cons, List.getD_cons_succ,
      List.length_cons] at ht hz hk2
    exact ⟨t, by omega, hz, by omega⟩
  · rintro ⟨t, ht, hz, hsum⟩
    refine ⟨0, t + 1, by omega, by simpa using ht, by omega, ?_, ?_, by simpa using hz, ?_⟩
    · rw [List.getD_cons_zero]; omega
    · simp only [Nat.zero_add, List.take_succ_cons, List.take_zero, List.sum_cons, List.sum_nil]
      omega
    · rw [List.take_succ_cons, List.sum_cons]; omega

/-- Nothing straddles a range that the first step exhausts. -/
private lemma not_straddles_of_le {n : ℕ} {ns : List ℕ} {recorded step k1 k2 : ℕ} (hn : k2 ≤ n) :
    ¬ Straddles recorded step (n :: ns) k1 k2 := by
  rintro ⟨j, t, hjt, ht, hr, hpos, hk1, hz, hk2⟩
  obtain ⟨t, rfl⟩ : ∃ t', t = t' + 1 := ⟨t - 1, by omega⟩
  rw [List.take_succ_cons, List.sum_cons] at hk2
  omega

/-- As long as the cache is in step, the loop fails exactly when the counts straddle the range. -/
theorem pageRun_eq_none_iff (Ms : List (List α)) :
    ∀ (step k1 k2 : ℕ) (cache : CachePosition), 1 ≤ k1 → k1 ≤ k2 →
      step ≤ cache.mark.length + 1 →
        (pageRun Ms step k1 k2 cache = none ↔
          Straddles cache.mark.length step (Ms.map List.length) k1 k2) := by
  induction Ms with
  | nil =>
      intro step k1 k2 cache _ _ _
      simp [pageRun, Straddles]
  | cons M Ms ih =>
      intro step k1 k2 cache h1 h2 hsync
      rw [pageRun, List.map_cons]
      rcases pageStep_cases M step k2 cache h1 with
        ⟨hlt, hstep, hs⟩ | ⟨hlt, hstep, x, hs⟩ | ⟨hlt, hstep, hs⟩ | ⟨hge, hlt, hs⟩ | ⟨hge, hs⟩
      · rw [hs]
        simp only [Bool.false_eq_true, if_false, Option.map_eq_none_iff]
        rw [ih _ _ _ _ (by omega) (by omega) (by omega),
          straddles_cons_of_lt cache.mark.length hlt h2 (fun j => by omega)]
      · rw [hs]
        simp only [Bool.false_eq_true, if_false, Option.map_eq_none_iff]
        rw [ih _ _ _ _ (by omega) (by omega)
          (by simp only [List.length_append, List.length_singleton]; omega)]
        rw [straddles_cons_of_lt (cache.mark ++ [x]).length hlt h2
          (fun j => by simp only [List.length_append, List.length_singleton]; omega)]
      · omega
      · rw [hs]
        simp only [Bool.false_eq_true, if_false, Option.map_eq_none_iff]
        by_cases hin : step ≤ cache.mark.length
        · -- the step was recorded before: the cache stays in step
          rw [ih _ _ _ _ le_rfl (by omega) (by omega), straddles_cons_of_recorded hge hlt hin]
        · -- the step is the next to be recorded but sends models: the cache falls behind
          rw [pageRun_none_of_behind Ms _ _ _ (by omega) (by omega),
            straddles_cons_of_behind h1 hge hlt (by omega), List.length_map]
      · rw [hs]
        simp only [if_true, reduceCtorEq, false_iff]
        exact not_straddles_of_le hge

/-! ## Resuming at a later step -/

/-- Serve a range from step `p` on, with the range as it was requested.  The steps before `p` are
those a cache says can be skipped. -/
def pageFrom (p : ℕ) (Ms : List (List α)) (k1 k2 : ℕ) (cache : CachePosition) :
    Option (ComputeResult α) :=
  pageRun (Ms.drop p) p k1 k2 cache

/-- The steps before `p` have no model. -/
def SkipsNothing (p : ℕ) (ns : List ℕ) : Prop := (ns.take p).sum = 0

/-- The steps from `p` on do not make `updateCache` fail. -/
def RecordsInOrder (cache : CachePosition) (p : ℕ) (ns : List ℕ) (k1 k2 : ℕ) : Prop :=
  1 ≤ k1 → ¬ Straddles cache.mark.length p (ns.drop p) k1 k2

/-- When serving from `p` is right, for steps with `ns` models followed by `later` more models:
no model is skipped, or the range starts beyond the last model; and the steps are recorded in
order. -/
def InPlace (cache : CachePosition) (p : ℕ) (ns : List ℕ) (later k1 k2 : ℕ) : Prop :=
  (SkipsNothing p ns ∨ (1 ≤ k1 ∧ ns.sum + later < k1)) ∧ RecordsInOrder cache p ns k1 k2

instance (cache : CachePosition) (p : ℕ) (ns : List ℕ) (k1 k2 : ℕ) :
    Decidable (RecordsInOrder cache p ns k1 k2) := inferInstanceAs (Decidable (_ → _))

instance (cache : CachePosition) (p : ℕ) (ns : List ℕ) (later k1 k2 : ℕ) :
    Decidable (InPlace cache p ns later k1 k2) :=
  inferInstanceAs (Decidable (((ns.take p).sum = 0 ∨ _) ∧ _))

variable {Ms : List (List α)} {p k1 k2 : ℕ} {cache : CachePosition}

lemma flatten_eq_take_append_drop (Ms : List (List α)) (p : ℕ) :
    Ms.flatten = (Ms.take p).flatten ++ (Ms.drop p).flatten := by
  rw [← List.flatten_append, List.take_append_drop]

lemma length_flatten_take (Ms : List (List α)) (p : ℕ) :
    (Ms.take p).flatten.length = ((Ms.map List.length).take p).sum := by
  rw [List.length_flatten, List.map_take]

lemma SkipsNothing.flatten_drop (h : SkipsNothing p (Ms.map List.length)) :
    (Ms.drop p).flatten = Ms.flatten := by
  have hnil : (Ms.take p).flatten = [] := by
    rw [← List.length_eq_zero_iff, length_flatten_take]
    exact h
  rw [flatten_eq_take_append_drop Ms p, hnil, List.nil_append]

/-- What is left when `p` steps are skipped is the list without its first models. -/
lemma flatten_drop_eq (Ms : List (List α)) (p : ℕ) :
    (Ms.drop p).flatten = Ms.flatten.drop ((Ms.map List.length).take p).sum := by
  rw [flatten_eq_take_append_drop Ms p, ← length_flatten_take, List.drop_left]

lemma length_flatten_drop_le (Ms : List (List α)) (p : ℕ) :
    (Ms.drop p).flatten.length ≤ Ms.flatten.length := by
  rw [flatten_drop_eq, List.length_drop]
  exact Nat.sub_le _ _

/-- A served range fails exactly when its steps are recorded out of order. -/
lemma pageFrom_eq_none_iff (hp : p ≤ cache.mark.length) (hadm : Admissible k1 k2) :
    pageFrom p Ms k1 k2 cache = none ↔
      ¬ RecordsInOrder cache p (Ms.map List.length) k1 k2 := by
  rw [pageFrom, RecordsInOrder, ← List.map_drop]
  rcases hadm with ⟨rfl, rfl⟩ | ⟨h1, h2⟩
  · simp [pageRun_all]
  · rw [pageRun_eq_none_iff _ _ _ _ _ h1 h2 (by omega)]
    tauto

/-- What serving from `p` has done when it returns. -/
structure ServeOutcome (p : ℕ) (Ms : List (List α)) (k1 k2 : ℕ) (cache : CachePosition)
    (r : ComputeResult α) : Prop where
  sent : r.sent = page k1 k2 (Ms.drop p).flatten
  finished : r.finished = true ↔ 1 ≤ k1 ∧ k2 ≤ (Ms.drop p).flatten.length
  admissible : r.finished = false → Admissible r.k1 r.k2
  append : r.finished = false → ∀ B, page k1 k2 ((Ms.drop p).flatten ++ B) =
    r.sent ++ page r.k1 r.k2 B
  beyond : r.finished = false → ∀ n, 1 ≤ k1 → (Ms.drop p).flatten.length + n < k1 →
    1 ≤ r.k1 ∧ n < r.k1
  recorded_le : r.cache.mark.length ≤ max cache.mark.length (p + (Ms.length - p) - 1)

/-- What a loop that resumes at a later step sends, leaves of the range and records. -/
theorem pageFrom_some (hadm : Admissible k1 k2) {r : ComputeResult α}
    (h : pageFrom p Ms k1 k2 cache = some r) : ServeOutcome p Ms k1 k2 cache r := by
  rcases hadm with ⟨rfl, rfl⟩ | ⟨h1, h2⟩
  · rw [pageFrom, pageRun_all, Option.some.injEq] at h
    subst h
    exact ⟨by simp, by simp, fun _ => Or.inl ⟨rfl, rfl⟩, by simp, by simp, Nat.le_max_left _ _⟩
  · have hout := pageRun_some _ _ _ _ _ _ h1 h2 h
    have hrest : r.finished = false → (Ms.drop p).flatten.length < k2 := by
      intro hf
      have := hout.finished
      rw [hf] at this
      simpa using this.symm
    refine ⟨hout.sent, ?_, ?_, ?_, ?_, ?_⟩
    · rw [hout.finished, decide_eq_true_iff]
      exact ⟨fun h => ⟨h1, h⟩, fun h => h.2⟩
    · intro hf
      rw [hout.low hf, hout.high hf]
      exact Or.inr ⟨restLow_pos, restLow_le_restHigh h2 (hrest hf)⟩
    · intro hf B
      rw [page_append h1, if_neg (not_le.mpr (hrest hf)), hout.sent, hout.low hf, hout.high hf]
    · intro hf n _ hn
      rw [hout.low hf, restLow, if_pos (by omega)]
      omega
    · simpa using hout.recorded_le

lemma RecordsInOrder.exists_some (hp : p ≤ cache.mark.length) (hadm : Admissible k1 k2)
    (h : RecordsInOrder cache p (Ms.map List.length) k1 k2) :
    ∃ r, pageFrom p Ms k1 k2 cache = some r :=
  Option.ne_none_iff_exists'.mp (fun hnone => (pageFrom_eq_none_iff hp hadm).mp hnone h)

/-! ## A list of inputs -/

/-- The step to begin an input with: the cached position if the input needs guesses, else `0`. -/
def startStep (guess : Bool) (cache : CachePosition) (k1 : ℕ) : ℕ :=
  if guess then cache.findPosition k1 else 0

lemma startStep_le (guess : Bool) (cache : CachePosition) (k1 : ℕ) :
    startStep guess cache k1 ≤ cache.mark.length := by
  unfold startStep
  split
  · exact cache.findPosition_le k1
  · exact Nat.zero_le _

/-- One input after the other, each with its own model lists, until the range is exhausted. -/
def pageInputs : List (Bool × List (List α)) → ℕ → ℕ → CachePosition →
    Option (List α × CachePosition)
  | [], _, _, cache => some ([], cache)
  | (guess, Ms) :: items, k1, k2, cache =>
      match pageFrom (startStep guess cache k1) Ms k1 k2 cache with
      | none => none
      | some r =>
          if r.finished then some (r.sent, r.cache)
          else (pageInputs items r.k1 r.k2 r.cache).map (fun o => (r.sent ++ o.1, o.2))

/-- The models of all inputs, in order. -/
def inputsModels (items : List (Bool × List (List α))) : List α :=
  (items.map (fun item => item.2.flatten)).flatten

/-- Every input that is reached is served in place. -/
def AllInPlace : List (Bool × List (List α)) → ℕ → ℕ → CachePosition → Prop
  | [], _, _, _ => True
  | (guess, Ms) :: items, k1, k2, cache =>
      InPlace cache (startStep guess cache k1) (Ms.map List.length) (inputsModels items).length
          k1 k2 ∧
        ∀ r, pageFrom (startStep guess cache k1) Ms k1 k2 cache = some r → r.finished = false →
          AllInPlace items r.k1 r.k2 r.cache

instance AllInPlace.decidable : ∀ (items : List (Bool × List (List α))) (k1 k2 : ℕ)
    (cache : CachePosition), Decidable (AllInPlace items k1 k2 cache)
  | [], _, _, _ => isTrue trivial
  | (guess, Ms) :: items, k1, k2, cache =>
      have := AllInPlace.decidable items
      inferInstanceAs (Decidable (_ ∧
        ∀ r ∈ pageFrom (startStep guess cache k1) Ms k1 k2 cache, r.finished = false →
          AllInPlace items r.k1 r.k2 r.cache))

variable {items : List (Bool × List (List α))}

@[simp] lemma inputsModels_nil : inputsModels ([] : List (Bool × List (List α))) = [] := rfl

@[simp] lemma inputsModels_cons (item : Bool × List (List α)) :
    inputsModels (item :: items) = item.2.flatten ++ inputsModels items := rfl

lemma pageInputs_singleton (Ms : List (List α)) :
    pageInputs [(true, Ms)] k1 k2 cache =
      (pageFrom (cache.findPosition k1) Ms k1 k2 cache).map (fun r => (r.sent, r.cache)) := by
  simp only [pageInputs, startStep, if_true]
  cases pageFrom (cache.findPosition k1) Ms k1 k2 cache with
  | none => rfl
  | some r => by_cases hf : r.finished = true <;> simp [hf]

/-- The request `(0, 0)` to a fresh cache is served with everything. -/
lemma pageInputs_all (items : List (Bool × List (List α))) :
    pageInputs items 0 0 .init = some (inputsModels items, .init) := by
  induction items with
  | nil => rfl
  | cons item items ih =>
      obtain ⟨guess, Ms⟩ := item
      have hstart : startStep guess .init 0 = 0 := by
        cases guess <;> simp [startStep]
      rw [pageInputs, hstart, pageFrom, List.drop_zero, pageRun_all]
      simp [ih]

/-- Serving never records a step beyond the last one of any input. -/
lemma pageInputs_recorded {n : ℕ} (hadm : Admissible k1 k2)
    (hn : ∀ item ∈ items, item.2.length ≤ n) (hc : cache.mark.length < n)
    {o : List α × CachePosition} (ho : pageInputs items k1 k2 cache = some o) :
    o.2.mark.length < n := by
  induction items generalizing k1 k2 cache o with
  | nil =>
      rw [pageInputs, Option.some.injEq] at ho
      exact ho ▸ hc
  | cons item items ih =>
      obtain ⟨guess, Ms⟩ := item
      rw [pageInputs] at ho
      cases hr : pageFrom (startStep guess cache k1) Ms k1 k2 cache with
      | none => simp [hr] at ho
      | some r =>
          have hout := pageFrom_some hadm hr
          have hle := hout.recorded_le
          have hp := startStep_le guess cache k1
          have hMs := hn _ (List.mem_cons_self ..)
          have hrc : r.cache.mark.length < n := by simp only at hMs; omega
          simp only [hr] at ho
          by_cases hf : r.finished = true
          · rw [if_pos hf, Option.some.injEq] at ho
            exact ho ▸ hrc
          · rw [if_neg hf, Option.map_eq_some_iff] at ho
            obtain ⟨o', ho', rfl⟩ := ho
            rw [Bool.not_eq_true] at hf
            exact ih (o := o') (hout.admissible hf)
              (fun i hi => hn i (List.mem_cons_of_mem _ hi)) hrc ho'

/-- Serving in place sends the requested page of all models. -/
theorem AllInPlace.sent_eq (hadm : Admissible k1 k2) (h : AllInPlace items k1 k2 cache) :
    ∃ o, pageInputs items k1 k2 cache = some o ∧ o.1 = page k1 k2 (inputsModels items) := by
  induction items generalizing k1 k2 cache with
  | nil => exact ⟨([], cache), rfl, by simp⟩
  | cons item items ih =>
      obtain ⟨guess, Ms⟩ := item
      obtain ⟨⟨hskip, hrec⟩, hlater⟩ := h
      set p := startStep guess cache k1 with hp
      obtain ⟨r, hr⟩ := hrec.exists_some (startStep_le guess cache k1) hadm
      have hout := pageFrom_some hadm hr
      rw [pageInputs, ← hp, hr]
      -- either nothing is skipped, or nothing is asked for from here on
      have hpage : page k1 k2 (inputsModels ((guess, Ms) :: items)) =
          page k1 k2 ((Ms.drop p).flatten ++ inputsModels items) := by
        rcases hskip with hskip | ⟨h1, hbeyond⟩
        · rw [inputsModels_cons, hskip.flatten_drop]
        · rw [← List.length_flatten] at hbeyond
          have hle := length_flatten_drop_le Ms p
          rw [page_eq_nil_of_length_lt h1, page_eq_nil_of_length_lt h1]
          · simp only [List.length_append]; omega
          · simp only [inputsModels_cons, List.length_append]; omega
      rw [hpage]
      simp only
      by_cases hf : r.finished = true
      · rw [if_pos hf]
        obtain ⟨h1, hk⟩ := hout.finished.mp hf
        refine ⟨_, rfl, ?_⟩
        rw [page_append h1, if_pos hk, List.append_nil]
        exact hout.sent
      · rw [if_neg hf]
        rw [Bool.not_eq_true] at hf
        obtain ⟨o, ho, hsent⟩ := ih (hout.admissible hf) (hlater r hr hf)
        refine ⟨_, by rw [ho]; rfl, ?_⟩
        rw [hout.append hf, ← hsent]

/-- Whatever is skipped, what is sent is a page of a part of the models. -/
lemma pageInputs_sent (hadm : Admissible k1 k2) {o : List α × CachePosition}
    (h : pageInputs items k1 k2 cache = some o) :
    ∃ L, L.Sublist (inputsModels items) ∧ o.1 = page k1 k2 L := by
  induction items generalizing k1 k2 cache o with
  | nil =>
      rw [pageInputs, Option.some.injEq] at h
      exact ⟨[], List.Sublist.refl _, by rw [← h, page_nil]⟩
  | cons item items ih =>
      obtain ⟨guess, Ms⟩ := item
      rw [pageInputs] at h
      set p := startStep guess cache k1
      have hdrop : ((Ms.drop p).flatten).Sublist Ms.flatten := by
        rw [flatten_drop_eq]
        exact List.drop_sublist _ _
      cases hr : pageFrom p Ms k1 k2 cache with
      | none => simp [hr] at h
      | some r =>
          have hout := pageFrom_some hadm hr
          simp only [hr] at h
          by_cases hf : r.finished = true
          · rw [if_pos hf, Option.some.injEq] at h
            refine ⟨(Ms.drop p).flatten, ?_, by rw [← h, hout.sent]⟩
            exact hdrop.trans (List.sublist_append_left _ _)
          · rw [if_neg hf, Option.map_eq_some_iff] at h
            rw [Bool.not_eq_true] at hf
            obtain ⟨o', ho', rfl⟩ := h
            obtain ⟨L, hL, hsent⟩ := ih (hout.admissible hf) ho'
            refine ⟨(Ms.drop p).flatten ++ L, hdrop.append hL, ?_⟩
            rw [hout.append hf, hsent]

/-- Serving that skips a model it should count does not send the requested page. -/
private lemma pageFrom_ne_of_skips {B : List α} (hadm : Admissible k1 k2)
    (hnd : (Ms.flatten ++ B).Nodup) (hskip : ¬ SkipsNothing p (Ms.map List.length))
    (hk : k1 = 0 ∨ k1 ≤ Ms.flatten.length + B.length) {r : ComputeResult α}
    (hr : pageFrom p Ms k1 k2 cache = some r) {sent : List α}
    (hsent : (r.finished = true ∧ sent = r.sent) ∨
      (r.finished = false ∧ ∃ L, L.Sublist B ∧ sent = r.sent ++ page r.k1 r.k2 L)) :
    sent ≠ page k1 k2 (Ms.flatten ++ B) := by
  have hout := pageFrom_some hadm hr
  set d := ((Ms.map List.length).take p).sum with hd
  have hdle : d ≤ Ms.flatten.length := by
    rw [hd, ← length_flatten_take, flatten_eq_take_append_drop Ms p, List.length_append]
    exact Nat.le_add_right _ _
  have hdrop : (Ms.flatten ++ B).drop d = (Ms.drop p).flatten ++ B := by
    rw [List.drop_append_of_le_length hdle, flatten_drop_eq]
  obtain ⟨L, hL, rfl⟩ : ∃ L, L.Sublist ((Ms.flatten ++ B).drop d) ∧ sent = page k1 k2 L := by
    rw [hdrop]
    rcases hsent with ⟨-, rfl⟩ | ⟨hf, L, hL, rfl⟩
    · exact ⟨_, List.sublist_append_left _ _, hout.sent⟩
    · exact ⟨_, (List.Sublist.refl _).append hL, (hout.append hf L).symm⟩
  refine page_ne_of_sublist_drop hnd hadm hL (Nat.pos_of_ne_zero hskip) ?_ ?_
  · rw [List.length_append]; omega
  · rw [List.length_append]; exact hk

/-- With pairwise different models the requested page is sent only when every input is served in
place. -/
theorem AllInPlace.of_sent_eq (hadm : Admissible k1 k2) (hnd : (inputsModels items).Nodup)
    {o : List α × CachePosition} (ho : pageInputs items k1 k2 cache = some o)
    (hsent : o.1 = page k1 k2 (inputsModels items)) : AllInPlace items k1 k2 cache := by
  induction items generalizing k1 k2 cache o with
  | nil => trivial
  | cons item items ih =>
      obtain ⟨guess, Ms⟩ := item
      rw [pageInputs] at ho
      rw [AllInPlace]
      have hple := startStep_le guess cache k1
      set p := startStep guess cache k1
      simp only [inputsModels_cons] at hnd hsent
      cases hr : pageFrom p Ms k1 k2 cache with
      | none => simp [hr] at ho
      | some r =>
          have hout := pageFrom_some hadm hr
          have hrec : RecordsInOrder cache p (Ms.map List.length) k1 k2 := by
            by_contra hno
            rw [(pageFrom_eq_none_iff hple hadm).mpr hno] at hr
            simp at hr
          simp only [hr] at ho
          have hskip : SkipsNothing p (Ms.map List.length) ∨
              (1 ≤ k1 ∧ (Ms.map List.length).sum + (inputsModels items).length < k1) := by
            by_contra hno
            rw [not_or] at hno
            refine pageFrom_ne_of_skips hadm hnd hno.1 (by rw [← List.length_flatten] at hno; omega)
              hr ?_ hsent
            by_cases hf : r.finished = true
            · rw [if_pos hf, Option.some.injEq] at ho
              exact Or.inl ⟨hf, by rw [← ho]⟩
            · rw [if_neg hf, Option.map_eq_some_iff] at ho
              rw [Bool.not_eq_true] at hf
              obtain ⟨o', ho', rfl⟩ := ho
              obtain ⟨L, hL, hsent'⟩ := pageInputs_sent (hout.admissible hf) ho'
              exact Or.inr ⟨hf, L, hL, by rw [hsent']⟩
          refine ⟨⟨hskip, hrec⟩, fun r' hr' hf => ?_⟩
          rw [Option.some.injEq] at hr'
          subst hr'
          rw [hf, if_neg (by simp), Option.map_eq_some_iff] at ho
          obtain ⟨o', ho', rfl⟩ := ho
          refine ih (hout.admissible hf) (List.nodup_append.mp hnd).2.1 ho' ?_
          rcases hskip with hskip | ⟨h1, hbeyond⟩
          · rw [← hskip.flatten_drop, hout.append hf] at hsent
            exact List.append_cancel_left hsent
          · rw [← List.length_flatten] at hbeyond
            have hle := length_flatten_drop_le Ms p
            obtain ⟨h1', hlt⟩ := hout.beyond hf (inputsModels items).length h1 (by omega)
            rw [page_eq_nil_of_length_lt h1 (by rw [List.length_append]; omega)] at hsent
            rw [page_eq_nil_of_length_lt h1' hlt]
            exact (List.append_eq_nil_iff.mp hsent).2

end PageRun

end Dmcs
