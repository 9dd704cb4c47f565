import Mathlib.Algebra.Order.Ring.Nat
import Mathlib.Data.List.Basic
import Mathlib.Tactic.Common

/-!
# The position cache of a context (`CachePosition`)

`mark` holds, for the guess steps `1, 2, …` recorded so far, the running total of models those steps
produced, on `size_t`.  `updateCache` appends one entry and asserts that steps are recorded without
a gap; `findPosition` is a binary search that returns the step at which to resume for a request
starting at model `k`.

A failing assertion is `none`.

## The code

`updateCache` follows `update_cache`: step `index` must be the next one or one that is there
already, in which case nothing is changed.  The totals are kept modulo `2 ^ 64`, since `k` is added
to the last mark on `size_t`.

`searchLoop` is the loop of `find_position` and the test after it.  The loop takes the length of the
cache as its fuel, and more fuel never changes the result, which `FindPosition` proves together with
what the result is.
-/

namespace Dmcs

/-- The vector of running totals. -/
structure CachePosition where
  mark : List ℕ
  deriving DecidableEq

namespace CachePosition

/-- A fresh cache. -/
def init : CachePosition := ⟨[]⟩

/-- `update_cache(index, k)`. -/
def updateCache (c : CachePosition) (index k : ℕ) : Option CachePosition :=
  if index ≤ c.mark.length then some c
  else if index = c.mark.length + 1 then
    if index = 1 then some ⟨c.mark ++ [k]⟩
    else some ⟨c.mark ++ [(k + c.mark.getLastD 0) % 2 ^ 64]⟩
  else none

/-- The `while (beg+1 < end)` loop of `find_position` and the tests after it.  `fuel` bounds the
number of halvings. -/
def searchLoop (mark : List ℕ) (k : ℕ) : ℕ → ℕ → ℕ → ℕ
  | 0, beg, _ => if mark.getD beg 0 = k then beg else beg + 1
  | fuel + 1, beg, stop =>
      if beg + 1 < stop then
        let mid := (beg + stop) / 2
        if mark.getD mid 0 < k then searchLoop mark k fuel mid stop
        else if mark.getD mid 0 > k then searchLoop mark k fuel beg mid
        else mid
      else if mark.getD beg 0 = k then beg else beg + 1

/-- `find_position(k)`. -/
def findPosition (c : CachePosition) (k : ℕ) : ℕ :=
  if c.mark = [] then 0 else searchLoop c.mark k c.mark.length 0 c.mark.length

/-- The fuel is enough: every halving shrinks `stop - beg`, so the loop always leaves through its
own test. -/
lemma searchLoop_succ (mark : List ℕ) (k : ℕ) :
    ∀ (fuel beg stop : ℕ), stop ≤ fuel + beg + 1 →
      searchLoop mark k (fuel + 1) beg stop = searchLoop mark k fuel beg stop := by
  intro fuel
  induction fuel with
  | zero =>
      intro beg stop h
      have : ¬ beg + 1 < stop := by omega
      simp [searchLoop, this]
  | succ fuel ih =>
      intro beg stop h
      rw [searchLoop]
      conv_rhs => rw [searchLoop]
      split
      · simp only
        rw [ih _ stop (by omega), ih beg _ (by omega)]
      · rfl

lemma searchLoop_le (mark : List ℕ) (k : ℕ) :
    ∀ (fuel beg stop : ℕ), beg < stop → searchLoop mark k fuel beg stop ≤ stop := by
  intro fuel
  induction fuel with
  | zero =>
      intro beg stop h
      rw [searchLoop]
      split <;> omega
  | succ fuel ih =>
      intro beg stop h
      rw [searchLoop]
      split
      · simp only
        split
        · exact ih _ _ (by omega)
        · split
          · have := ih beg ((beg + stop) / 2) (by omega)
            omega
          · omega
      · split <;> omega

/-- The position found never lies beyond the recorded steps. -/
lemma findPosition_le (c : CachePosition) (k : ℕ) : c.findPosition k ≤ c.mark.length := by
  unfold findPosition
  split
  · simp
  · rename_i hne
    exact searchLoop_le _ _ _ _ _ (List.length_pos_iff.mpr hne)

@[simp] lemma findPosition_init (k : ℕ) : init.findPosition k = 0 := by
  simp [findPosition, init]

/-- Everything `updateCache` can do: keep the cache, append the next step, or fail on a gap. -/
lemma updateCache_cases (c : CachePosition) (index k : ℕ) :
    (index ≤ c.mark.length ∧ c.updateCache index k = some c) ∨
    (index = c.mark.length + 1 ∧
      ∃ x, c.updateCache index k = some ⟨c.mark ++ [x]⟩) ∨
    (c.mark.length + 1 < index ∧ c.updateCache index k = none) := by
  unfold updateCache
  by_cases h1 : index ≤ c.mark.length
  · exact Or.inl ⟨h1, if_pos h1⟩
  · by_cases h2 : index = c.mark.length + 1
    · refine Or.inr (Or.inl ⟨h2, ?_⟩)
      rw [if_neg h1, if_pos h2]
      split
      · exact ⟨k, rfl⟩
      · exact ⟨_, rfl⟩
    · exact Or.inr (Or.inr ⟨by omega, by rw [if_neg h1, if_neg h2]⟩)

end CachePosition

end Dmcs
