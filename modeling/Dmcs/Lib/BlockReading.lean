import Mathlib.Data.Finset.Card
import Mathlib.Data.Finset.Dedup
import Mathlib.Order.Monotone.Basic
import Mathlib.Tactic.Common

/-!
# Reading a list in blocks

A reader with `n` open places reads the next `n` positions of a list; every distinct element of the
block takes one place, and with the places that are still open it reads on.  It stops when no place
is open or a block is empty.  `reads n l` is how far it gets.

Which elements are the first distinct ones of a list is a question of their number
(`toFinset_take_eq_iff`).  A reader that compares the number of its elements with a running
difference notices a standstill only if it comes at once (`difference_pos`).
-/

namespace BlockReading

variable {α : Type*} [DecidableEq α]

/-! ## Blocks -/

lemma card_take_le (n : ℕ) (l : List α) : (l.take n).toFinset.card ≤ n :=
  (List.toFinset_card_le _).trans (List.length_take_le n l)

/-- The number of positions that are read. -/
def reads (n : ℕ) (l : List α) : ℕ :=
  if (l.take n).toFinset.card = 0 then n
  else n + reads (n - (l.take n).toFinset.card) (l.drop n)
termination_by n
decreasing_by
  have hle := card_take_le n l
  omega

lemma reads_of_empty {n : ℕ} {l : List α} (h : (l.take n).toFinset.card = 0) : reads n l = n := by
  rw [reads, if_pos h]

lemma reads_of_found {n : ℕ} {l : List α} (h : (l.take n).toFinset.card ≠ 0) :
    reads n l = n + reads (n - (l.take n).toFinset.card) (l.drop n) := by
  rw [reads, if_neg h]

lemma reads_zero (l : List α) : reads 0 l = 0 := reads_of_empty (by simp)

lemma le_reads (n : ℕ) (l : List α) : n ≤ reads n l := by
  by_cases h : (l.take n).toFinset.card = 0
  · exact le_of_eq (reads_of_empty h).symm
  · rw [reads_of_found h]
    exact Nat.le_add_right n _

/-- What stands in the first block and what is read after it. -/
lemma toFinset_take_add (m n : ℕ) (l : List α) :
    (l.take (m + n)).toFinset = (l.take m).toFinset ∪ ((l.drop m).take n).toFinset := by
  rw [List.take_add, List.toFinset_append]

/-- Reading on from inside what was read leaves no gap. -/
lemma toFinset_take_union {start covered n : ℕ} (h : start ≤ covered) (l : List α) :
    (l.take covered).toFinset ∪ ((l.drop start).take n).toFinset =
      (l.take (max covered (start + n))).toFinset := by
  have hsplit : (l.take covered).toFinset =
      (l.take start).toFinset ∪ ((l.drop start).take (covered - start)).toFinset := by
    rw [← toFinset_take_add, Nat.add_sub_cancel' h]
  rcases Nat.le_total covered (start + n) with hle | hle
  · rw [max_eq_right hle, toFinset_take_add, hsplit, Finset.union_assoc]
    congr 1
    apply Finset.union_eq_right.2
    intro x hx
    rw [List.mem_toFinset] at hx ⊢
    exact List.take_subset_take_left _ (by omega) hx
  · rw [max_eq_left hle]
    apply Finset.union_eq_left.2
    rw [hsplit]
    intro x hx
    apply Finset.mem_union_right
    rw [List.mem_toFinset] at hx ⊢
    exact List.take_subset_take_left _ (by omega) hx

/-! ## The first distinct elements -/

/-- The first `n` distinct elements of a list, or all of them. -/
def firstDistinct (n : ℕ) (l : List α) : Finset α := (l.eraseDups.take n).toFinset

lemma nodup_eraseDups (l : List α) : l.eraseDups.Nodup := by
  induction hn : l.length using Nat.strongRecOn generalizing l with
  | ind n ih =>
      cases l with
      | nil => exact List.nodup_nil
      | cons a l =>
          rw [List.eraseDups_cons, List.nodup_cons]
          constructor
          · rw [List.mem_eraseDups, List.mem_filter]
            rintro ⟨-, h⟩
            simp at h
          · apply ih _ _ _ rfl
            rw [← hn, List.length_cons]
            exact Nat.lt_succ_of_le (List.length_filter_le _ l)

lemma toFinset_eraseDups (l : List α) : l.eraseDups.toFinset = l.toFinset := by
  ext x
  rw [List.mem_toFinset, List.mem_toFinset, List.mem_eraseDups]

lemma length_eraseDups (l : List α) : l.eraseDups.length = l.toFinset.card := by
  rw [← toFinset_eraseDups, List.toFinset_card_of_nodup (nodup_eraseDups l)]

lemma card_firstDistinct (n : ℕ) (l : List α) :
    (firstDistinct n l).card = min n l.toFinset.card := by
  unfold firstDistinct
  rw [List.toFinset_card_of_nodup ((nodup_eraseDups l).sublist (List.take_sublist n _)),
    List.length_take, length_eraseDups]

/-- The elements up to a position are the first distinct ones if they are as many. -/
lemma toFinset_take_eq_iff (n c : ℕ) (l : List α) :
    (l.take c).toFinset = firstDistinct n l ↔
      (l.take c).toFinset.card = min n l.toFinset.card := by
  constructor
  · intro h
    rw [h, card_firstDistinct]
  · intro h
    have hinit : (l.take c).eraseDups <+: l.eraseDups := by
      conv_rhs => rw [← List.take_append_drop c l, List.eraseDups_append]
      exact List.prefix_append _ _
    have hlength : (l.take c).eraseDups.length = min n l.eraseDups.length := by
      rw [length_eraseDups, length_eraseDups, h]
    have htake : (l.take c).eraseDups = l.eraseDups.take n := by
      rw [List.prefix_iff_eq_take.1 hinit, hlength]
      exact List.take_eq_take_min.symm
    unfold firstDistinct
    rw [← htake, toFinset_eraseDups]

/-! ## The running difference -/

/-- The difference between a number and the last difference. -/
def difference (s : ℕ → ℕ) : ℕ → ℕ
  | 0 => s 0
  | j + 1 => s (j + 1) - difference s j

lemma difference_le (s : ℕ → ℕ) (j : ℕ) : difference s j ≤ s j := by
  cases j with
  | zero => exact Nat.le_refl _
  | succ j => exact Nat.sub_le _ _

/-- Every second difference is at least as large. -/
lemma difference_le_add_two {s : ℕ → ℕ} (hs : Monotone s) (j : ℕ) :
    difference s j ≤ difference s (j + 2) := by
  have hle := difference_le s j
  have h₁ := hs (Nat.le_add_right j 1)
  have h₂ : s (j + 1) ≤ s (j + 2) := hs (Nat.le_add_right (j + 1) 1)
  show difference s j ≤ s (j + 2) - (s (j + 1) - difference s j)
  omega

/-- If the number was positive and then rose, no difference is zero. -/
lemma difference_pos {s : ℕ → ℕ} (hs : Monotone s) (h₀ : 0 < s 0) (h₁ : s 0 < s 1) (j : ℕ) :
    0 < difference s j := by
  induction j using Nat.strongRecOn with
  | ind j ih =>
      match j, ih with
      | 0, _ => exact h₀
      | 1, _ => exact Nat.sub_pos_of_lt h₁
      | j + 2, ih => exact lt_of_lt_of_le (ih j (by omega)) (difference_le_add_two hs j)

end BlockReading
