import Mathlib.Data.List.Basic
import Mathlib.Data.Nat.Bitwise
import Mathlib.Data.List.Sort
import Mathlib.Data.List.Range

/-!
# Scanning the set bits of a fixed-width bit vector

Sparse bit-vector libraries expose a vector through *point updates* (`setBit`) and a *cursor*:
`firstOne` returns the lowest set bit and `nextOne b p` the lowest set bit strictly above `p`,
both returning `0` when there is none.  Code that walks a vector with such a cursor is a loop over
positions; what it means is a recursion over the ascending list of set bits.

`above b p` is the part of that list the cursor at `p` still has in front of it.  The two rules
`nextOne_of_above_nil` and `nextOne_of_above_cons` are all a proof about a cursor loop needs: they
turn the loop's induction into an induction over `above b p`.
-/

namespace BitScan

variable {w : ℕ}

/-- Write the bit at `pos`; positions outside the vector are ignored. -/
def setBit (b : BitVec w) (pos : ℕ) (v : Bool) : BitVec w :=
  if v then b ||| BitVec.twoPow w pos else b &&& ~~~(BitVec.twoPow w pos)

@[simp] lemma getLsbD_setBit (b : BitVec w) (pos i : ℕ) (v : Bool) :
    (setBit b pos v).getLsbD i = if i = pos ∧ i < w then v else b.getLsbD i := by
  by_cases hi : i < w
  · by_cases hp : i = pos
    · subst hp
      cases v <;> simp [setBit, hi]
    · cases v <;> simp [setBit, hi, hp]
  · have hw : w ≤ i := not_lt.mp hi
    cases v <;> simp [setBit, hi, BitVec.getLsbD_of_ge _ _ hw]

/-- The vector whose bits are given by a predicate, written bit by bit. -/
def ofPred (w : ℕ) (p : ℕ → Bool) : BitVec w :=
  (List.range w).foldl (fun b i => setBit b i (p i)) 0

@[simp] lemma getLsbD_ofPred (w : ℕ) (p : ℕ → Bool) (i : ℕ) :
    (ofPred w p).getLsbD i = (decide (i < w) && p i) := by
  have hfold : ∀ n, ((List.range n).foldl (fun b i => setBit b i (p i)) (0 : BitVec w)).getLsbD i =
      (decide (i < w) && decide (i < n) && p i) := by
    intro n
    induction n with
    | zero => simp
    | succ n ih =>
        rw [List.range_succ, List.foldl_append, List.foldl_cons, List.foldl_nil, getLsbD_setBit, ih]
        by_cases hi : i = n
        · subst hi
          by_cases hw : i < w <;> simp [hw]
        · have hlt : i < n + 1 ↔ i < n := by omega
          simp [hi, hlt]
  rw [ofPred, hfold]
  cases decide (i < w) <;> simp

/-- The positions of the set bits, in ascending order. -/
def ones (b : BitVec w) : List ℕ := (List.range w).filter (fun i => b.getLsbD i)

lemma mem_ones {b : BitVec w} {i : ℕ} : i ∈ ones b ↔ b.getLsbD i = true := by
  simp only [ones, List.mem_filter, List.mem_range, and_iff_right_iff_imp]
  intro h
  by_contra hw
  simp [BitVec.getLsbD_of_ge _ _ (not_lt.mp hw)] at h

lemma ones_sorted (b : BitVec w) : (ones b).Pairwise (· < ·) :=
  List.pairwise_lt_range.filter _

/-- The set bits strictly above the cursor position `p`, in ascending order. -/
def above (b : BitVec w) (p : ℕ) : List ℕ := (ones b).filter (fun i => decide (p < i))

lemma mem_above {b : BitVec w} {p i : ℕ} : i ∈ above b p ↔ p < i ∧ b.getLsbD i = true := by
  simp only [above, List.mem_filter, mem_ones, decide_eq_true_eq, and_comm]

lemma above_sorted (b : BitVec w) (p : ℕ) : (above b p).Pairwise (· < ·) :=
  (ones_sorted b).filter _

/-- Lowest set bit, `0` when the vector is empty. -/
def firstOne (b : BitVec w) : ℕ := (ones b).headD 0

/-- Lowest set bit strictly above `p`, `0` when there is none. -/
def nextOne (b : BitVec w) (p : ℕ) : ℕ := (above b p).headD 0

lemma nextOne_of_above_nil {b : BitVec w} {p : ℕ} (h : above b p = []) : nextOne b p = 0 := by
  simp [nextOne, h]

lemma nextOne_of_above_cons {b : BitVec w} {p x : ℕ} {l : List ℕ} (h : above b p = x :: l) :
    nextOne b p = x ∧ p < x ∧ b.getLsbD x = true ∧ above b x = l := by
  have hx : x ∈ above b p := by simp [h]
  obtain ⟨hpx, hbx⟩ := mem_above.mp hx
  refine ⟨by simp [nextOne, h], hpx, hbx, ?_⟩
  have hsorted := above_sorted b p
  rw [h] at hsorted
  have hfilter : above b x = (above b p).filter (fun i => decide (x < i)) := by
    simp only [above, List.filter_filter]
    refine List.filter_congr (fun i _ => ?_)
    by_cases hxi : x < i
    · simp [hxi, lt_trans hpx hxi]
    · simp [hxi]
  have hl : ∀ y ∈ l, x < y := fun y hy => (List.pairwise_cons.mp hsorted).1 y hy
  rw [hfilter, h, List.filter_cons_of_neg (by simp)]
  exact List.filter_eq_self.mpr (fun y hy => by simpa using hl y hy)

/-- The set bits split into the lowest one and what the cursor sees from there. -/
lemma ones_eq_cons {b : BitVec w} {x : ℕ} {l : List ℕ} (h : ones b = x :: l) :
    firstOne b = x ∧ b.getLsbD x = true ∧ above b x = l := by
  have hsorted := ones_sorted b
  rw [h] at hsorted
  refine ⟨by simp [firstOne, h], mem_ones.mp (by simp [h]), ?_⟩
  rw [above, h, List.filter_cons_of_neg (by simp)]
  exact List.filter_eq_self.mpr
    (fun y hy => by simpa using (List.pairwise_cons.mp hsorted).1 y hy)

lemma above_length_le (b : BitVec w) (p : ℕ) : (above b p).length ≤ w := by
  calc (above b p).length ≤ (ones b).length := List.length_filter_le _ _
    _ ≤ (List.range w).length := List.length_filter_le _ _
    _ = w := List.length_range

end BitScan
