import Mathlib.Tactic.Ring
import Mathlib.Data.Nat.ModEq
import Dmcs.Lib.BitScan

/-!
# Belief states (`NewBeliefState`, `BeliefStateOffset`)

A belief state of a system with `noBlocks` contexts is a pair of parallel bit vectors of
`noBlocks * (sizeBs + 1)` bits.  Block `c` starts at `startingOffset c`; its first bit is the
*epsilon* bit (set when the block is defined at all) and the following `sizeBs` bits are the
beliefs of context `c`, addressed from `1`.  `status_bit` says whether a bit has a truth value,
`value_bit` which one.

The bit vectors (`bm::bvector<>`) are `BitVec`s: the width is part of the type, so the size
assertions of `combine` and `consistent_with` hold by construction.  The cursor functions
`get_first`/`get_next` are those of `BitScan`.

`WellFormed` is the representation invariant the rest of the code relies on: no value without a
status, a set epsilon bit is `TRUE`, and a block whose epsilon bit is off has no status bit.

## What is modelled

`set`, `test`, `isEpsilon` and `setEpsilon` are the accessors of `NewBeliefState.h`; `union` and
`inter` are `operator|` and `operator&`; `andBm` is the helper that `combine` applies to its masks.
A bit has one of three truth values, and `set` writes both vectors.

The offsets are computed by the recursion of the constructor of `BeliefStateOffset`, and the masks
by its loop, which is one bit short: a block has `sizeBs + 1` bits, and its mask covers `sizeBs` of
them.  Nothing in this module depends on that; what follows from it is in `CombineOrder`.

The simp set below reads one bit of the result of each operation, and `ext_bits` compares two states
bit by bit, so that no later proof unfolds an operation.
-/

namespace Dmcs

open BitScan

/-- Dimensions of a system (`BeliefStateOffset`); the constructor asserts both are positive. -/
structure BeliefStateOffset where
  noBlocks : ℕ
  sizeBs : ℕ
  noBlocks_pos : 0 < noBlocks
  sizeBs_pos : 0 < sizeBs

namespace BeliefStateOffset

/-- Dimensions given by their predecessors. -/
def ofSucc (n s : ℕ) : BeliefStateOffset := ⟨n + 1, s + 1, n.succ_pos, s.succ_pos⟩

variable (bso : BeliefStateOffset)

/-- Number of bits of a belief state. -/
def width : ℕ := bso.noBlocks * (bso.sizeBs + 1)

/-- `starting_offsets[i]`, as the constructor accumulates it. -/
def startingOffset : ℕ → ℕ
  | 0 => 0
  | i + 1 => startingOffset i + bso.sizeBs + 1

/-- `masks[i]`: the constructor sets the `sizeBs` bits from `starting_offsets[i]` on, that is the
epsilon bit and all beliefs of the block but the last. -/
def mask (i : ℕ) : BitVec bso.width :=
  (List.range bso.sizeBs).foldl (fun m j => setBit m (bso.startingOffset i + j) true) 0

lemma startingOffset_eq (i : ℕ) : bso.startingOffset i = i * (bso.sizeBs + 1) := by
  induction i with
  | zero => simp [startingOffset]
  | succ i ih => rw [startingOffset, ih]; ring

/-- A position inside block `c` lies inside the vector. -/
lemma startingOffset_add_lt {c j : ℕ} (hc : c < bso.noBlocks) (hj : j ≤ bso.sizeBs) :
    bso.startingOffset c + j < bso.width := by
  rw [startingOffset_eq, width]
  calc c * (bso.sizeBs + 1) + j < (c + 1) * (bso.sizeBs + 1) := by rw [Nat.succ_mul]; omega
    _ ≤ bso.noBlocks * (bso.sizeBs + 1) := Nat.mul_le_mul_right _ hc

/-- The block a position belongs to. -/
def blockOf (pos : ℕ) : ℕ := pos / (bso.sizeBs + 1)

lemma blockOf_add {c j : ℕ} (hj : j ≤ bso.sizeBs) :
    bso.blockOf (bso.startingOffset c + j) = c := by
  rw [blockOf, startingOffset_eq, Nat.add_comm, Nat.add_mul_div_right _ _ (Nat.succ_pos _),
    Nat.div_eq_of_lt (by omega), Nat.zero_add]

lemma startingOffset_blockOf (pos : ℕ) :
    bso.startingOffset (bso.blockOf pos) + pos % (bso.sizeBs + 1) = pos := by
  rw [startingOffset_eq, blockOf]
  exact Nat.div_add_mod' pos (bso.sizeBs + 1)

lemma blockOf_startingOffset (c : ℕ) : bso.blockOf (bso.startingOffset c) = c := by
  simpa using bso.blockOf_add (c := c) (Nat.zero_le _)

lemma blockOf_lt {pos : ℕ} (h : pos < bso.width) : bso.blockOf pos < bso.noBlocks := by
  rw [blockOf]
  exact Nat.div_lt_of_lt_mul (by rw [width, Nat.mul_comm] at h; exact h)

/-- Positions `c * (sizeBs + 1)` are exactly the epsilon positions. -/
lemma startingOffset_mod (c : ℕ) : bso.startingOffset c % (bso.sizeBs + 1) = 0 := by
  rw [startingOffset_eq, Nat.mul_mod_left]

lemma add_mod {c j : ℕ} (hj : j ≤ bso.sizeBs) :
    (bso.startingOffset c + j) % (bso.sizeBs + 1) = j := by
  rw [startingOffset_eq, Nat.add_comm, Nat.add_mul_mod_self_right, Nat.mod_eq_of_lt (by omega)]

private lemma getLsbD_foldl_setBit (w start n : ℕ) (m : BitVec w) (i : ℕ) :
    ((List.range n).foldl (fun m j => setBit m (start + j) true) m).getLsbD i =
      (m.getLsbD i || decide (start ≤ i ∧ i < start + n ∧ i < w)) := by
  induction n with
  | zero =>
      have : ¬ (start ≤ i ∧ i < start ∧ i < w) := by omega
      simp [this]
  | succ n ih =>
      rw [List.range_succ, List.foldl_append, List.foldl_cons, List.foldl_nil, getLsbD_setBit, ih]
      by_cases hw : i < w
      · by_cases hi : i = start + n
        · subst hi
          simp [hw]
        · have hlt : i < start + (n + 1) ↔ i < start + n := by omega
          simp [hi, hlt]
      · simp [hw]

lemma getLsbD_mask (c i : ℕ) :
    (bso.mask c).getLsbD i =
      decide (bso.startingOffset c ≤ i ∧ i < bso.startingOffset c + bso.sizeBs ∧
        i < bso.width) := by
  rw [mask, getLsbD_foldl_setBit]
  simp

end BeliefStateOffset

/-- Three-valued truth (`NewBeliefState::TruthVal`). -/
inductive TruthVal where
  | dmcsFalse
  | dmcsTrue
  | dmcsUndef
  deriving DecidableEq, Repr

/-- A belief state: two parallel bit vectors. -/
@[ext] structure NewBeliefState (w : ℕ) where
  status_bit : BitVec w
  value_bit : BitVec w
  deriving DecidableEq

namespace NewBeliefState

variable {w : ℕ}

/-- The freshly constructed state: no bit has a status. -/
def empty (w : ℕ) : NewBeliefState w := ⟨0, 0⟩

/-- `operator|`. -/
def union (s t : NewBeliefState w) : NewBeliefState w :=
  ⟨s.status_bit ||| t.status_bit, s.value_bit ||| t.value_bit⟩

/-- `operator&`. -/
def inter (s t : NewBeliefState w) : NewBeliefState w :=
  ⟨s.status_bit &&& t.status_bit, s.value_bit &&& t.value_bit⟩

/-- `and_bm`. -/
def andBm (s : NewBeliefState w) (mask : BitVec w) : NewBeliefState w :=
  ⟨s.status_bit &&& mask, s.value_bit &&& mask⟩

/-- `test(pos)`. -/
def test (s : NewBeliefState w) (pos : ℕ) : TruthVal :=
  if s.status_bit.getLsbD pos then
    if s.value_bit.getLsbD pos then .dmcsTrue else .dmcsFalse
  else TruthVal.dmcsUndef

/-- `set(pos, val)`. -/
def set (s : NewBeliefState w) (pos : ℕ) : TruthVal → NewBeliefState w
  | .dmcsUndef => ⟨setBit s.status_bit pos false, setBit s.value_bit pos false⟩
  | .dmcsTrue => ⟨setBit s.status_bit pos true, setBit s.value_bit pos true⟩
  | .dmcsFalse => ⟨setBit s.status_bit pos true, setBit s.value_bit pos false⟩

/-- `isEpsilon(ctx_id)`: the block carries no information. -/
def isEpsilon (bso : BeliefStateOffset) (s : NewBeliefState w) (c : ℕ) : Bool :=
  !s.status_bit.getLsbD (bso.startingOffset c)

/-- `setEpsilon(ctx_id)`: switch the epsilon bit of a block on. -/
def setEpsilon (bso : BeliefStateOffset) (s : NewBeliefState w) (c : ℕ) : NewBeliefState w :=
  ⟨setBit s.status_bit (bso.startingOffset c) true,
    setBit s.value_bit (bso.startingOffset c) true⟩

/-- `setEpsilon()`: switch every epsilon bit on. -/
def setEpsilonAll (bso : BeliefStateOffset) (s : NewBeliefState w) : NewBeliefState w :=
  (List.range bso.noBlocks).foldl (fun s c => s.setEpsilon bso c) s

/-- The loop shared by `getFirst` and `getNext`: from a status bit, walk on until one is `TRUE`.
`fuel` bounds the number of status bits that can be visited. -/
def scanTrue (s : NewBeliefState w) : ℕ → ℕ → ℕ
  | 0, _ => 0
  | fuel + 1, bit =>
      if s.value_bit.getLsbD bit then bit
      else
        let next := nextOne s.status_bit bit
        if next = 0 then 0 else scanTrue s fuel next

/-- `getFirst()`: the lowest `TRUE` bit, `0` when there is none. -/
def getFirst (s : NewBeliefState w) : ℕ :=
  if (ones s.status_bit).length = 0 then 0 else scanTrue s (w + 1) (firstOne s.status_bit)

/-- `getNext(bit)`: the lowest `TRUE` bit above `bit`, `0` when there is none. -/
def getNext (s : NewBeliefState w) (bit : ℕ) : ℕ :=
  let next := nextOne s.status_bit bit
  if next = 0 then 0 else scanTrue s (w + 1) next

/-! ## Bit-level simp set -/

@[simp] lemma union_status (s t : NewBeliefState w) (i : ℕ) :
    (s.union t).status_bit.getLsbD i = (s.status_bit.getLsbD i || t.status_bit.getLsbD i) := by
  simp [union]

@[simp] lemma union_value (s t : NewBeliefState w) (i : ℕ) :
    (s.union t).value_bit.getLsbD i = (s.value_bit.getLsbD i || t.value_bit.getLsbD i) := by
  simp [union]

@[simp] lemma inter_status (s t : NewBeliefState w) (i : ℕ) :
    (s.inter t).status_bit.getLsbD i = (s.status_bit.getLsbD i && t.status_bit.getLsbD i) := by
  simp [inter]

@[simp] lemma inter_value (s t : NewBeliefState w) (i : ℕ) :
    (s.inter t).value_bit.getLsbD i = (s.value_bit.getLsbD i && t.value_bit.getLsbD i) := by
  simp [inter]

@[simp] lemma andBm_status (s : NewBeliefState w) (m : BitVec w) (i : ℕ) :
    (s.andBm m).status_bit.getLsbD i = (s.status_bit.getLsbD i && m.getLsbD i) := by
  simp [andBm]

@[simp] lemma andBm_value (s : NewBeliefState w) (m : BitVec w) (i : ℕ) :
    (s.andBm m).value_bit.getLsbD i = (s.value_bit.getLsbD i && m.getLsbD i) := by
  simp [andBm]

@[simp] lemma empty_status (i : ℕ) : (empty w).status_bit.getLsbD i = false := by simp [empty]

@[simp] lemma empty_value (i : ℕ) : (empty w).value_bit.getLsbD i = false := by simp [empty]

@[simp] lemma setEpsilon_status (bso : BeliefStateOffset) (s : NewBeliefState w) (c i : ℕ) :
    (s.setEpsilon bso c).status_bit.getLsbD i =
      if i = bso.startingOffset c ∧ i < w then true else s.status_bit.getLsbD i := by
  simp [setEpsilon]

@[simp] lemma setEpsilon_value (bso : BeliefStateOffset) (s : NewBeliefState w) (c i : ℕ) :
    (s.setEpsilon bso c).value_bit.getLsbD i =
      if i = bso.startingOffset c ∧ i < w then true else s.value_bit.getLsbD i := by
  simp [setEpsilon]

@[simp] lemma set_status (s : NewBeliefState w) (pos i : ℕ) (v : TruthVal) :
    (s.set pos v).status_bit.getLsbD i =
      if i = pos ∧ i < w then decide (v ≠ .dmcsUndef) else s.status_bit.getLsbD i := by
  cases v <;> simp [set]

@[simp] lemma set_value (s : NewBeliefState w) (pos i : ℕ) (v : TruthVal) :
    (s.set pos v).value_bit.getLsbD i =
      if i = pos ∧ i < w then decide (v = .dmcsTrue) else s.value_bit.getLsbD i := by
  cases v <;> simp [set]

lemma status_lt {s : NewBeliefState w} {i : ℕ} (h : s.status_bit.getLsbD i = true) : i < w := by
  by_contra hw
  simp [BitVec.getLsbD_of_ge _ _ (not_lt.mp hw)] at h

/-- Two states are equal when they agree bit by bit. -/
lemma ext_bits {s t : NewBeliefState w}
    (hs : ∀ i, s.status_bit.getLsbD i = t.status_bit.getLsbD i)
    (hv : ∀ i, s.value_bit.getLsbD i = t.value_bit.getLsbD i) : s = t :=
  NewBeliefState.ext (BitVec.eq_of_getLsbD_eq (fun i _ => hs i))
    (BitVec.eq_of_getLsbD_eq (fun i _ => hv i))

lemma isEpsilon_eq_false {bso : BeliefStateOffset} {s : NewBeliefState w} {c : ℕ} :
    s.isEpsilon bso c = false ↔ s.status_bit.getLsbD (bso.startingOffset c) = true := by
  simp [isEpsilon]

lemma test_eq_true {s : NewBeliefState w} {i : ℕ} :
    s.test i = .dmcsTrue ↔ s.status_bit.getLsbD i = true ∧ s.value_bit.getLsbD i = true := by
  unfold test
  cases s.status_bit.getLsbD i <;> cases s.value_bit.getLsbD i <;> simp

lemma test_eq_false {s : NewBeliefState w} {i : ℕ} :
    s.test i = .dmcsFalse ↔ s.status_bit.getLsbD i = true ∧ s.value_bit.getLsbD i = false := by
  unfold test
  cases s.status_bit.getLsbD i <;> cases s.value_bit.getLsbD i <;> simp

/-! ## The cursor over the `TRUE` bits -/

/-- The bits that are `TRUE`. -/
def trueBits (s : NewBeliefState w) : BitVec w := s.status_bit &&& s.value_bit

lemma trueBits_getLsbD (s : NewBeliefState w) (i : ℕ) :
    s.trueBits.getLsbD i = (s.status_bit.getLsbD i && s.value_bit.getLsbD i) := by
  simp [trueBits]

/-- `above` the cursor, restricted to `TRUE` bits. -/
lemma above_trueBits (s : NewBeliefState w) (p : ℕ) :
    above s.trueBits p = (above s.status_bit p).filter (fun i => s.value_bit.getLsbD i) := by
  simp only [above, ones, List.filter_filter]
  refine List.filter_congr (fun i _ => ?_)
  rw [trueBits_getLsbD]
  cases s.status_bit.getLsbD i <;> cases s.value_bit.getLsbD i <;> simp

-- The loop is followed by induction on the status bits the cursor has not visited yet.
private lemma scanTrue_eq (s : NewBeliefState w) :
    ∀ (l : List ℕ) (fuel bit : ℕ), above s.status_bit bit = l → l.length < fuel →
      scanTrue s fuel bit =
        if s.value_bit.getLsbD bit then bit
        else (l.filter (fun i => s.value_bit.getLsbD i)).headD 0 := by
  intro l
  induction l with
  | nil =>
      intro fuel bit hl hf
      obtain ⟨fuel, rfl⟩ : ∃ f, fuel = f + 1 := ⟨fuel - 1, by simp at hf; omega⟩
      simp [scanTrue, nextOne_of_above_nil hl]
  | cons x l ih =>
      intro fuel bit hl hf
      obtain ⟨fuel, rfl⟩ : ∃ f, fuel = f + 1 := ⟨fuel - 1, by simp at hf; omega⟩
      obtain ⟨hnext, hlt, -, habove⟩ := nextOne_of_above_cons hl
      have hx : x ≠ 0 := by omega
      rw [scanTrue, hnext]
      simp only [hx, if_false]
      rw [ih fuel x habove (by simp at hf; omega)]
      by_cases hv : s.value_bit.getLsbD x = true <;> simp [hv]

/-- `getNext` is the plain cursor over the `TRUE` bits. -/
lemma getNext_eq (s : NewBeliefState w) (bit : ℕ) : s.getNext bit = nextOne s.trueBits bit := by
  have htrue : nextOne s.trueBits bit =
      ((above s.status_bit bit).filter (fun i => s.value_bit.getLsbD i)).headD 0 := by
    rw [nextOne, above_trueBits]
  rw [htrue, getNext]
  cases hl : above s.status_bit bit with
  | nil => simp [nextOne_of_above_nil hl]
  | cons x l =>
      obtain ⟨hnext, hlt, -, habove⟩ := nextOne_of_above_cons hl
      have hx : x ≠ 0 := by omega
      have hlen : l.length < w + 1 := by
        have := above_length_le s.status_bit x
        rw [habove] at this
        omega
      simp only [hnext, hx, if_false]
      rw [scanTrue_eq s l (w + 1) x habove hlen]
      by_cases hv : s.value_bit.getLsbD x = true <;> simp [hv]

/-- `getFirst` is the lowest `TRUE` bit. -/
lemma getFirst_eq (s : NewBeliefState w) : s.getFirst = firstOne s.trueBits := by
  have hones : ones s.trueBits =
      (ones s.status_bit).filter (fun i => s.value_bit.getLsbD i) := by
    simp only [ones, List.filter_filter]
    refine List.filter_congr (fun i _ => ?_)
    rw [trueBits_getLsbD, Bool.and_comm]
  have htrue : firstOne s.trueBits =
      ((ones s.status_bit).filter (fun i => s.value_bit.getLsbD i)).headD 0 := by
    rw [firstOne, hones]
  rw [htrue, getFirst]
  cases hl : ones s.status_bit with
  | nil => simp
  | cons x l =>
      obtain ⟨hfirst, -, habove⟩ := ones_eq_cons hl
      have hlen : l.length < w + 1 := by
        have := above_length_le s.status_bit x
        rw [habove] at this
        omega
      simp only [List.length_cons, Nat.add_one_ne_zero, if_false, hfirst]
      rw [scanTrue_eq s l (w + 1) x habove hlen]
      by_cases hv : s.value_bit.getLsbD x = true <;> simp [hv]

end NewBeliefState

end Dmcs
