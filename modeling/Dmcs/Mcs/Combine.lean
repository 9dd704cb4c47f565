import Dmcs.Mcs.NewBeliefState

/-!
# Joining and comparing belief states (`combine`, `consistent_with`)

`combine s t` joins two states block by block: blocks defined in both must agree under the masks
of `BeliefStateOffset`, blocks defined only in `t` are copied.  `consistentWith` compares a local
model with an input on one block only, walking the input's status bits with a cursor.

`combine_eq_some_iff` and `consistentWith_iff` say bit by bit what the two functions compute; every
later proof uses these and none unfolds the mask loop or the cursor loop again.

## How the loops are read

* `combine` makes two masks out of the masks of the blocks: one of the blocks that both states
  define, and one of those that only the second does.  `Masked` tells the bits of a block that a
  mask has, and `Copied` the bits that come from the second state, so that the result is described
  for every bit at once and the order of the blocks disappears.
* `consistent_with` walks with the cursor of `BitScan` over the status bits of the input.
  `consistentLoop_eq` turns the loop into a statement about all status bits from the cursor up to
  the end of the block.
-/

namespace Dmcs

open BitScan

namespace NewBeliefState

variable {bso : BeliefStateOffset}

/-! ## `combine` -/

/-- Blocks defined in both states. -/
def maskCheckConsistency (s t : NewBeliefState bso.width) : BitVec bso.width :=
  (List.range bso.noBlocks).foldl (fun m i =>
    if !s.isEpsilon bso i && !t.isEpsilon bso i then m ||| bso.mask i else m) 0

/-- Blocks defined in `t` only. -/
def maskCombine (s t : NewBeliefState bso.width) : BitVec bso.width :=
  (List.range bso.noBlocks).foldl (fun m i =>
    if !s.isEpsilon bso i && !t.isEpsilon bso i then m
    else if s.isEpsilon bso i && !t.isEpsilon bso i then m ||| bso.mask i else m) 0

/-- `combine(s, t)`: `none` is the result `false`, `some u` the result `true` with `s` replaced
by `u`. -/
def combine (s t : NewBeliefState bso.width) : Option (NewBeliefState bso.width) :=
  let s1 := s.andBm (maskCheckConsistency s t)
  let t1 := t.andBm (maskCheckConsistency s t)
  if s1 ≠ t1 then none
  else
    let s2 := s.andBm (~~~(maskCombine s t))
    let t2 := t.andBm (maskCombine s t)
    some (s.union (s2.union t2))

/-- A position the masks cover: every position of a block but its last one. -/
def Masked (bso : BeliefStateOffset) (i : ℕ) : Prop := i % (bso.sizeBs + 1) < bso.sizeBs

instance (i : ℕ) : Decidable (Masked bso i) := inferInstanceAs (Decidable (_ < _))

lemma getLsbD_mask_iff {c i : ℕ} (hc : c < bso.noBlocks) :
    (bso.mask c).getLsbD i = true ↔ bso.blockOf i = c ∧ Masked bso i := by
  rw [bso.getLsbD_mask, decide_eq_true_eq]
  constructor
  · rintro ⟨h1, h2, -⟩
    obtain ⟨j, rfl⟩ := Nat.exists_eq_add_of_le h1
    have hj : j < bso.sizeBs := by omega
    exact ⟨bso.blockOf_add hj.le, by rw [Masked, bso.add_mod hj.le]; exact hj⟩
  · rintro ⟨rfl, hm⟩
    have hi := bso.startingOffset_blockOf i
    have hlt := bso.startingOffset_add_lt hc (j := i % (bso.sizeBs + 1)) hm.le
    unfold Masked at hm
    exact ⟨by omega, by omega, by omega⟩

-- A fold that ors in the mask of every block satisfying `P` selects the masked positions of
-- exactly those blocks; the induction is on the number of blocks visited.
private lemma getLsbD_foldl_masks (P : ℕ → Bool) (i n : ℕ) (hn : n ≤ bso.noBlocks) :
    ((List.range n).foldl (fun m c => if P c then m ||| bso.mask c else m)
      (0 : BitVec bso.width)).getLsbD i = true ↔
        bso.blockOf i < n ∧ P (bso.blockOf i) = true ∧ Masked bso i := by
  induction n with
  | zero => simp
  | succ n ih =>
      have ih := ih (by omega)
      have hmask := getLsbD_mask_iff (i := i) (show n < bso.noBlocks by omega)
      rw [List.range_succ, List.foldl_append, List.foldl_cons, List.foldl_nil]
      by_cases hP : P n = true
      · rw [if_pos hP, BitVec.getLsbD_or, Bool.or_eq_true, ih, hmask]
        constructor
        · rintro (⟨h1, h2, h3⟩ | ⟨h1, h3⟩)
          · exact ⟨by omega, h2, h3⟩
          · exact ⟨by omega, h1 ▸ hP, h3⟩
        · rintro ⟨h1, h2, h3⟩
          rcases Nat.lt_succ_iff_lt_or_eq.mp h1 with h | h
          · exact Or.inl ⟨h, h2, h3⟩
          · exact Or.inr ⟨h, h3⟩
      · rw [if_neg hP, ih]
        constructor
        · rintro ⟨h1, h2, h3⟩
          exact ⟨by omega, h2, h3⟩
        · rintro ⟨h1, h2, h3⟩
          rcases Nat.lt_succ_iff_lt_or_eq.mp h1 with h | h
          · exact ⟨h, h2, h3⟩
          · exact absurd (h ▸ h2) hP

lemma getLsbD_maskCheckConsistency (s t : NewBeliefState bso.width) {i : ℕ} (hi : i < bso.width) :
    (maskCheckConsistency s t).getLsbD i = true ↔
      s.isEpsilon bso (bso.blockOf i) = false ∧ t.isEpsilon bso (bso.blockOf i) = false ∧
        Masked bso i := by
  rw [maskCheckConsistency,
    getLsbD_foldl_masks (fun c => !s.isEpsilon bso c && !t.isEpsilon bso c) i _ le_rfl]
  simp [bso.blockOf_lt hi, and_assoc]

lemma getLsbD_maskCombine (s t : NewBeliefState bso.width) {i : ℕ} (hi : i < bso.width) :
    (maskCombine s t).getLsbD i = true ↔
      s.isEpsilon bso (bso.blockOf i) = true ∧ t.isEpsilon bso (bso.blockOf i) = false ∧
        Masked bso i := by
  have hfold : maskCombine s t = (List.range bso.noBlocks).foldl
      (fun m c => if s.isEpsilon bso c && !t.isEpsilon bso c then m ||| bso.mask c else m) 0 := by
    rw [maskCombine]
    congr 1
    funext m c
    cases s.isEpsilon bso c <;> cases t.isEpsilon bso c <;> rfl
  rw [hfold, getLsbD_foldl_masks (fun c => s.isEpsilon bso c && !t.isEpsilon bso c) i _ le_rfl]
  simp [bso.blockOf_lt hi, and_assoc]

/-- The two states agree, under the masks, on every block defined in both. -/
def AgreeMasked (s t : NewBeliefState bso.width) : Prop :=
  ∀ i < bso.width, s.isEpsilon bso (bso.blockOf i) = false →
    t.isEpsilon bso (bso.blockOf i) = false → Masked bso i →
      s.status_bit.getLsbD i = t.status_bit.getLsbD i ∧
        s.value_bit.getLsbD i = t.value_bit.getLsbD i

/-- A bit that `combine` copies from its second argument. -/
def Copied (s t : NewBeliefState bso.width) (i : ℕ) : Prop :=
  s.isEpsilon bso (bso.blockOf i) = true ∧ t.isEpsilon bso (bso.blockOf i) = false ∧ Masked bso i

instance (s t : NewBeliefState bso.width) (i : ℕ) : Decidable (Copied s t i) :=
  inferInstanceAs (Decidable (_ ∧ _ ∧ _))

lemma andBm_check_eq_iff (s t : NewBeliefState bso.width) :
    s.andBm (maskCheckConsistency s t) = t.andBm (maskCheckConsistency s t) ↔ AgreeMasked s t := by
  constructor
  · intro h i hi hs ht hm
    have hmask := (getLsbD_maskCheckConsistency s t hi).mpr ⟨hs, ht, hm⟩
    have h1 := congrArg (fun u => u.status_bit.getLsbD i) h
    have h2 := congrArg (fun u => u.value_bit.getLsbD i) h
    simp only [andBm_status, andBm_value, hmask, Bool.and_true] at h1 h2
    exact ⟨h1, h2⟩
  · intro h
    have hbit : ∀ i, (maskCheckConsistency s t).getLsbD i = true →
        s.status_bit.getLsbD i = t.status_bit.getLsbD i ∧
          s.value_bit.getLsbD i = t.value_bit.getLsbD i := by
      intro i hmask
      have hi : i < bso.width := by
        by_contra hw
        simp [BitVec.getLsbD_of_ge _ _ (not_lt.mp hw)] at hmask
      obtain ⟨hs, ht, hm⟩ := (getLsbD_maskCheckConsistency s t hi).mp hmask
      exact h i hi hs ht hm
    refine ext_bits (fun i => ?_) (fun i => ?_)
    · rw [andBm_status, andBm_status]
      by_cases hmask : (maskCheckConsistency s t).getLsbD i = true
      · rw [(hbit i hmask).1]
      · simp [hmask]
    · rw [andBm_value, andBm_value]
      by_cases hmask : (maskCheckConsistency s t).getLsbD i = true
      · rw [(hbit i hmask).2]
      · simp [hmask]

/-- What `combine` computes, bit by bit. -/
theorem combine_eq_some_iff (s t u : NewBeliefState bso.width) :
    combine s t = some u ↔
      AgreeMasked s t ∧
        (∀ i < bso.width, u.status_bit.getLsbD i =
          (s.status_bit.getLsbD i || (t.status_bit.getLsbD i && decide (Copied s t i)))) ∧
        ∀ i < bso.width, u.value_bit.getLsbD i =
          (s.value_bit.getLsbD i || (t.value_bit.getLsbD i && decide (Copied s t i))) := by
  have hcopy : ∀ i < bso.width, (maskCombine s t).getLsbD i = decide (Copied s t i) := by
    intro i hi
    rw [Bool.eq_iff_iff, getLsbD_maskCombine s t hi, decide_eq_true_eq, Copied]
  have hres : ∀ i < bso.width,
      (s.union ((s.andBm (~~~(maskCombine s t))).union
          (t.andBm (maskCombine s t)))).status_bit.getLsbD i =
        (s.status_bit.getLsbD i || (t.status_bit.getLsbD i && decide (Copied s t i))) ∧
      (s.union ((s.andBm (~~~(maskCombine s t))).union
          (t.andBm (maskCombine s t)))).value_bit.getLsbD i =
        (s.value_bit.getLsbD i || (t.value_bit.getLsbD i && decide (Copied s t i))) := by
    intro i hi
    rw [← hcopy i hi]
    constructor
    · simp only [union_status, andBm_status]
      cases s.status_bit.getLsbD i <;> simp
    · simp only [union_value, andBm_value]
      cases s.value_bit.getLsbD i <;> simp
  unfold combine
  simp only
  by_cases hagree : AgreeMasked s t
  · rw [if_neg (not_not.mpr ((andBm_check_eq_iff s t).mpr hagree))]
    simp only [Option.some.injEq, hagree, true_and]
    constructor
    · rintro rfl
      exact ⟨fun i hi => (hres i hi).1, fun i hi => (hres i hi).2⟩
    · rintro ⟨h1, h2⟩
      refine NewBeliefState.ext (BitVec.eq_of_getLsbD_eq (fun i hi => ?_))
        (BitVec.eq_of_getLsbD_eq (fun i hi => ?_))
      · rw [(hres i hi).1, h1 i hi]
      · rw [(hres i hi).2, h2 i hi]
  · rw [if_pos (fun h => hagree ((andBm_check_eq_iff s t).mp h))]
    simp [hagree]

/-! ## `consistent_with` -/

/-- One past the last bit of block `id`. -/
def endBit (bso : BeliefStateOffset) (id : ℕ) : ℕ :=
  if id = bso.noBlocks - 1 then bso.width else bso.startingOffset (id + 1)

/-- The `do … while` loop of `consistent_with`; `fuel` bounds the status bits that can be
visited. -/
def consistentLoop (s bm : NewBeliefState bso.width) (stop : ℕ) : ℕ → ℕ → Bool
  | 0, _ => true
  | fuel + 1, pos =>
      if s.test pos ≠ bm.test pos then false
      else
        let pos := nextOne bm.status_bit pos
        if pos ≠ 0 ∧ pos < stop then consistentLoop s bm stop fuel pos else true

/-- `s.consistent_with(bm, id)`. -/
def consistentWith (s bm : NewBeliefState bso.width) (id : ℕ) : Bool :=
  if s.isEpsilon bso id || bm.isEpsilon bso id then true
  else
    consistentLoop s bm (endBit bso id) (bso.width + 1)
      (nextOne bm.status_bit (bso.startingOffset id))

lemma endBit_eq {id : ℕ} (h : id < bso.noBlocks) :
    endBit bso id = bso.startingOffset id + bso.sizeBs + 1 := by
  unfold endBit
  split
  · rename_i hid
    rw [BeliefStateOffset.width, bso.startingOffset_eq]
    obtain ⟨n, hn⟩ : ∃ n, bso.noBlocks = n + 1 := ⟨bso.noBlocks - 1, by omega⟩
    rw [hid, hn, Nat.add_sub_cancel, Nat.succ_mul]
    omega
  · rfl

-- Induction on the status bits in front of the cursor.  The body runs once before the bound is
-- looked at, so the first position is compared even when it lies outside the block.
lemma consistentLoop_eq (s bm : NewBeliefState bso.width) (stop : ℕ) :
    ∀ (l : List ℕ) (fuel pos : ℕ), above bm.status_bit pos = l → l.length < fuel →
      (consistentLoop s bm stop fuel pos = true ↔
        s.test pos = bm.test pos ∧ ∀ x ∈ l, x < stop → s.test x = bm.test x) := by
  intro l
  induction l with
  | nil =>
      intro fuel pos hl hf
      obtain ⟨fuel, rfl⟩ : ∃ f, fuel = f + 1 := ⟨fuel - 1, by simp at hf; omega⟩
      simp [consistentLoop, nextOne_of_above_nil hl]
  | cons y l ih =>
      intro fuel pos hl hf
      obtain ⟨fuel, rfl⟩ : ∃ f, fuel = f + 1 := ⟨fuel - 1, by simp at hf; omega⟩
      obtain ⟨hnext, hlt, -, habove⟩ := nextOne_of_above_cons hl
      have hsorted := above_sorted bm.status_bit pos
      rw [hl] at hsorted
      have hy : ∀ x ∈ l, y < x := (List.pairwise_cons.mp hsorted).1
      have hy0 : y ≠ 0 := by omega
      rw [consistentLoop, hnext]
      by_cases htest : s.test pos = bm.test pos
      · by_cases hstop : y < stop
        · simp only [htest, ne_eq, not_true_eq_false, if_false, hy0, not_false_eq_true, hstop,
            and_self, if_true, true_and]
          rw [ih fuel y habove (by simp at hf; omega)]
          simp only [List.mem_cons, forall_eq_or_imp, hstop, true_implies]
        · simp only [htest, ne_eq, not_true_eq_false, if_false, hstop, and_false, true_and,
            List.mem_cons, forall_eq_or_imp, false_implies, true_iff]
          intro x hx hxs
          have := hy x hx
          omega
      · simp [htest]

/-- What `consistent_with` decides when the input's block carries at least one belief: every
belief the input has a status for has the same truth value in `s`. -/
theorem consistentWith_iff {s bm : NewBeliefState bso.width} {id : ℕ} (hid : id < bso.noBlocks)
    (hs : s.isEpsilon bso id = false) (hbm : bm.isEpsilon bso id = false)
    (hne : ∃ j, 1 ≤ j ∧ j ≤ bso.sizeBs ∧
      bm.status_bit.getLsbD (bso.startingOffset id + j) = true) :
    consistentWith s bm id = true ↔
      ∀ j, 1 ≤ j → j ≤ bso.sizeBs → bm.status_bit.getLsbD (bso.startingOffset id + j) = true →
        s.test (bso.startingOffset id + j) = bm.test (bso.startingOffset id + j) := by
  rw [consistentWith, hs, hbm, Bool.or_self, if_neg (by simp)]
  obtain ⟨j₀, hj₀, hj₀', hst₀⟩ := hne
  have hend : endBit bso id = bso.startingOffset id + bso.sizeBs + 1 := endBit_eq hid
  cases hl : above bm.status_bit (bso.startingOffset id) with
  | nil =>
      have : bso.startingOffset id + j₀ ∈ above bm.status_bit (bso.startingOffset id) :=
        mem_above.mpr ⟨by omega, hst₀⟩
      simp [hl] at this
  | cons x l =>
      obtain ⟨hnext, hlt, hx, habove⟩ := nextOne_of_above_cons hl
      have hlen : l.length < bso.width + 1 := by
        have := above_length_le bm.status_bit x
        rw [habove] at this
        omega
      have hmem : ∀ y, y ∈ x :: l ↔ bso.startingOffset id < y ∧ bm.status_bit.getLsbD y = true := by
        intro y
        rw [← hl, mem_above]
      have hxle : x ≤ bso.startingOffset id + j₀ := by
        have hsorted := above_sorted bm.status_bit (bso.startingOffset id)
        rw [hl] at hsorted
        have hmem₀ := (hmem (bso.startingOffset id + j₀)).mpr ⟨by omega, hst₀⟩
        rcases List.mem_cons.mp hmem₀ with h | h
        · omega
        · exact ((List.pairwise_cons.mp hsorted).1 _ h).le
      rw [hnext, consistentLoop_eq s bm _ l _ x habove hlen]
      constructor
      · rintro ⟨h1, h2⟩ j hj hj' hst
        rcases List.mem_cons.mp ((hmem _).mpr ⟨by omega, hst⟩) with h | h
        · rw [h]; exact h1
        · exact h2 _ h (by rw [hend]; omega)
      · intro h
        have key : ∀ y ∈ x :: l, y < endBit bso id → s.test y = bm.test y := by
          intro y hy hystop
          obtain ⟨hy1, hy2⟩ := (hmem y).mp hy
          obtain ⟨j, rfl⟩ := Nat.exists_eq_add_of_le hy1.le
          exact h j (by omega) (by omega) hy2
        exact ⟨key x (by simp) (by omega), fun y hy hystop => key y (by simp [hy]) hystop⟩

lemma consistentWith_of_isEpsilon {s bm : NewBeliefState bso.width} {id : ℕ}
    (h : bm.isEpsilon bso id = true) : consistentWith s bm id = true := by
  simp [consistentWith, h]

end NewBeliefState

end Dmcs
