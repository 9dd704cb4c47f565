import Dmcs.Mcs.JoinBlocks

/-!
# On which states `consistent_with` looks at one block only

`a.consistent_with(b, id)` should say whether the beliefs of block `id` that `b` knows have the same
truth value in `a`.  Its loop compares the first status bit of `b` after the epsilon bit of the
block before it looks at the end of the block, and takes the `0` of `get_next`, which means that
there is no such bit, for a position.

So if `b` knows nothing in the block, the loop compares the epsilon bit of the next block that `b`
defines; and if there is none, it starts again at position `0` and compares everything that `b`
knows in earlier blocks.  `consistentWith_correct_iff` says when this does no harm.

## The argument

`get_next` gives the first status bit after a position, and `0` if there is none.  The probe before
the loop is made without a test against the end of the block.  If the first status bit lies inside
the block, the loop goes on as intended and compares exactly the status bits of the block.

If it does not, there are two cases, and `OutsideAgrees` has a field for each: the probe is the
epsilon bit of the next block that is defined, or it is position `0`, from where the loop walks over
all status bits up to the end of the block.  In both cases what is compared has nothing to do with
the block, and the answer is right if and only if these comparisons happen to succeed.
-/

namespace Dmcs

open BitScan NewBeliefState

variable {bso : BeliefStateOffset}

namespace NewBeliefState

/-- The beliefs of the block that `b` knows have the same truth value in `a`. -/
def AgreesWith (a b : NewBeliefState bso.width) (id : ℕ) : Prop :=
  ∀ j, 1 ≤ j → j ≤ bso.sizeBs → b.status_bit.getLsbD (bso.startingOffset id + j) = true →
    a.test (bso.startingOffset id + j) = b.test (bso.startingOffset id + j)

/-- `consistent_with` decides agreement on the block. -/
def DecidesBlock (a b : NewBeliefState bso.width) (id : ℕ) : Prop :=
  a.consistentWith b id = true ↔
    a.isEpsilon bso id = true ∨ b.isEpsilon bso id = true ∨ a.AgreesWith b id

/-- `b` knows some belief of the block. -/
def KnowsBelief (b : NewBeliefState bso.width) (id : ℕ) : Prop :=
  ∃ j, 1 ≤ j ∧ j ≤ bso.sizeBs ∧ b.status_bit.getLsbD (bso.startingOffset id + j) = true

/-- What the loop looks at outside of the block does not tell the states apart: the first later
block that `b` defines is also defined in `a`; if there is none, the states agree on whether block
`0` is defined, and `a` has everything that `b` knows in earlier blocks. -/
structure OutsideAgrees (a b : NewBeliefState bso.width) (id : ℕ) : Prop where
  later : ∀ d, id < d → d < bso.noBlocks → b.isEpsilon bso d = false →
    (∀ d', id < d' → d' < d → b.isEpsilon bso d' = true) → a.isEpsilon bso d = false
  first : (∀ d, id < d → d < bso.noBlocks → b.isEpsilon bso d = true) → 0 < id →
    a.isEpsilon bso 0 = b.isEpsilon bso 0
  earlier : (∀ d, id < d → d < bso.noBlocks → b.isEpsilon bso d = true) → ∀ d < id,
    b.isEpsilon bso d = false → a.isEpsilon bso d = false ∧ a.AgreesWith b d

section Loop

variable {a b : NewBeliefState bso.width} {id : ℕ}

lemma test_startingOffset_eq_iff (ha : WellFormed bso a) (hb : WellFormed bso b) (c : ℕ) :
    a.test (bso.startingOffset c) = b.test (bso.startingOffset c) ↔
      a.isEpsilon bso c = b.isEpsilon bso c := by
  have hav := ha.epsilon_true c
  have hbv := hb.epsilon_true c
  unfold test isEpsilon
  cases has : a.status_bit.getLsbD (bso.startingOffset c) <;>
    cases hbs : b.status_bit.getLsbD (bso.startingOffset c) <;> simp_all

lemma startingOffset_lt (bso : BeliefStateOffset) {c d : ℕ} (h : c < d) :
    bso.startingOffset c + bso.sizeBs < bso.startingOffset d := by
  rw [bso.startingOffset_eq, bso.startingOffset_eq]
  have := Nat.mul_le_mul_right (bso.sizeBs + 1) h
  rw [Nat.succ_mul] at this
  omega

/-- Where `b` knows no belief of the block, its other status bits lie in other blocks. -/
lemma blockOf_ne_of_not_knowsBelief (hnone : ¬ b.KnowsBelief id) {x : ℕ}
    (hx : b.status_bit.getLsbD x = true) (hne : x ≠ bso.startingOffset id) :
    bso.blockOf x ≠ id := by
  intro hblock
  have heq := bso.startingOffset_blockOf x
  have hmod := Nat.mod_lt x (show 0 < bso.sizeBs + 1 by omega)
  rw [hblock] at heq
  exact hnone ⟨x % (bso.sizeBs + 1), by omega, by omega, by rw [heq]; exact hx⟩

/-- A later status bit of `b` exists: the loop compares the epsilon bit of its block. -/
lemma consistentWith_of_later (ha : WellFormed bso a) (hb : WellFormed bso b)
    (hid : id < bso.noBlocks) (haid : a.isEpsilon bso id = false)
    (hbid : b.isEpsilon bso id = false) (hnone : ¬ b.KnowsBelief id) {d : ℕ} (hd : id < d)
    (hbd : b.isEpsilon bso d = false)
    (hmin : ∀ d', id < d' → d' < d → b.isEpsilon bso d' = true) :
    a.consistentWith b id = true ↔ a.isEpsilon bso d = false := by
  have hdstatus := isEpsilon_eq_false.mp hbd
  have hlt := startingOffset_lt bso hd
  cases hl : above b.status_bit (bso.startingOffset id) with
  | nil =>
      have := mem_above.mpr ⟨show bso.startingOffset id < bso.startingOffset d by omega, hdstatus⟩
      rw [hl] at this
      cases this
  | cons p l =>
      obtain ⟨hnext, hp, hpstatus, habove⟩ := nextOne_of_above_cons hl
      have hple : ∀ x, bso.startingOffset id < x → b.status_bit.getLsbD x = true → p ≤ x := by
        intro x hx hxs
        have hmem := mem_above.mpr ⟨hx, hxs⟩
        have hsorted := above_sorted b.status_bit (bso.startingOffset id)
        rw [hl] at hmem hsorted
        rcases List.mem_cons.mp hmem with rfl | hmem
        · exact le_rfl
        · exact ((List.pairwise_cons.mp hsorted).1 x hmem).le
      -- the first status bit after the block is the epsilon bit of the first later block
      have hpd : p = bso.startingOffset d := by
        have hle := hple _ (by omega) hdstatus
        have heps := hb.block_epsilon p hpstatus
        have heq := bso.startingOffset_blockOf p
        have hne := blockOf_ne_of_not_knowsBelief hnone hpstatus hp.ne'
        have hgt : id < bso.blockOf p := by
          by_contra hge
          have := startingOffset_lt bso (lt_of_le_of_ne (not_lt.mp hge) hne)
          have := Nat.mod_lt p (show 0 < bso.sizeBs + 1 by omega)
          omega
        by_contra hpne
        have hlt : bso.blockOf p < d := by
          by_contra hge
          rcases Nat.lt_or_eq_of_le (not_lt.mp hge) with h | h
          · have := startingOffset_lt bso h
            omega
          · rw [← h] at heq
            omega
        have := hmin _ hgt hlt
        rw [isEpsilon_eq_false.mpr heps] at this
        cases this
      have hlen : l.length < bso.width + 1 := by
        have := above_length_le b.status_bit p
        rw [habove] at this
        omega
      have hrest : ∀ x ∈ l, ¬ x < endBit bso id := by
        intro x hx
        rw [← habove, mem_above] at hx
        rw [endBit_eq hid]
        omega
      rw [consistentWith, haid, hbid, Bool.or_self, if_neg (by simp), hnext,
        consistentLoop_eq a b _ l _ p habove hlen, hpd, test_startingOffset_eq_iff ha hb, hbd]
      exact and_iff_left (fun x hx hstop => absurd hstop (hrest x hx))

/-- No later status bit of `b` exists: the loop starts again at position `0`. -/
lemma consistentWith_of_last (ha : WellFormed bso a) (hb : WellFormed bso b)
    (hid : id < bso.noBlocks) (haid : a.isEpsilon bso id = false)
    (hbid : b.isEpsilon bso id = false) (hnone : ¬ b.KnowsBelief id)
    (hlast : ∀ d, id < d → d < bso.noBlocks → b.isEpsilon bso d = true) :
    a.consistentWith b id = true ↔
      (0 < id → a.isEpsilon bso 0 = b.isEpsilon bso 0) ∧
        ∀ d < id, b.isEpsilon bso d = false → a.isEpsilon bso d = false ∧ a.AgreesWith b d := by
  have hzero : bso.startingOffset 0 = 0 := rfl
  -- a status bit of `b` is the epsilon bit of the block or lies in an earlier one
  have hbefore : ∀ x, b.status_bit.getLsbD x = true →
      x = bso.startingOffset id ∨ bso.blockOf x < id := by
    intro x hx
    rcases eq_or_ne x (bso.startingOffset id) with h | h
    · exact Or.inl h
    · refine Or.inr ?_
      by_contra hge
      have hgt := lt_of_le_of_ne (not_lt.mp hge)
        (blockOf_ne_of_not_knowsBelief hnone hx h).symm
      have heps := hlast _ hgt (bso.blockOf_lt (status_lt hx))
      rw [hb.isEpsilon_blockOf hx] at heps
      cases heps
  have hnil : above b.status_bit (bso.startingOffset id) = [] := by
    rw [List.eq_nil_iff_forall_not_mem]
    intro x hx
    obtain ⟨hlt, hxs⟩ := mem_above.mp hx
    have heq := bso.startingOffset_blockOf x
    have hmod := Nat.mod_lt x (show 0 < bso.sizeBs + 1 by omega)
    rcases hbefore x hxs with h | h
    · omega
    · have := startingOffset_lt bso h
      omega
  have hlen : (above b.status_bit 0).length < bso.width + 1 :=
    Nat.lt_succ_of_le (above_length_le b.status_bit 0)
  rw [consistentWith, haid, hbid, Bool.or_self, if_neg (by simp), nextOne_of_above_nil hnil,
    consistentLoop_eq a b _ _ _ 0 rfl hlen]
  have htest0 := test_startingOffset_eq_iff ha hb 0
  rw [hzero] at htest0
  rw [htest0]
  constructor
  · rintro ⟨h0, hall⟩
    have heq : ∀ x, 0 < x → x < endBit bso id → b.status_bit.getLsbD x = true →
        a.test x = b.test x := fun x hx hstop hxs => hall x (mem_above.mpr ⟨hx, hxs⟩) hstop
    refine ⟨fun _ => h0, fun d hd hbd => ⟨?_, fun j hj hj' hst => ?_⟩⟩
    · rcases Nat.eq_zero_or_pos d with rfl | hpos
      · rw [h0, hbd]
      · have hgt := startingOffset_lt bso hpos
        have hlt := startingOffset_lt bso hd
        have := heq (bso.startingOffset d) (by omega) (by rw [endBit_eq hid]; omega)
          (isEpsilon_eq_false.mp hbd)
        rw [test_startingOffset_eq_iff ha hb, hbd] at this
        exact this
    · have hlt := startingOffset_lt bso hd
      exact heq _ (by omega) (by rw [endBit_eq hid]; omega) hst
  · rintro ⟨hfirst, hearlier⟩
    have h0 : a.isEpsilon bso 0 = b.isEpsilon bso 0 := by
      rcases Nat.eq_zero_or_pos id with rfl | hpos
      · rw [haid, hbid]
      · exact hfirst hpos
    refine ⟨h0, fun x hx hstop => ?_⟩
    obtain ⟨hxpos, hxs⟩ := mem_above.mp hx
    rcases hbefore x hxs with rfl | hlt
    · rw [test_startingOffset_eq_iff ha hb, haid, hbid]
    · have heq := bso.startingOffset_blockOf x
      have hmod := Nat.mod_lt x (show 0 < bso.sizeBs + 1 by omega)
      have hbx := hb.isEpsilon_blockOf hxs
      obtain ⟨hax, hagree⟩ := hearlier _ hlt hbx
      rcases Nat.eq_zero_or_pos (x % (bso.sizeBs + 1)) with hzero | hpos
      · rw [hzero, Nat.add_zero] at heq
        rw [← heq, test_startingOffset_eq_iff ha hb, hax, hbx]
      · have := hagree _ hpos (by omega) (by rwa [heq])
        rwa [heq] at this

/-- Where `b` knows no belief of the block, the result is what the loop finds outside of it. -/
lemma consistentWith_iff_outsideAgrees (ha : WellFormed bso a) (hb : WellFormed bso b)
    (hid : id < bso.noBlocks) (haid : a.isEpsilon bso id = false)
    (hbid : b.isEpsilon bso id = false) (hnone : ¬ b.KnowsBelief id) :
    a.consistentWith b id = true ↔ OutsideAgrees a b id := by
  by_cases hlast : ∀ d, id < d → d < bso.noBlocks → b.isEpsilon bso d = true
  · rw [consistentWith_of_last ha hb hid haid hbid hnone hlast]
    refine ⟨fun h => ⟨fun d hd hdn hbd => ?_, fun _ => h.1, fun _ => h.2⟩,
      fun h => ⟨h.first hlast, h.earlier hlast⟩⟩
    rw [hlast d hd hdn] at hbd
    cases hbd
  · -- the first block after `id` that `b` defines
    have hex : ∃ d, id < d ∧ d < bso.noBlocks ∧ b.isEpsilon bso d = false := by
      simpa using hlast
    obtain ⟨hd, hdn, hbd⟩ := Nat.find_spec hex
    have hmin : ∀ d', id < d' → d' < Nat.find hex → b.isEpsilon bso d' = true := by
      intro d' h1 h2
      have hnot := Nat.find_min hex h2
      rw [← Bool.not_eq_false]
      exact fun hb' => hnot ⟨h1, h2.trans hdn, hb'⟩
    rw [consistentWith_of_later ha hb hid haid hbid hnone hd hbd hmin]
    refine ⟨fun had => ⟨fun d h1 h2 hb' hmin' => ?_, fun h => absurd h hlast,
      fun h => absurd h hlast⟩, fun h => h.later _ hd hdn hbd hmin⟩
    have heq : d = Nat.find hex := by
      rcases lt_trichotomy d (Nat.find hex) with h | h | h
      · rw [hmin d h1 h] at hb'
        cases hb'
      · exact h
      · rw [hmin' _ hd h] at hbd
        cases hbd
    rwa [heq]

end Loop

/-- `consistent_with` decides agreement on the block exactly if the block is undefined in a state,
or `b` knows one of its beliefs, or what the loop looks at outside of the block does no harm.  The
probe before the first comparison may leave the block; the last case says when this does not change
the result. -/
theorem consistentWith_correct_iff {a b : NewBeliefState bso.width} {id : ℕ}
    (ha : WellFormed bso a) (hb : WellFormed bso b) (hid : id < bso.noBlocks) :
    DecidesBlock a b id ↔
      a.isEpsilon bso id = true ∨ b.isEpsilon bso id = true ∨ b.KnowsBelief id ∨
        OutsideAgrees a b id := by
  unfold DecidesBlock
  cases haid : a.isEpsilon bso id with
  | true => simp [consistentWith, haid]
  | false =>
      cases hbid : b.isEpsilon bso id with
      | true => simp [consistentWith, haid, hbid]
      | false =>
          by_cases hknows : b.KnowsBelief id
          · rw [consistentWith_iff hid haid hbid hknows]
            simp [hknows, AgreesWith]
          · have hagree : a.AgreesWith b id := fun j hj hj' hst => absurd ⟨j, hj, hj', hst⟩ hknows
            rw [consistentWith_iff_outsideAgrees ha hb hid haid hbid hknows]
            simp [hknows, hagree]

/-- Two blocks with one belief each; the listed blocks are defined, and no belief is known. -/
def epsilonOnly (blocks : List ℕ) : NewBeliefState (BeliefStateOffset.ofSucc 1 0).width :=
  blocks.foldl (fun s c => s.setEpsilon (BeliefStateOffset.ofSucc 1 0) c) (NewBeliefState.empty _)

lemma wellFormed_epsilonOnly (blocks : List ℕ) :
    WellFormed (BeliefStateOffset.ofSucc 1 0) (epsilonOnly blocks) := by
  have key : ∀ (blocks : List ℕ) (s : NewBeliefState (BeliefStateOffset.ofSucc 1 0).width),
      WellFormed (BeliefStateOffset.ofSucc 1 0) s → WellFormed (BeliefStateOffset.ofSucc 1 0)
        (blocks.foldl (fun s c => s.setEpsilon (BeliefStateOffset.ofSucc 1 0) c) s) := by
    intro blocks
    induction blocks with
    | nil => exact fun s hs => hs
    | cons c blocks ih => exact fun s hs => ih _ (hs.setEpsilon c)
  exact key blocks _ WellFormed.empty

/-- Block `0` is defined in both states and nothing is known in it; the other block, which is only
defined in `b`, makes the result `false`. -/
theorem consistentWith_leaves_block :
    WellFormed (BeliefStateOffset.ofSucc 1 0) (epsilonOnly [0]) ∧
      WellFormed (BeliefStateOffset.ofSucc 1 0) (epsilonOnly [0, 1]) ∧
      ¬ DecidesBlock (epsilonOnly [0]) (epsilonOnly [0, 1]) 0 := by
  refine ⟨wellFormed_epsilonOnly _, wellFormed_epsilonOnly _, fun h => ?_⟩
  have hagree : (epsilonOnly [0]).AgreesWith (epsilonOnly [0, 1]) 0 := by
    intro j hj hj' hst
    obtain rfl : j = 1 := le_antisymm hj' hj
    exact absurd hst (by decide)
  exact absurd (h.mpr (Or.inr (Or.inr hagree))) (by decide)

/-- The equivalence for the two states of the example. -/
theorem consistentWith_correct_iff_epsilonOnly :
    WellFormed (BeliefStateOffset.ofSucc 1 0) (epsilonOnly [0]) ∧
      WellFormed (BeliefStateOffset.ofSucc 1 0) (epsilonOnly [0, 1]) ∧
      0 < (BeliefStateOffset.ofSucc 1 0).noBlocks ∧
      (DecidesBlock (epsilonOnly [0]) (epsilonOnly [0, 1]) 0 ↔
        (epsilonOnly [0]).isEpsilon (BeliefStateOffset.ofSucc 1 0) 0 = true ∨
          (epsilonOnly [0, 1]).isEpsilon (BeliefStateOffset.ofSucc 1 0) 0 = true ∨
          (epsilonOnly [0, 1]).KnowsBelief 0 ∨
          OutsideAgrees (epsilonOnly [0]) (epsilonOnly [0, 1]) 0) :=
  ⟨wellFormed_epsilonOnly _, wellFormed_epsilonOnly _, Nat.succ_pos 1,
    consistentWith_correct_iff (wellFormed_epsilonOnly _) (wellFormed_epsilonOnly _)
      (Nat.succ_pos 1)⟩

end NewBeliefState

end Dmcs
