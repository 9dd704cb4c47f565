import Dmcs.Mcs.JoinBlocks

/-!
# `combine` as a block-wise join, in any order

`combine` should succeed on two states exactly if they agree on all beliefs of their common blocks,
and then return the blocks of the first state, filled up with those of the second.  The result
should not depend on the order in which states are combined.

The masks of `BeliefStateOffset` end one position early: they cover the epsilon bit of a block and
all its beliefs but the last.  So `combine` accepts states that differ in a last belief, and loses
the last belief of a block that it copies.  `combinesBlockwise_iff` and `combine_any_order_iff` say
that it is right exactly if the last beliefs do not matter (`LastFits`).

## The argument

For two well-formed states `combine` succeeds if and only if they agree on the beliefs before the
last one of every common block (`exists_combine_iff`).  It joins them as it should if and only if
this already settles the last beliefs, which is what `LastFits` says: where both define a block the
last beliefs are the same, and where only the second does the last belief has no status, since it
is not copied.

For a list of states the condition is asked of any two of them.  It is then enough for every order,
because a block-wise join of a list does not depend on the order (`IsBlockJoin.perm`), and the fold
of `combine` computes it (`joinOne_eq_some_iff_isBlockJoin`).
-/

namespace Dmcs

open NewBeliefState

variable {bso : BeliefStateOffset}

namespace NewBeliefState

/-- The call `combine(s, t)` as its caller sees it: the result, and `s` afterwards. -/
def combineCall (s t : NewBeliefState bso.width) : Bool × NewBeliefState bso.width :=
  match combine s t with
  | none => (false, s)
  | some u => (true, u)

/-- `combine` joins two states block by block. -/
structure CombinesBlockwise (s t : NewBeliefState bso.width) : Prop where
  success : (combineCall s t).1 = true ↔ AgreeUpTo bso.sizeBs s t
  blocks : (combineCall s t).1 = true → ∀ c < bso.noBlocks,
    BlockEq c (combineCall s t).2 (if s.isEpsilon bso c then t else s)
  unchanged : (combineCall s t).1 = false → (combineCall s t).2 = s

lemma combineCall_of_some {s t u : NewBeliefState bso.width} (h : combine s t = some u) :
    combineCall s t = (true, u) := by
  unfold combineCall
  rw [h]

lemma combineCall_of_none {s t : NewBeliefState bso.width} (h : combine s t = none) :
    combineCall s t = (false, s) := by
  unfold combineCall
  rw [h]

/-- Combining a list of states in any order has the same result. -/
def CombinesInAnyOrder (l : List (NewBeliefState bso.width)) : Prop :=
  ∀ l' : List (NewBeliefState bso.width), l.Perm l' →
    StreamingJoiner.joinOne l' = StreamingJoiner.joinOne l

section Pair

variable {s t : NewBeliefState bso.width}

/-- `combine` succeeds exactly if the beliefs before the last ones agree. -/
lemma exists_combine_iff (hs : WellFormed bso s) (ht : WellFormed bso t) :
    (∃ u, combine s t = some u) ↔ AgreeUpTo (bso.sizeBs - 1) s t := by
  rw [← agreeMasked_iff_agreeUpTo hs ht, ← andBm_check_eq_iff]
  unfold combine
  simp only
  split <;> simp_all

lemma combineCall_fst_iff (hs : WellFormed bso s) (ht : WellFormed bso t) :
    (combineCall s t).1 = true ↔ AgreeUpTo (bso.sizeBs - 1) s t := by
  rw [← exists_combine_iff hs ht]
  cases h : combine s t with
  | none => simp [combineCall_of_none h]
  | some u => simp [combineCall_of_some h]

lemma AgreeUpTo.mono {n m : ℕ} (hnm : n ≤ m) (h : AgreeUpTo m s t) : AgreeUpTo n s t :=
  fun c hc hsc htc j hj hj' => h c hc hsc htc j hj (hj'.trans hnm)

/-- Agreement on all beliefs is agreement before the last ones and on these. -/
lemma agreeUpTo_sizeBs_of_last (h : AgreeUpTo (bso.sizeBs - 1) s t)
    (hlast : ∀ c < bso.noBlocks, s.isEpsilon bso c = false → t.isEpsilon bso c = false →
      s.status_bit.getLsbD (bso.startingOffset c + bso.sizeBs) =
          t.status_bit.getLsbD (bso.startingOffset c + bso.sizeBs) ∧
        s.value_bit.getLsbD (bso.startingOffset c + bso.sizeBs) =
          t.value_bit.getLsbD (bso.startingOffset c + bso.sizeBs)) :
    AgreeUpTo bso.sizeBs s t := by
  intro c hc hsc htc j hj hj'
  rcases Nat.lt_or_eq_of_le hj' with hlt | rfl
  · exact h c hc hsc htc j hj (by omega)
  · exact hlast c hc hsc htc

/-- `combine` joins two well-formed states block by block exactly if their last beliefs fit. -/
lemma combinesBlockwise_iff (hs : WellFormed bso s) (ht : WellFormed bso t) :
    CombinesBlockwise s t ↔ LastFits s t := by
  have hsuccess := combineCall_fst_iff hs ht
  constructor
  · intro h hagree c hc htc
    obtain ⟨u, hu⟩ := (exists_combine_iff hs ht).mpr hagree
    have hcall := combineCall_of_some hu
    refine ⟨fun hsc => ?_, fun hsc => ?_⟩
    · exact h.success.mp (hsuccess.mpr hagree) c hc hsc htc _ bso.sizeBs_pos le_rfl
    · have hblock := h.blocks (hsuccess.mpr hagree) c hc _ (bso.blockOf_add le_rfl)
      rw [if_pos hsc, hcall] at hblock
      obtain ⟨-, hstatus, -⟩ := (combine_eq_some_iff s t u).mp hu
      have hw := bso.startingOffset_add_lt hc (le_refl bso.sizeBs)
      have hnot : ¬ Copied s t (bso.startingOffset c + bso.sizeBs) := by
        rintro ⟨-, -, hm⟩
        rw [Masked, bso.add_mod le_rfl] at hm
        omega
      have hsbit := (hs.bits_of_isEpsilon (i := bso.startingOffset c + bso.sizeBs)
        (by rwa [bso.blockOf_add le_rfl])).1
      rw [← hblock.1, hstatus _ hw, hsbit]
      simp [hnot]
  · intro hfits
    refine ⟨?_, fun htrue c hc => ?_, fun hfalse => ?_⟩
    · rw [hsuccess]
      refine ⟨fun hagree => ?_, AgreeUpTo.mono (Nat.sub_le _ _)⟩
      exact agreeUpTo_sizeBs_of_last hagree
        (fun c hc hsc htc => (hfits hagree c hc htc).1 hsc)
    · obtain ⟨u, hu⟩ := (exists_combine_iff hs ht).mpr (hsuccess.mp htrue)
      have hjoin := IsBlockJoin.of_combine hs ht hfits hu
      rw [combineCall_of_some hu]
      cases hsc : s.isEpsilon bso c with
      | false => exact (hjoin.agrees s (by simp) c hsc).symm
      | true =>
          cases htc : t.isEpsilon bso c with
          | false => exact (hjoin.agrees t (by simp) c htc).symm
          | true =>
              have huc : u.isEpsilon bso c = true := by
                rw [← Bool.not_eq_false]
                intro huc
                obtain ⟨a, ha, hac⟩ := hjoin.covered c huc
                rcases List.mem_pair.mp ha with rfl | rfl
                · rw [hsc] at hac; cases hac
                · rw [htc] at hac; cases hac
              rintro i rfl
              simp [hjoin.wellFormed.bits_of_isEpsilon huc, ht.bits_of_isEpsilon htc]
    · cases h : combine s t with
      | none => rw [combineCall_of_none h]
      | some u =>
          rw [combineCall_of_some h] at hfalse
          cases hfalse

end Pair

/-- `combine` joins any two states of a list block by block, and all of them with the same result in
any order, exactly if the last beliefs of any two of them fit.  A list of one state has to combine
with itself, so the condition is asked of equal states, too. -/
theorem combine_any_order_iff (l : List (NewBeliefState bso.width))
    (hwf : ∀ s ∈ l, WellFormed bso s) :
    ((∀ s ∈ l, ∀ t ∈ l, CombinesBlockwise s t) ∧ CombinesInAnyOrder l) ↔
      ∀ s ∈ l, ∀ t ∈ l, LastFits s t := by
  constructor
  · rintro ⟨hpairs, -⟩ s hs t ht
    exact (combinesBlockwise_iff (hwf s hs) (hwf t ht)).mp (hpairs s hs t ht)
  · intro hfits
    refine ⟨fun s hs t ht => (combinesBlockwise_iff (hwf s hs) (hwf t ht)).mpr
      (hfits s hs t ht), fun l' hperm => ?_⟩
    rcases eq_or_ne l [] with rfl | hne
    · rw [hperm.nil_eq]
    · have hne' : l' ≠ [] := fun hnil => hne (by rw [hnil] at hperm; exact hperm.eq_nil)
      refine Option.ext (fun u => ?_)
      rw [joinOne_eq_some_iff_isBlockJoin hne' (fun s hs => hwf s (hperm.mem_iff.mpr hs)),
        joinOne_eq_some_iff_isBlockJoin hne hwf, IsBlockJoin.perm hperm]
      · exact List.pairwise_of_forall_mem_list hfits
      · exact List.pairwise_of_forall_mem_list
          (fun s hs t ht => hfits s (hperm.mem_iff.mpr hs) t (hperm.mem_iff.mpr ht))

/-- One block with one belief, which has the truth value `v`. -/
def onlyBelief (v : TruthVal) : NewBeliefState (BeliefStateOffset.ofSucc 0 0).width :=
  ((NewBeliefState.empty _).setEpsilon (BeliefStateOffset.ofSucc 0 0) 0).set 1 v

lemma wellFormed_onlyBelief {v : TruthVal} (hv : v ≠ .dmcsUndef) :
    WellFormed (BeliefStateOffset.ofSucc 0 0) (onlyBelief v) := by
  refine (WellFormed.empty.setEpsilon 0).set (by decide) (fun _ => ?_) hv
  rw [setEpsilon_status]
  exact if_pos (by decide)

/-- The states differ in their only belief, but they are combined, and whichever comes first wins.
-/
theorem combine_misses_last_belief :
    WellFormed (BeliefStateOffset.ofSucc 0 0) (onlyBelief .dmcsTrue) ∧
      WellFormed (BeliefStateOffset.ofSucc 0 0) (onlyBelief .dmcsFalse) ∧
      ¬ CombinesBlockwise (onlyBelief .dmcsTrue) (onlyBelief .dmcsFalse) ∧
      ¬ CombinesInAnyOrder [onlyBelief .dmcsTrue, onlyBelief .dmcsFalse] := by
  refine ⟨wellFormed_onlyBelief (by decide), wellFormed_onlyBelief (by decide), fun h => ?_,
    fun h => ?_⟩
  · have hagree := h.success.mp (by decide) 0 (by decide) (by decide) (by decide) 1 le_rfl
      (by decide)
    exact absurd hagree.2 (by decide)
  · exact absurd (h [onlyBelief .dmcsFalse, onlyBelief .dmcsTrue] (List.Perm.swap _ _ _))
      (by decide)

/-- Two blocks with two beliefs each. -/
abbrev twoByTwo : BeliefStateOffset := .ofSucc 1 1

/-- Only the block `c`, with a value for its first belief. -/
def oneBlockOf (c : ℕ) (v : TruthVal) : NewBeliefState twoByTwo.width :=
  ((NewBeliefState.empty _).setEpsilon twoByTwo c).set (twoByTwo.startingOffset c + 1) v

/-- A state of the first block, a state of the second one, and a state of both. -/
def overlapping : List (NewBeliefState twoByTwo.width) :=
  [oneBlockOf 0 .dmcsTrue, oneBlockOf 1 .dmcsFalse,
    (oneBlockOf 0 .dmcsTrue).union (oneBlockOf 1 .dmcsFalse)]

lemma wellFormed_oneBlockOf {c : ℕ} (hc : c < 2) {v : TruthVal} (hv : v ≠ .dmcsUndef) :
    WellFormed twoByTwo (oneBlockOf c v) := by
  interval_cases c
  · exact (WellFormed.empty.setEpsilon 0).set (by decide) (fun _ => by decide) hv
  · exact (WellFormed.empty.setEpsilon 1).set (by decide) (fun _ => by decide) hv

lemma wellFormed_overlapping : ∀ s ∈ overlapping, WellFormed twoByTwo s := by
  have hfirst : WellFormed twoByTwo (oneBlockOf 0 .dmcsTrue) :=
    wellFormed_oneBlockOf (by omega) (by decide)
  have hsecond : WellFormed twoByTwo (oneBlockOf 1 .dmcsFalse) :=
    wellFormed_oneBlockOf (by omega) (by decide)
  unfold overlapping
  simp only [List.forall_mem_cons]
  exact ⟨hfirst, hsecond, hfirst.union hsecond, fun _ h => absurd h List.not_mem_nil⟩

/-- The three states are combined in any order, and the result is the state of both blocks. -/
theorem combine_any_order_iff_overlapping :
    (∀ s ∈ overlapping, ∀ t ∈ overlapping, CombinesBlockwise s t) ∧
      CombinesInAnyOrder overlapping ∧
      StreamingJoiner.joinOne overlapping =
        some ((oneBlockOf 0 .dmcsTrue).union (oneBlockOf 1 .dmcsFalse)) := by
  have hlast : ∀ s ∈ overlapping, ∀ t ∈ overlapping, LastFits s t := by
    -- none of them has a last belief
    have hnone : ∀ s ∈ overlapping, ∀ c < twoByTwo.noBlocks,
        s.status_bit.getLsbD (twoByTwo.startingOffset c + twoByTwo.sizeBs) = false ∧
          s.value_bit.getLsbD (twoByTwo.startingOffset c + twoByTwo.sizeBs) = false := by decide
    intro s hs t ht _ c hc _
    obtain ⟨hstatus, hvalue⟩ := hnone s hs c hc
    obtain ⟨hstatus', hvalue'⟩ := hnone t ht c hc
    exact ⟨fun _ => ⟨hstatus.trans hstatus'.symm, hvalue.trans hvalue'.symm⟩, fun _ => hstatus'⟩
  obtain ⟨hblockwise, horder⟩ := (combine_any_order_iff _ wellFormed_overlapping).2 hlast
  exact ⟨hblockwise, horder, by decide⟩

end NewBeliefState

end Dmcs
