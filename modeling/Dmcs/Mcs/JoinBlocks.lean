import Dmcs.Mcs.JoinPacks
import Dmcs.Mcs.WellFormed

/-!
# Joining proper states block by block

`combine` compares and copies whole blocks, except for the last belief of a block, which the masks
leave out.  A state is `Proper` when it is well-formed and does not use that last belief; for
proper states a join has a simple description (`IsJoin`): it is defined on the blocks that some
state defines, and there it is that state.  `joinOne_eq_some_iff` and `mem_joinedInputs` say that
the joiner computes exactly the joins.

## Two kinds of joins

`IsJoin` is the plain notion: the blocks of the joined state are those of the given states, and
states that define a block in common agree on it.  `IsBlockJoin` is what `combine` computes for
well-formed states whose last beliefs fit; it does not depend on the order, which is what
makes a fold over `combine` say something about the list.  For proper states the two are the
same.

`joinedInputs` lists what a context gets to evaluate when all its neighbours have sent everything:
one state for each combination that joins, or the empty state for a context without neighbours.
`joinRun_eq_joinedInputs` ties this list to the joiner, with its queries and its queue.
-/

namespace Dmcs

open BitScan Odometer

variable {bso : BeliefStateOffset}

namespace NewBeliefState

instance {w : ℕ} : Inhabited (NewBeliefState w) := ⟨NewBeliefState.empty w⟩

/-- The part of a state at the positions that satisfy a predicate. -/
def keep {w : ℕ} (s : NewBeliefState w) (p : ℕ → Bool) : NewBeliefState w := s.andBm (ofPred w p)

lemma value_lt {w : ℕ} {s : NewBeliefState w} {i : ℕ} (h : s.value_bit.getLsbD i = true) :
    i < w := by
  by_contra hw
  simp [BitVec.getLsbD_of_ge _ _ (not_lt.mp hw)] at h

@[simp] lemma keep_status {w : ℕ} (s : NewBeliefState w) (p : ℕ → Bool) (i : ℕ) :
    (s.keep p).status_bit.getLsbD i = (s.status_bit.getLsbD i && p i) := by
  rw [keep, andBm_status, getLsbD_ofPred]
  cases h : s.status_bit.getLsbD i with
  | false => rfl
  | true => simp [status_lt h]

@[simp] lemma keep_value {w : ℕ} (s : NewBeliefState w) (p : ℕ → Bool) (i : ℕ) :
    (s.keep p).value_bit.getLsbD i = (s.value_bit.getLsbD i && p i) := by
  rw [keep, andBm_value, getLsbD_ofPred]
  cases h : s.value_bit.getLsbD i with
  | false => rfl
  | true => simp [value_lt h]

/-- `s` has every truth value `t` has. -/
def Extends {w : ℕ} (s t : NewBeliefState w) : Prop :=
  ∀ i, t.status_bit.getLsbD i = true →
    s.status_bit.getLsbD i = true ∧ s.value_bit.getLsbD i = t.value_bit.getLsbD i

lemma Extends.trans {w : ℕ} {s t u : NewBeliefState w} (h : s.Extends t) (h' : t.Extends u) :
    s.Extends u := by
  intro i hi
  obtain ⟨ht, hv⟩ := h' i hi
  exact ⟨(h i ht).1, (h i ht).2.trans hv⟩

/-- Where `t` has a truth value, `s` has the same one if and only if the bits agree. -/
lemma test_eq_test_iff {w : ℕ} {s t : NewBeliefState w} {i : ℕ}
    (ht : t.status_bit.getLsbD i = true) :
    s.test i = t.test i ↔
      s.status_bit.getLsbD i = true ∧ s.value_bit.getLsbD i = t.value_bit.getLsbD i := by
  unfold test
  rw [ht]
  cases s.status_bit.getLsbD i <;> cases s.value_bit.getLsbD i <;>
    cases t.value_bit.getLsbD i <;> simp

lemma extends_keep {w : ℕ} (s : NewBeliefState w) (p : ℕ → Bool) : s.Extends (s.keep p) := by
  intro i hi
  rw [keep_status, Bool.and_eq_true] at hi
  simp [hi.1, hi.2]

/-- The block of a context, all other blocks undefined. -/
def block (bso : BeliefStateOffset) (s : NewBeliefState bso.width) (c : ℕ) :
    NewBeliefState bso.width :=
  s.keep (fun i => decide (bso.blockOf i = c))

/-- Two states have the same bits in a block. -/
def BlockEq (c : ℕ) (s t : NewBeliefState bso.width) : Prop :=
  ∀ i, bso.blockOf i = c → s.status_bit.getLsbD i = t.status_bit.getLsbD i ∧
    s.value_bit.getLsbD i = t.value_bit.getLsbD i

lemma BlockEq.symm {c : ℕ} {s t : NewBeliefState bso.width} (h : BlockEq c s t) : BlockEq c t s :=
  fun i hi => ⟨(h i hi).1.symm, (h i hi).2.symm⟩

lemma BlockEq.trans {c : ℕ} {s t u : NewBeliefState bso.width} (h : BlockEq c s t)
    (h' : BlockEq c t u) : BlockEq c s u :=
  fun i hi => ⟨(h i hi).1.trans (h' i hi).1, (h i hi).2.trans (h' i hi).2⟩

lemma BlockEq.isEpsilon {c : ℕ} {s t : NewBeliefState bso.width} (h : BlockEq c s t) :
    s.isEpsilon bso c = t.isEpsilon bso c := by
  rw [NewBeliefState.isEpsilon, NewBeliefState.isEpsilon,
    (h _ (bso.blockOf_startingOffset c)).1]

lemma block_eq_iff {c : ℕ} {s t : NewBeliefState bso.width} :
    s.block bso c = t.block bso c ↔ BlockEq c s t := by
  constructor
  · intro h i hi
    have h1 := congrArg (fun u => u.status_bit.getLsbD i) h
    have h2 := congrArg (fun u => u.value_bit.getLsbD i) h
    simpa [block, hi] using And.intro h1 h2
  · intro h
    refine ext_bits (fun i => ?_) (fun i => ?_)
    · by_cases hi : bso.blockOf i = c
      · simp [block, hi, (h i hi).1]
      · simp [block, hi]
    · by_cases hi : bso.blockOf i = c
      · simp [block, hi, (h i hi).2]
      · simp [block, hi]

end NewBeliefState

open NewBeliefState

namespace WellFormed

variable {s : NewBeliefState bso.width}

lemma value_eq_false (h : WellFormed bso s) {i : ℕ} (hi : s.status_bit.getLsbD i = false) :
    s.value_bit.getLsbD i = false := by
  rw [Bool.eq_false_iff]
  intro hv
  rw [h.value_le i hv] at hi
  cases hi

lemma isEpsilon_blockOf (h : WellFormed bso s) {i : ℕ} (hi : s.status_bit.getLsbD i = true) :
    s.isEpsilon bso (bso.blockOf i) = false :=
  isEpsilon_eq_false.mpr (h.block_epsilon i hi)

/-- A block without epsilon bit has no bits. -/
lemma bits_of_isEpsilon (h : WellFormed bso s) {i : ℕ}
    (hi : s.isEpsilon bso (bso.blockOf i) = true) :
    s.status_bit.getLsbD i = false ∧ s.value_bit.getLsbD i = false := by
  have hstatus : s.status_bit.getLsbD i = false := by
    rw [Bool.eq_false_iff]
    intro hs
    rw [h.isEpsilon_blockOf hs] at hi
    cases hi
  exact ⟨hstatus, h.value_eq_false hstatus⟩

lemma keep_blocks (h : WellFormed bso s) (p : ℕ → Bool) :
    WellFormed bso (s.keep (fun i => p (bso.blockOf i))) := by
  refine ⟨fun i hi => ?_, fun c hc => ?_, fun i hi => ?_⟩
  · rw [keep_value, Bool.and_eq_true] at hi
    rw [keep_status, Bool.and_eq_true]
    exact ⟨h.value_le i hi.1, hi.2⟩
  · rw [keep_status, Bool.and_eq_true] at hc
    rw [keep_value, Bool.and_eq_true]
    exact ⟨h.epsilon_true c hc.1, hc.2⟩
  · rw [keep_status, Bool.and_eq_true] at hi ⊢
    rw [bso.blockOf_startingOffset]
    exact ⟨h.block_epsilon i hi.1, hi.2⟩

end WellFormed

/-- A well-formed state whose blocks do not use their last belief. -/
structure Proper (s : NewBeliefState bso.width) : Prop extends WellFormed bso s where
  masked : ∀ i, s.status_bit.getLsbD i = true → Masked bso i

namespace Proper

variable {s t u : NewBeliefState bso.width}

lemma empty : Proper (NewBeliefState.empty bso.width) := ⟨WellFormed.empty, by simp⟩

lemma union (hs : Proper s) (ht : Proper t) : Proper (s.union t) := by
  refine ⟨hs.toWellFormed.union ht.toWellFormed, fun i hi => ?_⟩
  rw [union_status, Bool.or_eq_true] at hi
  exact hi.elim (hs.masked i) (ht.masked i)

lemma inter (hs : Proper s) (ht : WellFormed.Interface bso t) : Proper (s.inter t) := by
  refine ⟨hs.toWellFormed.inter ht, fun i hi => ?_⟩
  rw [inter_status, Bool.and_eq_true] at hi
  exact hs.masked i hi.1

end Proper

/-! ## Joins -/

/-- `u` is defined on the blocks some state of `l` defines, and has there that state's block. -/
structure IsBlockJoin (l : List (NewBeliefState bso.width)) (u : NewBeliefState bso.width) :
    Prop where
  wellFormed : WellFormed bso u
  agrees : ∀ s ∈ l, ∀ c, s.isEpsilon bso c = false → BlockEq c s u
  covered : ∀ c, u.isEpsilon bso c = false → ∃ s ∈ l, s.isEpsilon bso c = false

namespace IsBlockJoin

variable {l : List (NewBeliefState bso.width)} {s t u v : NewBeliefState bso.width}

/-- A join is determined by its states. -/
lemma unique (h : IsBlockJoin l u) (h' : IsBlockJoin l v) : u = v := by
  have hle : ∀ {u v : NewBeliefState bso.width}, IsBlockJoin l u → IsBlockJoin l v → ∀ i,
      u.isEpsilon bso (bso.blockOf i) = false →
        u.status_bit.getLsbD i = v.status_bit.getLsbD i ∧
          u.value_bit.getLsbD i = v.value_bit.getLsbD i := by
    intro u v h h' i hi
    obtain ⟨s, hs, hsc⟩ := h.covered _ hi
    exact ((h.agrees s hs _ hsc).symm.trans (h'.agrees s hs _ hsc)) i rfl
  have hbits : ∀ i, u.status_bit.getLsbD i = v.status_bit.getLsbD i ∧
      u.value_bit.getLsbD i = v.value_bit.getLsbD i := by
    intro i
    cases hu : u.isEpsilon bso (bso.blockOf i) with
    | false => exact hle h h' i hu
    | true =>
        cases hv : v.isEpsilon bso (bso.blockOf i) with
        | false =>
            have := hle h' h i hv
            exact ⟨this.1.symm, this.2.symm⟩
        | true =>
            rw [(h.wellFormed.bits_of_isEpsilon hu).1, (h.wellFormed.bits_of_isEpsilon hu).2,
              (h'.wellFormed.bits_of_isEpsilon hv).1, (h'.wellFormed.bits_of_isEpsilon hv).2]
            exact ⟨rfl, rfl⟩
  exact ext_bits (fun i => (hbits i).1) (fun i => (hbits i).2)

lemma singleton (hs : WellFormed bso s) : IsBlockJoin [s] u ↔ u = s := by
  have hself : IsBlockJoin [s] s :=
    ⟨hs, by simp [BlockEq], fun c hc => ⟨s, List.mem_singleton.mpr rfl, hc⟩⟩
  exact ⟨fun h => h.unique hself, fun h => h ▸ hself⟩

/-- The part of a join that two of its states define. -/
lemma exists_pair (h : IsBlockJoin (s :: t :: l) u) :
    ∃ v, IsBlockJoin [s, t] v ∧ IsBlockJoin (v :: l) u := by
  let p : ℕ → Bool := fun c => !s.isEpsilon bso c || !t.isEpsilon bso c
  set v := u.keep (fun i => p (bso.blockOf i)) with hv
  have hkeep : ∀ c, p c = true → BlockEq c u v := by
    rintro c hc i rfl
    simp [hv, hc]
  have hdefined : ∀ c, v.isEpsilon bso c = false → p c = true := by
    intro c hc
    rw [isEpsilon_eq_false, hv, keep_status, bso.blockOf_startingOffset, Bool.and_eq_true] at hc
    exact hc.2
  have hs := h.agrees s (by simp)
  have ht := h.agrees t (by simp)
  refine ⟨v, ⟨h.wellFormed.keep_blocks p, fun a ha c hac => ?_, fun c hc => ?_⟩, h.wellFormed,
    fun a ha c hac => ?_, fun c hc => ?_⟩
  · rcases List.mem_pair.mp ha with rfl | rfl
    · exact (hs c hac).trans (hkeep c (by simp [p, hac]))
    · exact (ht c hac).trans (hkeep c (by simp [p, hac]))
  · rcases Bool.or_eq_true _ _ ▸ hdefined c hc with hc | hc
    · exact ⟨s, by simp, by simpa using hc⟩
    · exact ⟨t, by simp, by simpa using hc⟩
  · rcases List.mem_cons.mp ha with rfl | ha
    · exact (hkeep c (hdefined c hac)).symm
    · exact h.agrees a (by simp [ha]) c hac
  · obtain ⟨a, ha, hac⟩ := h.covered c hc
    simp only [List.mem_cons] at ha
    rcases ha with rfl | rfl | ha
    · exact ⟨v, by simp, ((hs c hac).trans (hkeep c (by simp [p, hac]))).isEpsilon ▸ hac⟩
    · exact ⟨v, by simp, ((ht c hac).trans (hkeep c (by simp [p, hac]))).isEpsilon ▸ hac⟩
    · exact ⟨a, by simp [ha], hac⟩

lemma of_pair (hv : IsBlockJoin [s, t] v) (h : IsBlockJoin (v :: l) u) :
    IsBlockJoin (s :: t :: l) u := by
  have hvu := h.agrees v (by simp)
  refine ⟨h.wellFormed, fun a ha c hac => ?_, fun c hc => ?_⟩
  · simp only [List.mem_cons] at ha
    rcases ha with rfl | rfl | ha
    · have hav := hv.agrees a (by simp) c hac
      exact hav.trans (hvu c (hav.isEpsilon ▸ hac))
    · have hav := hv.agrees a (by simp) c hac
      exact hav.trans (hvu c (hav.isEpsilon ▸ hac))
    · exact h.agrees a (by simp [ha]) c hac
  · obtain ⟨a, ha, hac⟩ := h.covered c hc
    rcases List.mem_cons.mp ha with rfl | ha
    · obtain ⟨b, hb, hbc⟩ := hv.covered c hac
      exact ⟨b, List.mem_append_left l hb, hbc⟩
    · exact ⟨a, by simp [ha], hac⟩

/-- Two states first, then the others. -/
lemma cons_cons :
    IsBlockJoin (s :: t :: l) u ↔ ∃ v, IsBlockJoin [s, t] v ∧ IsBlockJoin (v :: l) u :=
  ⟨exists_pair, fun ⟨_, hv, h⟩ => of_pair hv h⟩

/-- The order of the states does not matter. -/
lemma perm {l' : List (NewBeliefState bso.width)} (hperm : l.Perm l') :
    IsBlockJoin l u ↔ IsBlockJoin l' u := by
  have himp : ∀ {l l' : List (NewBeliefState bso.width)}, l.Perm l' → IsBlockJoin l u →
      IsBlockJoin l' u := by
    intro l l' hperm h
    refine ⟨h.wellFormed, fun s hs => h.agrees s (hperm.mem_iff.mpr hs), fun c hc => ?_⟩
    obtain ⟨s, hs, hsc⟩ := h.covered c hc
    exact ⟨s, hperm.mem_iff.mp hs, hsc⟩
  exact ⟨himp hperm, himp hperm.symm⟩

end IsBlockJoin

/-- `u` is defined on the blocks some state of `l` defines, and agrees there with that state. -/
structure IsJoin (l : List (NewBeliefState bso.width)) (u : NewBeliefState bso.width) : Prop where
  proper : Proper u
  agrees : ∀ s ∈ l, ∀ c, s.isEpsilon bso c = false → BlockEq c s u
  covered : ∀ c, u.isEpsilon bso c = false → ∃ s ∈ l, s.isEpsilon bso c = false

namespace IsJoin

variable {l : List (NewBeliefState bso.width)} {s t u v : NewBeliefState bso.width}

lemma isBlockJoin (h : IsJoin l u) : IsBlockJoin l u :=
  ⟨h.proper.toWellFormed, h.agrees, h.covered⟩

/-- A block join of proper states is proper. -/
lemma of_isBlockJoin (hl : ∀ s ∈ l, Proper s) (h : IsBlockJoin l u) : IsJoin l u := by
  refine ⟨⟨h.wellFormed, fun i hi => ?_⟩, h.agrees, h.covered⟩
  obtain ⟨s, hs, hsc⟩ := h.covered _ (h.wellFormed.isEpsilon_blockOf hi)
  exact (hl s hs).masked i ((h.agrees s hs _ hsc i rfl).1.trans hi)

/-- A join is determined by its states. -/
lemma unique (h : IsJoin l u) (h' : IsJoin l v) : u = v := h.isBlockJoin.unique h'.isBlockJoin

lemma nil : IsJoin [] u ↔ u = NewBeliefState.empty bso.width := by
  have hempty : IsJoin [] (NewBeliefState.empty bso.width) :=
    ⟨Proper.empty, by simp, by simp [NewBeliefState.isEpsilon]⟩
  exact ⟨fun h => h.unique hempty, fun h => h ▸ hempty⟩

variable (hl : ∀ s ∈ l, Proper s)
include hl

/-- A join extends each of its states. -/
lemma extends_of_mem (h : IsJoin l u) (hs : s ∈ l) : u.Extends s := by
  intro i hi
  obtain ⟨hstatus, hvalue⟩ := h.agrees s hs _ ((hl s hs).isEpsilon_blockOf hi) i rfl
  exact ⟨hstatus ▸ hi, hvalue.symm⟩

/-- A join has no other bits than its states. -/
lemma status_iff (h : IsJoin l u) (i : ℕ) :
    u.status_bit.getLsbD i = true ↔ ∃ s ∈ l, s.status_bit.getLsbD i = true := by
  constructor
  · intro hi
    obtain ⟨s, hs, hblock⟩ := h.covered _ (h.proper.isEpsilon_blockOf hi)
    exact ⟨s, hs, (h.agrees s hs _ hblock i rfl).1.trans hi⟩
  · rintro ⟨s, hs, hi⟩
    exact (h.extends_of_mem hl hs i hi).1

/-- States that define their common blocks at the same positions and agree with one state have a
join: what they cover of that state. -/
lemma of_extends (hext : ∀ s ∈ l, t.Extends s)
    (hfit : ∀ s ∈ l, ∀ v ∈ l, ∀ i, s.isEpsilon bso (bso.blockOf i) = false →
      v.status_bit.getLsbD i = true → s.status_bit.getLsbD i = true) :
    IsJoin l (t.keep (fun i => l.any (fun s => s.status_bit.getLsbD i))) := by
  set p : ℕ → Bool := fun i => l.any (fun s => s.status_bit.getLsbD i) with hp
  have hany : ∀ i, p i = true ↔ ∃ s ∈ l, s.status_bit.getLsbD i = true := by simp [hp]
  have hstatus : ∀ i, (t.keep p).status_bit.getLsbD i = true ↔ p i = true := by
    intro i
    rw [keep_status, Bool.and_eq_true, and_iff_right_iff_imp]
    intro hi
    obtain ⟨s, hs, hi⟩ := (hany i).mp hi
    exact (hext s hs i hi).1
  have hvalue : ∀ s ∈ l, ∀ i, s.status_bit.getLsbD i = true →
      (t.keep p).value_bit.getLsbD i = s.value_bit.getLsbD i := by
    intro s hs i hi
    rw [keep_value, (hany i).mpr ⟨s, hs, hi⟩, Bool.and_true, (hext s hs i hi).2]
  refine ⟨⟨⟨fun i hi => ?_, fun c hc => ?_, fun i hi => ?_⟩, fun i hi => ?_⟩, ?_, fun c hc => ?_⟩
  · rw [keep_value, Bool.and_eq_true] at hi
    exact (hstatus i).mpr hi.2
  · obtain ⟨s, hs, hsc⟩ := (hany _).mp ((hstatus _).mp hc)
    rw [hvalue s hs _ hsc]
    exact (hl s hs).epsilon_true c hsc
  · obtain ⟨s, hs, hsi⟩ := (hany _).mp ((hstatus _).mp hi)
    exact (hstatus _).mpr ((hany _).mpr ⟨s, hs, (hl s hs).block_epsilon i hsi⟩)
  · obtain ⟨s, hs, hsi⟩ := (hany _).mp ((hstatus _).mp hi)
    exact (hl s hs).masked i hsi
  · rintro s hs c hc i rfl
    cases hi : s.status_bit.getLsbD i with
    | true => exact ⟨((hstatus i).mpr ((hany i).mpr ⟨s, hs, hi⟩)).symm, (hvalue s hs i hi).symm⟩
    | false =>
        have hpi : p i = false := by
          rw [Bool.eq_false_iff]
          intro hpi
          obtain ⟨v, hv, hvi⟩ := (hany i).mp hpi
          rw [hfit s hs v hv i hc hvi] at hi
          cases hi
        simp [hpi, (hl s hs).value_eq_false hi]
  · obtain ⟨s, hs, hsc⟩ := (hany _).mp ((hstatus _).mp (isEpsilon_eq_false.mp hc))
    exact ⟨s, hs, isEpsilon_eq_false.mpr hsc⟩

end IsJoin

/-! ## What `combine` computes -/

namespace NewBeliefState

/-- The beliefs at the addresses `1, …, n` of the blocks defined in both states have the same status
and the same value. -/
def AgreeUpTo (n : ℕ) (s t : NewBeliefState bso.width) : Prop :=
  ∀ c < bso.noBlocks, s.isEpsilon bso c = false → t.isEpsilon bso c = false →
    ∀ j, 1 ≤ j → j ≤ n →
      s.status_bit.getLsbD (bso.startingOffset c + j) =
          t.status_bit.getLsbD (bso.startingOffset c + j) ∧
        s.value_bit.getLsbD (bso.startingOffset c + j) =
          t.value_bit.getLsbD (bso.startingOffset c + j)

/-- Unless two states differ before the last beliefs of their blocks, these last beliefs, which the
masks leave out, are the same in the blocks defined in both, and have no status in a block that only
the second state defines. -/
def LastFits (s t : NewBeliefState bso.width) : Prop :=
  AgreeUpTo (bso.sizeBs - 1) s t → ∀ c < bso.noBlocks, t.isEpsilon bso c = false →
    (s.isEpsilon bso c = false →
      s.status_bit.getLsbD (bso.startingOffset c + bso.sizeBs) =
          t.status_bit.getLsbD (bso.startingOffset c + bso.sizeBs) ∧
        s.value_bit.getLsbD (bso.startingOffset c + bso.sizeBs) =
          t.value_bit.getLsbD (bso.startingOffset c + bso.sizeBs)) ∧
    (s.isEpsilon bso c = true →
      t.status_bit.getLsbD (bso.startingOffset c + bso.sizeBs) = false)

/-- The masks leave out the last belief of a block. -/
lemma eq_last_of_not_masked {i : ℕ} (hi : ¬ Masked bso i) :
    i = bso.startingOffset (bso.blockOf i) + bso.sizeBs := by
  have hmod := Nat.mod_lt i (show 0 < bso.sizeBs + 1 by omega)
  have heq := bso.startingOffset_blockOf i
  unfold Masked at hi
  omega

end NewBeliefState

section Combine

variable {s t u : NewBeliefState bso.width}

/-- Where `s` is defined, `combine` leaves it alone. -/
lemma blockEq_of_combine_left {c : ℕ} (h : s.combine t = some u)
    (hc : s.isEpsilon bso c = false) : BlockEq c s u := by
  obtain ⟨-, hstatus, hvalue⟩ := (combine_eq_some_iff s t u).mp h
  rintro i rfl
  by_cases hw : i < bso.width
  · have hnot : ¬ Copied s t i := fun hcopied => by rw [hcopied.1] at hc; cases hc
    rw [hstatus i hw, hvalue i hw]
    simp [hnot]
  · simp [BitVec.getLsbD_of_ge _ _ (not_lt.mp hw)]

variable (hs : WellFormed bso s) (ht : WellFormed bso t)
include hs ht

lemma agreeMasked_iff_agreeUpTo : AgreeMasked s t ↔ AgreeUpTo (bso.sizeBs - 1) s t := by
  constructor
  · intro h c hc hsc htc j hj hj'
    have hle : j ≤ bso.sizeBs := by omega
    refine h _ (bso.startingOffset_add_lt hc hle) ?_ ?_ ?_
    · rwa [bso.blockOf_add hle]
    · rwa [bso.blockOf_add hle]
    · rw [Masked, bso.add_mod hle]
      omega
  · intro h i hi hsi hti hm
    have heq := bso.startingOffset_blockOf i
    rcases Nat.eq_zero_or_pos (i % (bso.sizeBs + 1)) with hzero | hpos
    · -- the epsilon bit, which is set and `TRUE` in both states
      rw [hzero, Nat.add_zero] at heq
      rw [isEpsilon_eq_false] at hsi hti
      have hsv := hs.epsilon_true _ hsi
      have htv := ht.epsilon_true _ hti
      rw [heq] at hsi hti hsv htv
      rw [hsi, hti, hsv, htv]
      exact ⟨rfl, rfl⟩
    · unfold Masked at hm
      have := h _ (bso.blockOf_lt hi) hsi hti (i % (bso.sizeBs + 1)) hpos (by omega)
      rwa [heq] at this

variable (hfits : LastFits s t)
include hfits

/-- Where `t` is defined, `s` agrees with it, or its block is copied. -/
lemma blockEq_of_combine_right {c : ℕ} (h : s.combine t = some u)
    (hc : t.isEpsilon bso c = false) : BlockEq c t u := by
  obtain ⟨hagree, hstatus, hvalue⟩ := (combine_eq_some_iff s t u).mp h
  have hfits := hfits ((agreeMasked_iff_agreeUpTo hs ht).mp hagree)
  rintro i rfl
  by_cases hw : i < bso.width
  · obtain ⟨hsame, hnone⟩ := hfits _ (bso.blockOf_lt hw) hc
    cases hsc : s.isEpsilon bso (bso.blockOf i) with
    | false =>
        have hsui := blockEq_of_combine_left h hsc i rfl
        have hst : s.status_bit.getLsbD i = t.status_bit.getLsbD i ∧
            s.value_bit.getLsbD i = t.value_bit.getLsbD i := by
          by_cases hm : Masked bso i
          · exact hagree i hw hsc hc hm
          · have hlast := hsame hsc
            rwa [← eq_last_of_not_masked hm] at hlast
        exact ⟨hst.1.symm.trans hsui.1, hst.2.symm.trans hsui.2⟩
    | true =>
        rw [hstatus i hw, hvalue i hw, (hs.bits_of_isEpsilon hsc).1, (hs.bits_of_isEpsilon hsc).2]
        cases hti : t.status_bit.getLsbD i with
        | false => simp [ht.value_eq_false hti]
        | true =>
            have hm : Masked bso i := by
              by_contra hm
              have hlast := hnone hsc
              rw [← eq_last_of_not_masked hm, hti] at hlast
              cases hlast
            have hcopied : Copied s t i := ⟨hsc, hc, hm⟩
            simp [hcopied]
  · simp [BitVec.getLsbD_of_ge _ _ (not_lt.mp hw)]

lemma IsBlockJoin.of_combine (h : s.combine t = some u) : IsBlockJoin [s, t] u := by
  obtain ⟨-, hstatus, -⟩ := (combine_eq_some_iff s t u).mp h
  refine ⟨hs.combine ht h, fun a ha c hac => ?_, fun c hc => ?_⟩
  · rcases List.mem_pair.mp ha with rfl | rfl
    · exact blockEq_of_combine_left h hac
    · exact blockEq_of_combine_right hs ht hfits h hac
  · rw [isEpsilon_eq_false] at hc
    rw [hstatus _ (status_lt hc), Bool.or_eq_true, Bool.and_eq_true] at hc
    rcases hc with hc | hc
    · exact ⟨s, by simp, isEpsilon_eq_false.mpr hc⟩
    · exact ⟨t, by simp, isEpsilon_eq_false.mpr hc.1⟩

lemma IsBlockJoin.combine_eq (h : IsBlockJoin [s, t] u) : s.combine t = some u := by
  have hsu := h.agrees s (by simp)
  have htu := h.agrees t (by simp)
  have hagree : AgreeMasked s t :=
    fun i _ hsc htc _ => ((hsu _ hsc).trans (htu _ htc).symm) i rfl
  have hfits := hfits ((agreeMasked_iff_agreeUpTo hs ht).mp hagree)
  have hbits : ∀ i < bso.width, u.status_bit.getLsbD i =
        (s.status_bit.getLsbD i || (t.status_bit.getLsbD i && decide (Copied s t i))) ∧
      u.value_bit.getLsbD i =
        (s.value_bit.getLsbD i || (t.value_bit.getLsbD i && decide (Copied s t i))) := by
    intro i hi
    cases hsc : s.isEpsilon bso (bso.blockOf i) with
    | false =>
        have hnot : ¬ Copied s t i := fun hcopied => by rw [hcopied.1] at hsc; cases hsc
        simp [(hsu _ hsc i rfl).1, (hsu _ hsc i rfl).2, hnot]
    | true =>
        rw [(hs.bits_of_isEpsilon hsc).1, (hs.bits_of_isEpsilon hsc).2]
        cases htc : t.isEpsilon bso (bso.blockOf i) with
        | false =>
            rw [← (htu _ htc i rfl).1, ← (htu _ htc i rfl).2]
            cases hti : t.status_bit.getLsbD i with
            | false => simp [ht.value_eq_false hti]
            | true =>
                have hm : Masked bso i := by
                  by_contra hm
                  have hlast := (hfits _ (bso.blockOf_lt hi) htc).2 hsc
                  rw [← eq_last_of_not_masked hm, hti] at hlast
                  cases hlast
                have hcopied : Copied s t i := ⟨hsc, htc, hm⟩
                simp [hcopied]
        | true =>
            have hu : u.isEpsilon bso (bso.blockOf i) = true := by
              rw [← Bool.not_eq_false]
              intro hu
              obtain ⟨a, ha, hac⟩ := h.covered _ hu
              rcases List.mem_pair.mp ha with rfl | rfl
              · rw [hsc] at hac; cases hac
              · rw [htc] at hac; cases hac
            simp [(h.wellFormed.bits_of_isEpsilon hu).1, (h.wellFormed.bits_of_isEpsilon hu).2,
              (ht.bits_of_isEpsilon htc).1, (ht.bits_of_isEpsilon htc).2]
  exact (combine_eq_some_iff s t u).mpr
    ⟨hagree, fun i hi => (hbits i hi).1, fun i hi => (hbits i hi).2⟩

/-- `combine` computes the block join where the last beliefs fit. -/
theorem combine_eq_some_iff_isBlockJoin : s.combine t = some u ↔ IsBlockJoin [s, t] u :=
  ⟨IsBlockJoin.of_combine hs ht hfits, IsBlockJoin.combine_eq hs ht hfits⟩

end Combine

section Fold

variable {s t u v : NewBeliefState bso.width} {l : List (NewBeliefState bso.width)}

/-- A join fits with what its two states fit with. -/
lemma LastFits.of_isBlockJoin (hv : IsBlockJoin [s, t] v) (hs : LastFits s u)
    (ht : LastFits t u) : LastFits v u := by
  intro hagree c hc hu
  have hagrees : ∀ a ∈ [s, t], AgreeUpTo (bso.sizeBs - 1) a u := by
    intro a ha d hd had hud j hj hj'
    have hav := hv.agrees a ha d had
    have hle : j ≤ bso.sizeBs := by omega
    have hbits := hav _ (bso.blockOf_add hle)
    have hvu := hagree d hd (hav.isEpsilon ▸ had) hud j hj hj'
    exact ⟨hbits.1.trans hvu.1, hbits.2.trans hvu.2⟩
  have hfits : ∀ a ∈ [s, t], LastFits a u := by
    intro a ha
    rcases List.mem_pair.mp ha with rfl | rfl
    · exact hs
    · exact ht
  refine ⟨fun hvc => ?_, fun hvc => ?_⟩
  · obtain ⟨a, ha, hac⟩ := hv.covered c hvc
    have hbits := hv.agrees a ha c hac _ (bso.blockOf_add le_rfl)
    have hau := (hfits a ha (hagrees a ha) c hc hu).1 hac
    exact ⟨hbits.1.symm.trans hau.1, hbits.2.symm.trans hau.2⟩
  · refine (hs (hagrees s (by simp)) c hc hu).2 ?_
    rw [← Bool.not_eq_false]
    intro hsc
    rw [← (hv.agrees s (by simp) c hsc).isEpsilon, hsc] at hvc
    cases hvc

/-- The joiner's fold of `combine` computes the block join where the last beliefs fit. -/
theorem joinOne_eq_some_iff_isBlockJoin (hl : l ≠ []) (hwf : ∀ s ∈ l, WellFormed bso s)
    (hfits : l.Pairwise LastFits) :
    StreamingJoiner.joinOne l = some u ↔ IsBlockJoin l u := by
  have hfold : ∀ (l : List (NewBeliefState bso.width)) (s : NewBeliefState bso.width),
      WellFormed bso s → (∀ t ∈ l, WellFormed bso t) → (s :: l).Pairwise LastFits →
        (l.foldlM NewBeliefState.combine s = some u ↔ IsBlockJoin (s :: l) u) := by
    intro l
    induction l with
    | nil =>
        intro s hs _ _
        rw [List.foldlM_nil, IsBlockJoin.singleton hs]
        exact Option.some_inj.trans eq_comm
    | cons t l ih =>
        intro s hs hl hfits
        have ht : WellFormed bso t := hl t (by simp)
        obtain ⟨hsfits, hfits⟩ := List.pairwise_cons.mp hfits
        obtain ⟨htfits, hfits⟩ := List.pairwise_cons.mp hfits
        have hpair := fun v => combine_eq_some_iff_isBlockJoin (u := v) hs ht (hsfits t (by simp))
        have hrest : ∀ v, IsBlockJoin [s, t] v →
            (l.foldlM NewBeliefState.combine v = some u ↔ IsBlockJoin (v :: l) u) := by
          intro v hv
          refine ih v hv.wellFormed (fun a ha => hl a (by simp [ha]))
            (List.pairwise_cons.mpr ⟨fun a ha => ?_, hfits⟩)
          exact LastFits.of_isBlockJoin hv (hsfits a (by simp [ha])) (htfits a ha)
        rw [List.foldlM_cons, IsBlockJoin.cons_cons]
        constructor
        · intro h
          obtain ⟨v, hv, h⟩ := Option.bind_eq_some_iff.mp h
          have hjoin := (hpair v).mp hv
          exact ⟨v, hjoin, (hrest v hjoin).mp h⟩
        · rintro ⟨v, hv, h⟩
          rw [(hpair v).mpr hv]
          exact (hrest v hv).mpr h
  cases l with
  | nil => exact absurd rfl hl
  | cons s l => exact hfold l s (hwf s (by simp)) (fun t ht => hwf t (by simp [ht])) hfits

/-- Proper states do not use the last beliefs at all. -/
lemma Proper.lastFits (hs : Proper s) (ht : Proper t) : LastFits s t := by
  have hnone : ∀ a : NewBeliefState bso.width, Proper a → ∀ c,
      a.status_bit.getLsbD (bso.startingOffset c + bso.sizeBs) = false := by
    intro a ha c
    rw [Bool.eq_false_iff]
    intro hi
    have hm := ha.masked _ hi
    rw [Masked, bso.add_mod le_rfl] at hm
    omega
  intro _ c _ _
  rw [hnone s hs, hnone t ht, hs.value_eq_false (hnone s hs c), ht.value_eq_false (hnone t ht c)]
  exact ⟨fun _ => ⟨rfl, rfl⟩, fun _ => rfl⟩

/-- The joiner's fold of `combine` computes the join of proper states. -/
theorem joinOne_eq_some_iff (hl : l ≠ []) (hproper : ∀ s ∈ l, Proper s) :
    StreamingJoiner.joinOne l = some u ↔ IsJoin l u := by
  have hfits : l.Pairwise LastFits :=
    List.pairwise_of_forall_mem_list (fun s hs t ht => (hproper s hs).lastFits (hproper t ht))
  rw [joinOne_eq_some_iff_isBlockJoin hl (fun s hs => (hproper s hs).toWellFormed) hfits]
  exact ⟨IsJoin.of_isBlockJoin hproper, IsJoin.isBlockJoin⟩

end Fold

/-! ## The inputs of a context -/

/-- What `first_join` and `next_join` hand out, one after the other, when they ask for everything:
the empty state in a leaf (`LeafJoiner`), and otherwise what the join of the answers gives; nothing
when an answer is empty. -/
def joinedInputs (packs : List (List (NewBeliefState bso.width))) :
    List (NewBeliefState bso.width) :=
  if packs = [] then [NewBeliefState.empty bso.width] else (StreamingJoiner.doJoin packs).getD []

lemma joinedInputs_eq {packs : List (List (NewBeliefState bso.width))} (h : packs ≠ []) :
    joinedInputs packs = (product packs).filterMap StreamingJoiner.joinOne := by
  rw [joinedInputs, if_neg h]
  by_cases hne : ∀ p ∈ packs, p ≠ []
  · rw [StreamingJoiner.doJoin_eq hne]
    rfl
  · have hmem : [] ∈ packs := by simpa using hne
    have hany : packs.any List.isEmpty = true := List.any_eq_true.mpr ⟨[], hmem, rfl⟩
    rw [StreamingJoiner.doJoin, if_pos hany, product_eq_nil_of_mem hmem]
    rfl

/-- Without packs and with fewer than 64 neighbours, calling `first_join` and `next_join` until one
of them returns `NULL` gives the joined inputs. -/
theorem joinRun_eq_joinedInputs {J : StreamingJoiner.JoinerConfig}
    {env : StreamingJoiner.Environment bso} {history : Finset ℕ}
    {packs : List (List (NewBeliefState bso.width))} (h64 : J.neighbors.length < 64)
    (hserved : StreamingJoiner.ListsServed J env history packs) (hp : J.packSize = 0)
    {qids : ℕ → Qid} (hq : ∀ i, QueryID.Plain (qids i)) {s : StreamingJoiner.State bso}
    (hs : StreamingJoiner.Idle J s) :
    ∃ N, ∀ fuel ≥ N, ∃ s',
      StreamingJoiner.joinRun J env history qids fuel s = .ok (joinedInputs packs, s') := by
  have hne : packs ≠ [] := by
    intro hnil
    have hlen := hserved.length
    rw [hnil] at hlen
    exact J.neighbors_ne (List.eq_nil_of_length_eq_zero hlen.symm)
  obtain ⟨N, hN⟩ := StreamingJoiner.joinRun_of_lists history h64 hserved hp hq hs
  refine ⟨N, fun fuel hfuel => ?_⟩
  obtain ⟨s', hrun, -⟩ := hN fuel hfuel
  exact ⟨s', by rw [hrun, joinedInputs_eq hne]⟩

/-- The inputs are the joins of one state from each answer. -/
theorem mem_joinedInputs {ds : List ℕ} (hds : ds.Nodup)
    {answers : ℕ → List (NewBeliefState bso.width)}
    (hproper : ∀ d ∈ ds, ∀ s ∈ answers d, Proper s) {u : NewBeliefState bso.width} :
    u ∈ joinedInputs (ds.map answers) ↔
      ∃ g : ℕ → NewBeliefState bso.width, (∀ d ∈ ds, g d ∈ answers d) ∧ IsJoin (ds.map g) u := by
  by_cases hnil : ds = []
  · subst hnil
    simp [joinedInputs, IsJoin.nil]
  · have hmap : ds.map answers ≠ [] := by simpa using hnil
    rw [joinedInputs_eq hmap, List.mem_filterMap]
    have hjoin : ∀ g : ℕ → NewBeliefState bso.width, (∀ d ∈ ds, g d ∈ answers d) →
        (StreamingJoiner.joinOne (ds.map g) = some u ↔ IsJoin (ds.map g) u) := by
      intro g hg
      refine joinOne_eq_some_iff (by simpa using hnil) (fun s hs => ?_)
      obtain ⟨d, hd, rfl⟩ := List.mem_map.mp hs
      exact hproper d hd _ (hg d hd)
    constructor
    · rintro ⟨xs, hxs, h⟩
      obtain ⟨g, rfl, hg⟩ := (mem_product_map hds).mp hxs
      exact ⟨g, hg, (hjoin g hg).mp h⟩
    · rintro ⟨g, hg, h⟩
      exact ⟨ds.map g, (mem_product_map hds).mpr ⟨g, rfl, hg⟩, (hjoin g hg).mpr h⟩

end Dmcs
