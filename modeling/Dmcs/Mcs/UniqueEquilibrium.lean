import Dmcs.Lib.Levels
import Dmcs.Mcs.AcyclicSystem

/-!
# How many equilibria an acyclic system has

In an acyclic system the blocks of an equilibrium are determined from the contexts without
neighbours upwards.  When every context accepts something for all heads of its bridge rules, the
sub-system of a context has an equilibrium; when it always accepts exactly one local state, there is
exactly one, and where the addresses are strict it is all that a request is answered with.

## The argument

An equilibrium is a family of blocks, each of them accepted for heads that depend only on the blocks
of the neighbours.  The contexts of an acyclic system have levels, so a map that replaces every
block by one that is accepted (`update`) determines each level from the levels below, and it has
exactly one fixed point.  A fixed point is an equilibrium when every context accepts something, and
every equilibrium is a fixed point when every context accepts exactly one local state.

An equilibrium of a context restricts to one of every context below it (`IsEquilibrium.below`).
-/

namespace Dmcs

open NewBeliefState Levels

variable {bso : BeliefStateOffset}

namespace System

variable (sys : System bso)

/-- Heads that the bridge rules of a context can derive: positions of its own beliefs. -/
def OwnHeads (c : ℕ) (heads : Finset ℕ) : Prop :=
  ∃ facts : Finset ℕ, (∀ a ∈ facts, a ∈ sys.signature c) ∧
    heads = facts.image (fun a => a + bso.startingOffset c)

/-- The context accepts something, whatever heads are derived. -/
def AlwaysAccepts (c : ℕ) : Prop := ∀ heads, sys.OwnHeads c heads → sys.acc c heads ≠ []

/-- The context accepts one local state, possibly listed several times. -/
def AcceptsOne (c : ℕ) : Prop :=
  ∀ heads, sys.OwnHeads c heads → ∃ m ∈ sys.acc c heads, ∀ m' ∈ sys.acc c heads, m' = m

variable {sys} {c d r : ℕ} {R : Set ℕ} {E s : NewBeliefState bso.width}
  {m m' : ℕ → NewBeliefState bso.width}

lemma AcceptsOne.alwaysAccepts (h : sys.AcceptsOne c) : sys.AlwaysAccepts c := by
  intro heads hheads
  obtain ⟨m, hm, -⟩ := h heads hheads
  exact List.ne_nil_of_mem hm

variable (sys) in
lemma ownHeads_applicableHeads (c : ℕ) (s : NewBeliefState bso.width) :
    sys.OwnHeads c (sys.applicableHeads c s) := by
  refine ⟨(((sys.bridgeRules c).filter (fun r => Applies r s)).map
    (fun r => r.head.address)).toFinset, fun a ha => ?_, ?_⟩
  · obtain ⟨r, hr, rfl⟩ := List.mem_map.mp (List.mem_toFinset.mp ha)
    exact (sys.head_known c r (List.mem_filter.mp hr).1).2
  · ext i
    simp only [applicableHeads, List.mem_toFinset, List.mem_map, List.mem_filter, Finset.mem_image,
      exists_exists_and_eq_and, BeliefId.globalAddress]
    refine exists_congr (fun r => and_congr_right (fun hr => ?_))
    rw [(sys.head_known c r hr.1).1]

/-! ## Families of blocks -/

/-- Joined families agree on the blocks on which the families do. -/
lemma test_glue_congr {i : ℕ} (h : m (bso.blockOf i) = m' (bso.blockOf i)) :
    (glue R m).test i = (glue R m').test i := by
  simp only [test, glue, BitScan.getLsbD_ofPred, h]

/-- The blocks of an equilibrium, put together again. -/
lemma IsEquilibrium.glue_block (h : sys.IsEquilibrium r E)
    (hm : ∀ c, sys.Reaches r c → m c = E.block bso c) :
    glue {c | sys.Reaches r c} m = E := by
  have hbits : ∀ i,
      (glue {c | sys.Reaches r c} m).status_bit.getLsbD i = E.status_bit.getLsbD i ∧
        (glue {c | sys.Reaches r c} m).value_bit.getLsbD i = E.value_bit.getLsbD i := by
    intro i
    by_cases hreach : sys.Reaches r (bso.blockOf i)
    · have hglue := blockEq_glue (m := m)
        (show bso.blockOf i ∈ {c | sys.Reaches r c} from hreach) i rfl
      rw [hglue.1, hglue.2, hm _ hreach]
      simp [block]
    · have hglue := glue_of_not_mem (m := m) (R := {c | sys.Reaches r c}) hreach
      have hundef := mt (h.defined i) hreach
      rw [not_or, Bool.not_eq_true, Bool.not_eq_true] at hundef
      rw [hglue.1, hglue.2, hundef.1, hundef.2]
      exact ⟨rfl, rfl⟩
  exact ext_bits (fun i => (hbits i).1) (fun i => (hbits i).2)

/-- An equilibrium, cut down to a part of the system. -/
lemma IsEquilibrium.below (hE : sys.IsEquilibrium r E) (hd : sys.Reaches r d) :
    sys.IsEquilibrium d (glue {c | sys.Reaches d c} (fun _ => E)) where
  accepted := by
    intro c hc
    have hblock : ∀ e, sys.Reaches d e → BlockEq e (glue {c | sys.Reaches d c} (fun _ => E)) E :=
      fun e he => blockEq_glue (m := fun _ => E) (show e ∈ {c | sys.Reaches d c} from he)
    have hheads : sys.applicableHeads c (glue {c | sys.Reaches d c} (fun _ => E)) =
        sys.applicableHeads c E := by
      refine applicableHeads_congr (fun b hb => ?_)
      have hbits := hblock b.contextId (hc.tail ⟨b, hb, rfl⟩) _
        (blockOf_of_mem_localBits (globalAddress_mem_localBits hb))
      simp only [test, hbits]
    rw [block_eq_iff.mpr (hblock c hc), hheads]
    exact hE.accepted c (hd.trans hc)
  defined := by
    intro i hi
    by_contra hnot
    have hglue := glue_of_not_mem (m := fun _ => E) (R := {c | sys.Reaches d c}) hnot
    rw [hglue.1, hglue.2] at hi
    simp at hi

/-- A local state that the context accepts for some heads. -/
def firstAccepted (sys : System bso) (c : ℕ) (heads : Finset ℕ) : NewBeliefState bso.width :=
  (sys.acc c heads).head?.getD (NewBeliefState.empty bso.width)

lemma AlwaysAccepts.firstAccepted_mem (h : sys.AlwaysAccepts c) {heads : Finset ℕ}
    (hheads : sys.OwnHeads c heads) : sys.firstAccepted c heads ∈ sys.acc c heads := by
  rw [firstAccepted, List.head?_eq_some_head (h heads hheads), Option.getD_some]
  exact List.head_mem _

open Classical in
/-- Every reachable context replaces its block by one it accepts. -/
noncomputable def update (sys : System bso) (r : ℕ) (m : ℕ → NewBeliefState bso.width) (c : ℕ) :
    NewBeliefState bso.width :=
  if sys.Reaches r c then
    sys.firstAccepted c (sys.applicableHeads c (glue {c | sys.Reaches r c} m))
  else NewBeliefState.empty bso.width

/-- The imports of an acyclic system go down. -/
lemma Acyclic.exists_level (h : sys.Acyclic) :
    ∃ level : ℕ → ℕ, ∀ c d, sys.Imports c d → level d < level c := by
  refine Levels.exists_level h (fun c => (Set.finite_lt_nat bso.noBlocks).subset ?_)
  intro d hd
  obtain ⟨e, -, hed⟩ := Relation.TransGen.tail'_iff.mp hd
  exact hed.lt

/-- The heads of a context depend on the blocks of its neighbours. -/
lemma applicableHeads_glue_congr (h : ∀ d, sys.Imports c d → m d = m' d) :
    sys.applicableHeads c (glue R m) = sys.applicableHeads c (glue R m') := by
  refine applicableHeads_congr (fun b hb => test_glue_congr ?_)
  rw [blockOf_of_mem_localBits (globalAddress_mem_localBits hb)]
  exact h _ ⟨b, hb, rfl⟩

lemma goesUp_update {level : ℕ → ℕ} (hlevel : ∀ c d, sys.Imports c d → level d < level c) (r : ℕ) :
    GoesUp level (sys.update r) := by
  intro n m m' hagree c hc
  have hheads : sys.applicableHeads c (glue {c | sys.Reaches r c} m) =
      sys.applicableHeads c (glue {c | sys.Reaches r c} m') := by
    refine applicableHeads_glue_congr (fun d hcd => hagree d ?_)
    have := hlevel c d hcd
    omega
  rw [update, update, hheads]

/-! ## Equilibria -/

/-- The fixed families are equilibria. -/
lemma isEquilibrium_of_update (hacc : ∀ c, sys.Reaches r c → sys.AlwaysAccepts c)
    (hm : sys.update r m = m) : sys.IsEquilibrium r (glue {c | sys.Reaches r c} m) where
  accepted := by
    intro c hc
    have hmc : m c ∈ sys.acc c (sys.applicableHeads c (glue {c | sys.Reaches r c} m)) := by
      rw [← congrFun hm c, update, if_pos hc]
      exact (hacc c hc).firstAccepted_mem (ownHeads_applicableHeads sys c _)
    have hblock : (glue {c | sys.Reaches r c} m).block bso c = m c :=
      (block_eq_iff.mpr (blockEq_glue (R := {c | sys.Reaches r c}) hc)).trans (block_acc hmc)
    rwa [hblock]
  defined := by
    intro i hi
    by_contra hnot
    have hglue := glue_of_not_mem (m := m) (R := {c | sys.Reaches r c}) hnot
    rw [hglue.1, hglue.2] at hi
    simp at hi

/-- When the contexts accept one local state, an equilibrium is a fixed family. -/
lemma IsEquilibrium.exists_update (h : sys.IsEquilibrium r E)
    (hacc : ∀ c, sys.Reaches r c → sys.AcceptsOne c) :
    ∃ m, sys.update r m = m ∧ glue {c | sys.Reaches r c} m = E := by
  classical
  let m : ℕ → NewBeliefState bso.width :=
    fun c => if sys.Reaches r c then E.block bso c else NewBeliefState.empty bso.width
  have hglue : glue {c | sys.Reaches r c} m = E := h.glue_block (fun c hc => if_pos hc)
  refine ⟨m, funext (fun c => ?_), hglue⟩
  rw [update, hglue]
  by_cases hc : sys.Reaches r c
  · have hheads := ownHeads_applicableHeads sys c E
    obtain ⟨x, -, hx⟩ := hacc c hc _ hheads
    show (if _ then _ else _) = if _ then _ else _
    rw [if_pos hc, if_pos hc, hx _ (h.accepted c hc),
      hx _ ((hacc c hc).alwaysAccepts.firstAccepted_mem hheads)]
  · show (if _ then _ else _) = if _ then _ else _
    rw [if_neg hc, if_neg hc]

/-- An acyclic system of contexts that always accept something has an equilibrium. -/
lemma Acyclic.exists_equilibrium (h : sys.Acyclic)
    (hacc : ∀ c, sys.Reaches r c → sys.AlwaysAccepts c) : ∃ E, sys.IsEquilibrium r E := by
  obtain ⟨level, hlevel⟩ := h.exists_level
  obtain ⟨m, hm, -⟩ := (goesUp_update hlevel r).existsUnique
  exact ⟨_, isEquilibrium_of_update hacc hm⟩

/-- An acyclic system of contexts that accept one local state has one equilibrium. -/
lemma Acyclic.existsUnique_equilibrium (h : sys.Acyclic)
    (hacc : ∀ c, sys.Reaches r c → sys.AcceptsOne c) : ∃! E, sys.IsEquilibrium r E := by
  obtain ⟨level, hlevel⟩ := h.exists_level
  obtain ⟨m, hm, hunique⟩ := (goesUp_update hlevel r).existsUnique
  refine ⟨_, isEquilibrium_of_update (fun c hc => (hacc c hc).alwaysAccepts) hm, fun E hE => ?_⟩
  obtain ⟨m', hm', rfl⟩ := hE.exists_update hacc
  rw [hunique m' hm']

/-! ## Answers -/

/-- Return plans that keep all bits. -/
lemma keepsImports_of_all (hall : ∀ i < bso.width, sys.interface.status_bit.getLsbD i = true ∧
    sys.interface.value_bit.getLsbD i = true) : sys.KeepsImports := by
  have heq : ∀ i, sys.interface.value_bit.getLsbD i = sys.interface.status_bit.getLsbD i := by
    intro i
    by_cases hi : i < bso.width
    · rw [(hall i hi).1, (hall i hi).2]
    · simp [BitVec.getLsbD_of_ge _ _ (not_lt.mp hi)]
  refine ⟨⟨heq, fun c hc => ?_⟩, fun c _ b hb => ?_⟩
  · exact (hall _ (bso.startingOffset_add_lt hc (Nat.zero_le _))).1
  · exact (hall _ (lt_width_of_mem_localBits (known_of_mem_bodyBeliefs hb).1
      (globalAddress_mem_localBits hb))).1

lemma inter_interface_of_all (hall : ∀ i < bso.width,
    sys.interface.status_bit.getLsbD i = true ∧ sys.interface.value_bit.getLsbD i = true)
    (E : NewBeliefState bso.width) : E.inter sys.interface = E := by
  refine ext_bits (fun i => ?_) (fun i => ?_)
  · rw [inter_status]
    cases hi : E.status_bit.getLsbD i with
    | true => rw [(hall i (status_lt hi)).1, Bool.and_true]
    | false => rfl
  · rw [inter_value]
    cases hi : E.value_bit.getLsbD i with
    | true => rw [(hall i (value_lt hi)).2, Bool.and_true]
    | false => rfl

/-- The answers of an acyclic system whose return plans keep all bits. -/
lemma Acyclic.mem_answers [sys.StrictAddresses] (h : sys.Acyclic) (hall : ∀ i < bso.width,
    sys.interface.status_bit.getLsbD i = true ∧ sys.interface.value_bit.getLsbD i = true)
    (hr : r < bso.noBlocks) {parent : ℕ} {sent : List (NewBeliefState bso.width)}
    (hsent : sys.Answers ∅ parent r sent) : s ∈ sent ↔ sys.IsEquilibrium r s := by
  rw [mem_answers_iff (keepsImports_of_all hall) hr (h.carries (fun i hi => (hall i hi).1) hr)
    h.noOwnImports hsent]
  constructor
  · rintro ⟨E, hE, rfl⟩
    rwa [inter_interface_of_all hall]
  · exact fun hs => ⟨s, hs, (inter_interface_of_all hall s).symm⟩

end System

end Dmcs
