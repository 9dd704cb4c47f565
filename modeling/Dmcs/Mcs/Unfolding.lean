import Mathlib.Data.Set.Lattice
import Dmcs.Mcs.System

/-!
# What is carried through a system

Guessed blocks carry the input signature of the guessing context only, real blocks every belief the
return plans keep, and a join fails when two neighbours define a block at different positions,
whatever the truth values are.  `Carries` follows the positions with a status through the unfolding
of the system and asks that they fit at every join.

`Evaluates` names the places of the unfolding in which a context evaluates an input, with the
positions this input has a status at.  The imports of the context are among them.  A bridge literal
over the context itself is another matter: the input holds its belief only when a neighbour's answer
carries it, and otherwise the literal is evaluated as if the belief were undefined.

## Two inductive predicates

`Carries h c P` holds of at most one set `P`: by induction on the derivation, where each constructor
determines the positions from those of the neighbours.  It holds of none exactly when the positions
do not fit at a join somewhere below.

`Evaluates h r c I` names a place by the context `c` that evaluates there and the positions `I` of
its input.  The unfolding ends, because a history grows with every context it goes through, and a
context in its own history guesses.
-/

namespace Dmcs

open BitScan NewBeliefState NewContext History

variable {bso : BeliefStateOffset}

namespace NewBeliefState

open Classical in
/-- The part of a state at a set of positions. -/
noncomputable def part (s : NewBeliefState bso.width) (I : Set ℕ) : NewBeliefState bso.width :=
  s.keep (fun i => decide (i ∈ I))

variable {s t : NewBeliefState bso.width} {I : Set ℕ} {i : ℕ}

open Classical in
lemma part_status : (s.part I).status_bit.getLsbD i = true ↔
    s.status_bit.getLsbD i = true ∧ i ∈ I := by
  rw [part, keep_status, Bool.and_eq_true, decide_eq_true_eq]

open Classical in
lemma part_bits (hi : i ∈ I) : (s.part I).status_bit.getLsbD i = s.status_bit.getLsbD i ∧
    (s.part I).value_bit.getLsbD i = s.value_bit.getLsbD i := by
  rw [part, keep_status, keep_value, decide_eq_true hi, Bool.and_true, Bool.and_true]
  exact ⟨rfl, rfl⟩

open Classical in
lemma part_of_not_mem (hi : i ∉ I) : (s.part I).status_bit.getLsbD i = false ∧
    (s.part I).value_bit.getLsbD i = false := by
  rw [part, keep_status, keep_value, decide_eq_false hi, Bool.and_false, Bool.and_false]
  exact ⟨rfl, rfl⟩

lemma value_of_part (h : (s.part I).value_bit.getLsbD i = true) :
    s.value_bit.getLsbD i = true := by
  by_cases hi : i ∈ I
  · rwa [(part_bits hi).2] at h
  · rw [(part_of_not_mem hi).2] at h
    cases h

lemma test_part (hi : i ∈ I) : (s.part I).test i = s.test i := by
  rw [test, test, (part_bits hi).1, (part_bits hi).2]

lemma extends_part : s.Extends (s.part I) := s.extends_keep _

/-- A state with the same bits at `I` has the same part there. -/
lemma part_congr (h : ∀ i ∈ I, s.status_bit.getLsbD i = t.status_bit.getLsbD i ∧
    s.value_bit.getLsbD i = t.value_bit.getLsbD i) : s.part I = t.part I := by
  have hbits : ∀ i, (s.part I).status_bit.getLsbD i = (t.part I).status_bit.getLsbD i ∧
      (s.part I).value_bit.getLsbD i = (t.part I).value_bit.getLsbD i := by
    intro i
    by_cases hi : i ∈ I
    · rw [(part_bits hi).1, (part_bits hi).2, (part_bits hi).1, (part_bits hi).2]
      exact h i hi
    · rw [(part_of_not_mem hi).1, (part_of_not_mem hi).2, (part_of_not_mem hi).1,
        (part_of_not_mem hi).2]
      exact ⟨rfl, rfl⟩
  exact ext_bits (fun i => (hbits i).1) (fun i => (hbits i).2)

/-- The part of a state on which it extends a well-formed one. -/
lemma Extends.part_eq (h : s.Extends t) (ht : WellFormed bso t)
    (hI : ∀ i, t.status_bit.getLsbD i = true ↔ i ∈ I) : s.part I = t := by
  have hbits : ∀ i, (s.part I).status_bit.getLsbD i = t.status_bit.getLsbD i ∧
      (s.part I).value_bit.getLsbD i = t.value_bit.getLsbD i := by
    intro i
    by_cases hi : i ∈ I
    · have hti := (hI i).mpr hi
      rw [(part_bits hi).1, (part_bits hi).2, (h i hti).1, (h i hti).2, hti]
      exact ⟨rfl, rfl⟩
    · have hti : t.status_bit.getLsbD i = false := by
        rw [Bool.eq_false_iff]
        exact fun hti => hi ((hI i).mp hti)
      rw [(part_of_not_mem hi).1, (part_of_not_mem hi).2, hti, ht.value_eq_false hti]
      exact ⟨rfl, rfl⟩
  exact ext_bits (fun i => (hbits i).1) (fun i => (hbits i).2)

end NewBeliefState

namespace System

variable (sys : System bso)

/-- `Carries history c P`: the answers of `c` to requests with this history have a status at the
positions `P`, and at every join below them two neighbours that define the same block do so at the
same positions. -/
inductive Carries : Finset ℕ → ℕ → Set ℕ → Prop
  | normal {history : Finset ℕ} {c : ℕ} (hc : c ∉ history) (P : ℕ → Set ℕ)
      (hP : ∀ d ∈ sys.neighborIds c, Carries (insert c history) d (P d))
      (hfit : ∀ d ∈ sys.neighborIds c, ∀ e ∈ sys.neighborIds c, ∀ i,
        bso.startingOffset (bso.blockOf i) ∈ P d → i ∈ P e → i ∈ P d) :
      Carries history c ((sys.localBits c ∪ ⋃ d ∈ sys.neighborIds c, P d) ∩ sys.keptBits)
  | breaker {history : Finset ℕ} {c : ℕ} (hc : c ∈ history) :
      Carries history c ((sys.localBits c ∪ sys.guessedBits c) ∩ sys.keptBits)

/-- `Evaluates history r c I`: to answer a request with this history to `r`, context `c` evaluates
inputs with a status at the positions `I`. -/
inductive Evaluates : Finset ℕ → ℕ → ℕ → Set ℕ → Prop
  /-- the context asked, on the joins of its neighbours' answers -/
  | normal {history : Finset ℕ} {r : ℕ} (hr : r ∉ history) (P : ℕ → Set ℕ)
      (hP : ∀ d ∈ sys.neighborIds r, sys.Carries (insert r history) d (P d)) :
      Evaluates history r r (⋃ d ∈ sys.neighborIds r, P d)
  /-- the context asked, on its guesses -/
  | breaker {history : Finset ℕ} {r : ℕ} (hr : r ∈ history) :
      Evaluates history r r (sys.guessedBits r)
  /-- a context on the way of a neighbour -/
  | neighbor {history : Finset ℕ} {r d c : ℕ} {I : Set ℕ} (hr : r ∉ history)
      (hd : d ∈ sys.neighborIds r) (h : Evaluates (insert r history) d c I) :
      Evaluates history r c I

/-- The return plans keep the epsilon bits and every imported belief. -/
structure KeepsImports : Prop where
  interface : WellFormed.Interface bso sys.interface
  imported : ∀ c < bso.noBlocks, ∀ b ∈ sys.bodyBeliefs c, b.globalAddress bso ∈ sys.keptBits

/-- No bridge rule of a context that can be reached refers to its own context. -/
def NoOwnImports (c : ℕ) : Prop := ∀ d, sys.Reaches c d → ¬ sys.Imports d d

variable {sys} {history : Finset ℕ} {c d i r : ℕ} {I P Q : Set ℕ} {b : BeliefId}
  {S : NewBeliefState bso.width}

/-- The return plans keep what a cycle breaker guesses. -/
lemma guessedBits_subset_keptBits (hkeep : sys.KeepsImports) (hc : c < bso.noBlocks) :
    sys.guessedBits c ⊆ sys.keptBits := by
  rintro i ⟨b, hb, -, rfl | rfl⟩
  · exact hkeep.interface.epsilon _ (known_of_mem_bodyBeliefs hb).1
  · exact hkeep.imported c hc b hb

/-! ## The positions carried -/

namespace Carries

lemma of_mem (h : sys.Carries history c P) (hc : c ∈ history) :
    P = (sys.localBits c ∪ sys.guessedBits c) ∩ sys.keptBits := by
  cases h with
  | normal hnot => exact absurd hc hnot
  | breaker _ => rfl

lemma of_not_mem (h : sys.Carries history c P) (hc : c ∉ history) :
    ∃ Q : ℕ → Set ℕ, (∀ d ∈ sys.neighborIds c, sys.Carries (insert c history) d (Q d)) ∧
      ∀ d ∈ sys.neighborIds c, ∀ e ∈ sys.neighborIds c, ∀ i,
        bso.startingOffset (bso.blockOf i) ∈ Q d → i ∈ Q e → i ∈ Q d := by
  cases h with
  | normal _ Q hQ hfit => exact ⟨Q, hQ, hfit⟩
  | breaker hmem => exact absurd hmem hc

lemma subset_keptBits (h : sys.Carries history c P) : P ⊆ sys.keptBits := by
  cases h with
  | normal => exact Set.inter_subset_right
  | breaker => exact Set.inter_subset_right

lemma localBits_subset (h : sys.Carries history c P) : sys.localBits c ∩ sys.keptBits ⊆ P := by
  cases h with
  | normal => exact Set.inter_subset_inter_left _ Set.subset_union_left
  | breaker => exact Set.inter_subset_inter_left _ Set.subset_union_left

/-- Every bit belongs to the local states of a context that can be reached. -/
lemma mem_localBits (h : sys.Carries history c P) (hi : i ∈ P) :
    sys.Reaches c (bso.blockOf i) ∧ i ∈ sys.localBits (bso.blockOf i) := by
  have hlocal : ∀ {c d : ℕ}, sys.Reaches c d → i ∈ sys.localBits d →
      sys.Reaches c (bso.blockOf i) ∧ i ∈ sys.localBits (bso.blockOf i) := by
    intro c d hcd hi
    rw [blockOf_of_mem_localBits hi]
    exact ⟨hcd, hi⟩
  induction h with
  | @normal history c _ P _ _ ih =>
      rcases hi.1 with hi | hi
      · exact hlocal .refl hi
      · obtain ⟨d, hd, hi⟩ := Set.mem_iUnion₂.mp hi
        obtain ⟨hreach, hbit⟩ := ih d hd hi
        exact ⟨.head (System.mem_neighborIds.mp hd).2 hreach, hbit⟩
  | @breaker history c _ =>
      rcases hi.1 with hi | ⟨b, hb, -, hi⟩
      · exact hlocal .refl hi
      · refine hlocal (.single ⟨b, hb, rfl⟩) ?_
        rcases hi with rfl | rfl
        · exact Or.inl rfl
        · exact globalAddress_mem_localBits hb

/-- The blocks of the contexts on the way are carried as far as they are kept. -/
lemma localBits_subset_of_freshPath (h : sys.Carries history c P)
    (path : FreshPath sys.Imports history c d) : sys.localBits d ∩ sys.keptBits ⊆ P := by
  induction h with
  | @normal history c hc P hP hfit ih =>
      cases path with
      | refl => exact localBits_subset (.normal hc P hP hfit)
      | @step _ _ e _ _ hce path =>
          have hne : e ≠ c := fun heq => path.start_not_mem (by simp [heq])
          have he : e ∈ sys.neighborIds c := System.mem_neighborIds.mpr ⟨hne, hce⟩
          intro i hi
          exact ⟨Or.inr (Set.mem_iUnion₂.mpr ⟨e, he, ih e he path hi⟩), hi.2⟩
  | breaker hc => exact absurd hc path.start_not_mem

/-- The positions are determined by the request. -/
lemma unique (h : sys.Carries history c P) (h' : sys.Carries history c Q) : P = Q := by
  induction h generalizing Q with
  | @normal history c hc P hP _ ih =>
      cases h' with
      | normal _ P' hP' _ =>
          congr 2
          exact Set.iUnion₂_congr (fun d hd => ih d hd (hP' d hd))
      | breaker hmem => exact absurd hmem hc
  | breaker hc => exact (h'.of_mem hc).symm

variable (hkeep : sys.KeepsImports)
include hkeep

lemma mem_of_imports (h : sys.Carries history d P) (hc : c < bso.noBlocks)
    (hb : b ∈ sys.bodyBeliefs c) (hd : b.contextId = d) : b.globalAddress bso ∈ P := by
  subst hd
  exact h.localBits_subset ⟨globalAddress_mem_localBits hb, hkeep.imported c hc b hb⟩

/-- A block other than the context's own carries a belief. -/
lemma exists_belief (h : sys.Carries history c P) (hblock : c < bso.noBlocks)
    (hd : bso.startingOffset d ∈ P) :
    d = c ∨ ∃ j, 1 ≤ j ∧ j ≤ bso.sizeBs ∧ bso.startingOffset d + j ∈ P := by
  have hbelief : ∀ {c : ℕ} {b : BeliefId} {P : Set ℕ}, b ∈ sys.bodyBeliefs c →
      b.globalAddress bso ∈ P → ∃ j, 1 ≤ j ∧ j ≤ bso.sizeBs ∧
        bso.startingOffset b.contextId + j ∈ P := by
    intro c b P hb hP
    have haddr := (known_of_mem_bodyBeliefs hb).2
    refine ⟨b.address, sys.address_pos _ _ haddr, sys.address_le _ _ haddr, ?_⟩
    rwa [Nat.add_comm]
  induction h with
  | @normal history c _ P hP _ ih =>
      rcases hd.1 with hlocal | hd'
      · exact Or.inl ((bso.blockOf_startingOffset d).symm.trans (blockOf_of_mem_localBits hlocal))
      · obtain ⟨e, he, hdP⟩ := Set.mem_iUnion₂.mp hd'
        have himports := (System.mem_neighborIds.mp he).2
        have hex : ∃ j, 1 ≤ j ∧ j ≤ bso.sizeBs ∧ bso.startingOffset d + j ∈ P e := by
          rcases ih e he himports.lt hdP with rfl | hex
          · obtain ⟨b, hb, rfl⟩ := himports
            exact hbelief hb ((hP _ he).mem_of_imports hkeep hblock hb rfl)
          · exact hex
        obtain ⟨j, h1, h2, hj⟩ := hex
        exact Or.inr ⟨j, h1, h2, Or.inr (Set.mem_iUnion₂.mpr ⟨e, he, hj⟩),
          (hP e he).subset_keptBits hj⟩
  | @breaker history c _ =>
      rcases hd.1 with hlocal | ⟨b, hb, hne, hd'⟩
      · exact Or.inl ((bso.blockOf_startingOffset d).symm.trans (blockOf_of_mem_localBits hlocal))
      · have hblock' : bso.blockOf (bso.startingOffset d) = b.contextId := by
          rcases hd' with hd' | hd'
          · rw [hd', bso.blockOf_startingOffset]
          · rw [hd', blockOf_of_mem_localBits (globalAddress_mem_localBits hb)]
        rw [bso.blockOf_startingOffset] at hblock'
        subst hblock'
        exact Or.inr (hbelief hb ⟨Or.inr ⟨b, hb, hne, Or.inr rfl⟩, hkeep.imported c hblock b hb⟩)

/-- A block with a position that is carried has its epsilon bit carried. -/
lemma epsilon_mem (h : sys.Carries history c P) (hc : c < bso.noBlocks) (hi : i ∈ P) :
    bso.startingOffset (bso.blockOf i) ∈ P := by
  induction h with
  | @normal history c _ P hP _ ih =>
      rcases hi.1 with hlocal | hbelow
      · rw [blockOf_of_mem_localBits hlocal]
        exact ⟨Or.inl (Or.inl rfl), hkeep.interface.epsilon _ hc⟩
      · obtain ⟨d, hd, hi⟩ := Set.mem_iUnion₂.mp hbelow
        have hstart := ih d hd (System.mem_neighborIds.mp hd).2.lt hi
        exact ⟨Or.inr (Set.mem_iUnion₂.mpr ⟨d, hd, hstart⟩), (hP d hd).subset_keptBits hstart⟩
  | @breaker history c _ =>
      rcases hi.1 with hlocal | ⟨b, hb, hne, hpos⟩
      · rw [blockOf_of_mem_localBits hlocal]
        exact ⟨Or.inl (Or.inl rfl), hkeep.interface.epsilon _ hc⟩
      · have hblock : bso.blockOf i = b.contextId := by
          rcases hpos with rfl | rfl
          · exact bso.blockOf_startingOffset _
          · exact blockOf_of_mem_localBits (globalAddress_mem_localBits hb)
        rw [hblock]
        exact ⟨Or.inr ⟨b, hb, hne, Or.inl rfl⟩,
          hkeep.interface.epsilon _ (known_of_mem_bodyBeliefs hb).1⟩

/-- What is carried of a proper state is proper. -/
lemma proper_part (h : sys.Carries history c P) (hc : c < bso.noBlocks) (hS : Proper S)
    (hP : ∀ i ∈ P, S.status_bit.getLsbD i = true) : Proper (S.part P) := by
  have hmem : ∀ i, (S.part P).status_bit.getLsbD i = true ↔ i ∈ P :=
    fun i => part_status.trans ⟨fun hi => hi.2, fun hi => ⟨hP i hi, hi⟩⟩
  refine ⟨⟨fun i hi => ?_, fun d hd => ?_, fun i hi => ?_⟩, fun i hi => ?_⟩
  · by_contra hnot
    rw [(part_of_not_mem (fun hiP => hnot ((hmem i).mpr hiP))).2] at hi
    cases hi
  · have hd' := (hmem _).mp hd
    rw [(part_bits hd').2]
    exact hS.epsilon_true d (hP _ hd')
  · exact (hmem _).mpr (h.epsilon_mem hkeep hc ((hmem i).mp hi))
  · exact hS.masked i (part_status.mp hi).1

end Carries

/-! ## The places of the unfolding -/

namespace Evaluates

/-- A context that is asked below evaluates for a reachable context. -/
lemma reaches (h : sys.Evaluates history r c I) : sys.Reaches r c := by
  induction h with
  | normal => exact .refl
  | breaker => exact .refl
  | neighbor _ hd _ ih => exact .head (System.mem_neighborIds.mp hd).2 ih

/-- Every context that is entered evaluates an input. -/
lemma exists_of_freshPath (h : sys.Carries history r P)
    (path : FreshPath sys.Imports history r c) : ∃ I, sys.Evaluates history r c I := by
  induction h with
  | @normal history r hr P hP _ ih =>
      cases path with
      | refl => exact ⟨_, .normal hr P hP⟩
      | @step _ _ e _ _ hre path =>
          have hne : e ≠ r := fun heq => path.start_not_mem (by simp [heq])
          have he : e ∈ sys.neighborIds r := System.mem_neighborIds.mpr ⟨hne, hre⟩
          obtain ⟨I, hI⟩ := ih e he path
          exact ⟨I, .neighbor hr he hI⟩
  | breaker hr => exact absurd hr path.start_not_mem

/-- What an input has a status at, and what the context adds, is carried. -/
lemma subset (h : sys.Evaluates history r c I) (hkeep : sys.KeepsImports) (hr : r < bso.noBlocks)
    (hcarries : sys.Carries history r P) : I ⊆ P ∧ sys.localBits c ∩ sys.keptBits ⊆ P := by
  induction h generalizing P with
  | @normal history r hnot Q hQ =>
      refine ⟨fun i hi => ?_, hcarries.localBits_subset⟩
      cases hcarries with
      | normal _ P hP _ =>
          obtain ⟨d, hd, hi⟩ := Set.mem_iUnion₂.mp hi
          refine ⟨Or.inr (Set.mem_iUnion₂.mpr ⟨d, hd, ?_⟩), (hQ d hd).subset_keptBits hi⟩
          rwa [(hP d hd).unique (hQ d hd)]
      | breaker hmem => exact absurd hmem hnot
  | @breaker history r hmem =>
      refine ⟨fun i hi => ?_, hcarries.localBits_subset⟩
      rw [hcarries.of_mem hmem]
      exact ⟨Or.inr hi, guessedBits_subset_keptBits hkeep hr hi⟩
  | @neighbor history r d c I hnot hd _ ih =>
      cases hcarries with
      | normal _ P hP _ =>
          have hlt := (System.mem_neighborIds.mp hd).2.lt
          have hmem : ∀ i ∈ P d, i ∈ (sys.localBits r ∪ ⋃ d ∈ sys.neighborIds r, P d) ∩
              sys.keptBits :=
            fun i hi => ⟨Or.inr (Set.mem_iUnion₂.mpr ⟨d, hd, hi⟩), (hP d hd).subset_keptBits hi⟩
          obtain ⟨hI, hlocal⟩ := ih hlt (hP d hd)
          exact ⟨fun i hi => hmem i (hI hi), fun i hi => hmem i (hlocal hi)⟩
      | breaker hmem => exact absurd hmem hnot

/-- The beliefs imported from other contexts are in the input. -/
lemma mem_of_imports (h : sys.Evaluates history r c I) (hkeep : sys.KeepsImports)
    (hr : r < bso.noBlocks) (hb : b ∈ sys.bodyBeliefs c) (hne : b.contextId ≠ c) :
    b.globalAddress bso ∈ I := by
  induction h with
  | @normal history r _ P hP =>
      have hd : b.contextId ∈ sys.neighborIds r := System.mem_neighborIds.mpr ⟨hne, b, hb, rfl⟩
      exact Set.mem_iUnion₂.mpr ⟨_, hd, (hP _ hd).mem_of_imports hkeep hr hb rfl⟩
  | breaker => exact ⟨b, hb, hne, Or.inr rfl⟩
  | neighbor _ hd _ ih => exact ih (System.mem_neighborIds.mp hd).2.lt hb hne

end Evaluates

/-! ## Literals over the own context -/

end System

/-- `satisfied` evaluates a body from the left, up to the first literal that does not hold. -/
def BridgeRule.Reads (r : BridgeRule) (s : NewBeliefState bso.width) (l : BridgeLiteral) : Prop :=
  ∃ before after, r.body = before ++ l :: after ∧ ∀ l' ∈ before, l'.holds s = true

/-- A search for a counterexample stops at the first one. -/
lemma all_congr_of_reached {α : Type*} {p q : α → Bool} {l : List α}
    (h : ∀ before a after, l = before ++ a :: after → (∀ x ∈ before, p x = true) → q a = p a) :
    l.all q = l.all p := by
  induction l with
  | nil => rfl
  | cons a l ih =>
      have hfirst := h [] a l rfl (by simp)
      rw [List.all_cons, List.all_cons, hfirst]
      cases ha : p a with
      | false => rfl
      | true =>
          rw [Bool.true_and, Bool.true_and]
          refine ih (fun before b after heq hbefore => h (a :: before) b after ?_ ?_)
          · rw [heq, List.cons_append]
          · exact List.forall_mem_cons.mpr ⟨ha, hbefore⟩

/-- A bridge rule depends on the literals that are read. -/
lemma BridgeRule.satisfied_congr {r : BridgeRule} {s t : NewBeliefState bso.width}
    (h : ∀ l, r.Reads s l →
      t.test (l.belief.globalAddress bso) = s.test (l.belief.globalAddress bso)) :
    r.satisfied t = r.satisfied s := by
  refine all_congr_of_reached (fun before l after heq hbefore => ?_)
  rw [BridgeLiteral.holds, BridgeLiteral.holds, h l ⟨before, after, heq, hbefore⟩]

namespace System

variable {sys : System bso} {history : Finset ℕ} {c r : ℕ} {I : Set ℕ}
  {S : NewBeliefState bso.width}

variable (sys) in
/-- On the part of `S` at `I` the bridge rules of a context read no belief outside `I`. -/
def ReadsWithin (c : ℕ) (I : Set ℕ) (S : NewBeliefState bso.width) : Prop :=
  ∀ r ∈ sys.bridgeRules c, ∀ l, r.Reads (S.part I) l → l.belief.globalAddress bso ∈ I

/-- Then they apply in the part as in the state. -/
lemma ReadsWithin.applicableHeads_eq (h : sys.ReadsWithin c I S) :
    sys.applicableHeads c (S.part I) = sys.applicableHeads c S := by
  rw [applicableHeads, applicableHeads]
  congr 2
  refine List.filter_congr (fun r hr => decide_eq_decide.mpr ?_)
  rw [← satisfied_eq_true_iff, ← satisfied_eq_true_iff,
    BridgeRule.satisfied_congr (s := S.part I) (t := S)
      (fun l hl => (test_part (h r hr l hl)).symm)]

/-- Without literals over the own context only beliefs in the input are read. -/
lemma Evaluates.readsWithin (h : sys.Evaluates history r c I) (hkeep : sys.KeepsImports)
    (hr : r < bso.noBlocks) (hown : sys.NoOwnImports r) : sys.ReadsWithin c I S := by
  intro rule hrule l hl
  obtain ⟨before, after, hbody, -⟩ := hl
  have hb : l.belief ∈ sys.bodyBeliefs c :=
    List.mem_flatMap.mpr ⟨rule, hrule, List.mem_map.mpr ⟨l, by simp [hbody], rfl⟩⟩
  exact h.mem_of_imports hkeep hr hb (fun heq => hown c h.reaches ⟨l.belief, hb, heq⟩)

end System

end Dmcs
