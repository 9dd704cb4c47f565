import Dmcs.Mcs.Unfolding

/-!
# When the answers of a system are its equilibria

`Answers.mem_iff` says which states a context sends where the positions fit: those over the carried
positions that every context accepts at every place of the unfolding, reading its bridge rules on
its input there.  Where the positions do not fit there is no answer at all
(`Answers.exists_carries`).

The projections of the equilibria are the states over the carried positions that every reachable
context accepts when it reads its bridge rules in the state itself (`isProjection_iff`).  So the two
sets are equal if and only if the literals over the own contexts make no difference
(`OwnLiteralsAgree`), for instance because none is read (`OwnLiteralsAgree.of_readsWithin`).

## The steps

* **One context.**  `Sent` says which states a context makes of an input: those that extend it by an
  accepted block, as far as the return plans keep it (`sends_iff`).
* **Guesses.**  The guesses of a cycle breaker are the states over its input signature
  (`isInput_guessAt`), one guess for each of them.
* **Joins.**  Where the positions fit, the joins of the neighbours' answers are the states over all
  their positions whose part for each neighbour is an answer of it.
* **The unfolding.**  With these, `Answers.mem_iff` follows by induction on the unfolding: a state
  is sent if and only if it is over the carried positions and accepted at every place.
* **The equilibria.**  A state over the carried positions extends to an equilibrium if and only if
  every reachable context accepts it, since the accepted blocks can be put together (`glue`).

What remains between the last two is on which state a bridge rule is read, and there only the
literals over the own context can make a difference, because the imports from others are carried.
-/

namespace Dmcs

open BitScan NewBeliefState NewContext History

variable {bso : BeliefStateOffset}

namespace System

variable (sys : System bso)

/-- A context accepts its block of a state, as far as the return plans keep it, for the heads of its
bridge rules that apply in `T`. -/
def AcceptedFor (c : ℕ) (T S : NewBeliefState bso.width) : Prop :=
  ∃ m ∈ sys.acc c (sys.applicableHeads c T),
    ∀ i ∈ sys.localBits c ∩ sys.keptBits, m.value_bit.getLsbD i = S.value_bit.getLsbD i

/-- A context accepts its block of a state, reading its bridge rules in the state. -/
def Accepted (c : ℕ) (S : NewBeliefState bso.width) : Prop := sys.AcceptedFor c S S

/-- A context accepts its block of a state, reading its bridge rules on an input with a status at
the positions `I`. -/
def AcceptedOn (c : ℕ) (I : Set ℕ) (S : NewBeliefState bso.width) : Prop :=
  sys.AcceptedFor c (S.part I) S

/-- A proper state with a status at the positions `P`. -/
structure IsOver (P : Set ℕ) (S : NewBeliefState bso.width) : Prop where
  proper : Proper S
  status : ∀ i, S.status_bit.getLsbD i = true ↔ i ∈ P

/-- For the states over `P` it makes no difference whether the contexts read their bridge rules in
the state or, at every place of the unfolding, on the input there. -/
def OwnLiteralsAgree (r : ℕ) (P : Set ℕ) : Prop :=
  ∀ S : NewBeliefState bso.width, IsOver P S →
    ((∀ c I, sys.Evaluates ∅ r c I → sys.AcceptedOn c I S) ↔
      ∀ c, sys.Reaches r c → sys.Accepted c S)

variable {sys} {history : Finset ℕ} {parent c d i : ℕ} {I P : Set ℕ} {b : BeliefId}
  {H : Finset ℕ} {S T m : NewBeliefState bso.width} {sent : List (NewBeliefState bso.width)}

/-! ## One context -/

lemma acc_status (hm : m ∈ sys.acc c H) : m.status_bit.getLsbD i = true ↔ i ∈ sys.localBits c :=
  (sys.acc_isLocal c H m hm).status i

lemma acc_wellFormed (hm : m ∈ sys.acc c H) : WellFormed bso m := by
  have hlocal := sys.acc_isLocal c H m hm
  have hstart : ∀ i, m.status_bit.getLsbD i = true → bso.blockOf i = c :=
    fun i hi => blockOf_of_mem_localBits ((acc_status hm).mp hi)
  refine ⟨hlocal.value_le, fun d hd => ?_, fun i hi => ?_⟩
  · have hdc := hstart _ hd
    rw [bso.blockOf_startingOffset] at hdc
    exact hdc ▸ hlocal.epsilon
  · rw [hstart i hi]
    exact hlocal.value_le _ hlocal.epsilon

lemma acc_proper [sys.StrictAddresses] (hm : m ∈ sys.acc c H) : Proper m :=
  ⟨acc_wellFormed hm, fun _ hi => masked_of_mem_localBits ((acc_status hm).mp hi)⟩

/-- What the inputs of a context look like: guesses and joins. -/
structure IsInput (sys : System bso) (c : ℕ) (T : NewBeliefState bso.width) : Prop where
  proper : Proper T
  kept : ∀ i, T.status_bit.getLsbD i = true → i ∈ sys.keptBits
  own_local : ∀ i, T.status_bit.getLsbD i = true → bso.blockOf i = c → i ∈ sys.localBits c
  own_belief : T.isEpsilon bso c = false →
    ∃ j, 1 ≤ j ∧ j ≤ bso.sizeBs ∧ T.status_bit.getLsbD (bso.startingOffset c + j) = true

/-- A local state is consistent with an input when it has its truth values in the own block. -/
lemma consistentWith_iff_own (hc : c < bso.noBlocks) (hm : m ∈ sys.acc c H)
    (hT : sys.IsInput c T) :
    m.consistentWith T c = true ↔ ∀ i, bso.blockOf i = c → T.status_bit.getLsbD i = true →
      m.status_bit.getLsbD i = true ∧ m.value_bit.getLsbD i = T.value_bit.getLsbD i := by
  have hlocal := sys.acc_isLocal c H m hm
  cases hown : T.isEpsilon bso c with
  | true =>
      rw [consistentWith_of_isEpsilon hown]
      simp only [true_iff]
      rintro i rfl hi
      rw [(hT.proper.bits_of_isEpsilon hown).1] at hi
      cases hi
  | false =>
      have hme : m.isEpsilon bso c = false :=
        isEpsilon_eq_false.mpr (hlocal.value_le _ hlocal.epsilon)
      rw [consistentWith_iff hc hme hown (hT.own_belief hown)]
      constructor
      · intro h i hblock hi
        rcases hT.own_local i hi hblock with rfl | ⟨a, ha, rfl⟩
        · rw [hlocal.epsilon, hT.proper.epsilon_true c hi]
          exact ⟨hlocal.value_le _ hlocal.epsilon, rfl⟩
        · exact (test_eq_test_iff hi).mp
            (h a (sys.address_pos c a ha) (sys.address_le c a ha) hi)
      · intro h j _ hj hi
        exact (test_eq_test_iff hi).mpr (h _ (bso.blockOf_add hj) hi)

/-- What a context makes of an input. -/
structure Sent (sys : System bso) (c : ℕ) (T S : NewBeliefState bso.width) : Prop where
  proper : Proper S
  status : ∀ i, S.status_bit.getLsbD i = true ↔
    (i ∈ sys.localBits c ∨ T.status_bit.getLsbD i = true) ∧ i ∈ sys.keptBits
  extends_input : S.Extends T
  own : sys.AcceptedFor c T S

/-- The local state of the context and its input agree where both have a status. -/
lemma union_value_of_consistent (hm : m ∈ sys.acc c H)
    (hcons : ∀ i, bso.blockOf i = c → T.status_bit.getLsbD i = true →
      m.status_bit.getLsbD i = true ∧ m.value_bit.getLsbD i = T.value_bit.getLsbD i)
    (hi : T.status_bit.getLsbD i = true) :
    (m.union T).value_bit.getLsbD i = T.value_bit.getLsbD i := by
  rw [union_value]
  by_cases hblock : bso.blockOf i = c
  · rw [(hcons i hblock hi).2, Bool.or_self]
  · have hstatus : m.status_bit.getLsbD i = false := by
      rw [Bool.eq_false_iff]
      exact fun hi => hblock (blockOf_of_mem_localBits ((acc_status hm).mp hi))
    rw [(acc_wellFormed hm).value_eq_false hstatus, Bool.false_or]

/-- A context sends the states that extend its input by an accepted block. -/
lemma sends_iff [sys.StrictAddresses] (hkeep : sys.KeepsImports) (hc : c < bso.noBlocks)
    (hT : sys.IsInput c T) :
    sys.Sends c T S ↔ sys.Sent c T S := by
  have hV : ∀ i ∈ sys.keptBits, sys.interface.status_bit.getLsbD i = true ∧
      sys.interface.value_bit.getLsbD i = true :=
    fun i hi => ⟨hi, (hkeep.interface.value_eq i).trans hi⟩
  constructor
  · rintro ⟨m, hm, hcons, rfl⟩
    rw [consistentWith_iff_own hc hm hT] at hcons
    refine ⟨((acc_proper hm).union hT.proper).inter hkeep.interface, fun i => ?_, fun i hi => ?_,
      m, hm, fun i hi => ?_⟩
    · rw [inter_status, union_status, Bool.and_eq_true, Bool.or_eq_true, acc_status hm]
      rfl
    · have hkept := hV i (hT.kept i hi)
      rw [inter_status, union_status, inter_value, union_value_of_consistent hm hcons hi, hkept.1,
        hkept.2, hi]
      simp
    · rw [inter_value, (hV i hi.2).2, Bool.and_true, union_value]
      cases hTi : T.status_bit.getLsbD i with
      | true => rw [(hcons i (blockOf_of_mem_localBits hi.1) hTi).2, Bool.or_self]
      | false => rw [hT.proper.value_eq_false hTi, Bool.or_false]
  · rintro ⟨hS, hstatus, hext, m, hm, hvalue⟩
    have hcons : ∀ i, bso.blockOf i = c → T.status_bit.getLsbD i = true →
        m.status_bit.getLsbD i = true ∧ m.value_bit.getLsbD i = T.value_bit.getLsbD i := by
      intro i hblock hi
      have hlocal := hT.own_local i hi hblock
      exact ⟨(acc_status hm).mpr hlocal,
        (hvalue i ⟨hlocal, hT.kept i hi⟩).trans (hext i hi).2⟩
    refine ⟨m, hm, (consistentWith_iff_own hc hm hT).mpr hcons,
      ext_bits (fun i => ?_) (fun i => ?_)⟩
    · rw [Bool.eq_iff_iff, hstatus, inter_status, union_status, Bool.and_eq_true, Bool.or_eq_true,
        acc_status hm]
      rfl
    · rw [inter_value]
      by_cases hi : S.status_bit.getLsbD i = true
      · obtain ⟨hpos, hkept⟩ := (hstatus i).mp hi
        rw [(hV i hkept).2, Bool.and_true]
        by_cases hTi : T.status_bit.getLsbD i = true
        · rw [union_value_of_consistent hm hcons hTi, (hext i hTi).2]
        · have hlocal := hpos.resolve_right hTi
          rw [union_value, hT.proper.value_eq_false (Bool.eq_false_iff.mpr hTi), Bool.or_false,
            hvalue i ⟨hlocal, hkept⟩]
      · rw [hS.value_eq_false (Bool.eq_false_iff.mpr hi), eq_comm, Bool.eq_false_iff]
        intro hv
        rw [Bool.and_eq_true] at hv
        have hkept : i ∈ sys.keptBits := (hkeep.interface.value_eq i).symm.trans hv.2
        have hunion := ((acc_proper hm).union hT.proper).value_le i hv.1
        rw [union_status, Bool.or_eq_true, acc_status hm] at hunion
        exact hi ((hstatus i).mpr ⟨hunion, hkept⟩)

/-! ## Guesses as inputs -/

lemma mem_guessedBits_localBits (hi : i ∈ sys.guessedBits c) :
    bso.blockOf i ≠ c ∧ bso.blockOf i < bso.noBlocks ∧ i ∈ sys.localBits (bso.blockOf i) := by
  obtain ⟨b, hb, hne, hpos⟩ := hi
  have hlocal : i ∈ sys.localBits b.contextId := by
    rcases hpos with rfl | rfl
    · exact Or.inl rfl
    · exact globalAddress_mem_localBits hb
  rw [blockOf_of_mem_localBits hlocal]
  exact ⟨hne, (known_of_mem_bodyBeliefs hb).1, hlocal⟩

lemma guessAt_status_iff (k : ℕ) :
    ((sys.cycleBreaker c).guesses.guessAt k).status_bit.getLsbD i = true ↔
      i ∈ sys.guessedBits c := by
  have hplan : PlanBit bso (sys.cycleBreaker c).queryPlan i ↔ i ∈ sys.guessedBits c := by
    constructor
    · rintro ⟨entry, hentry, hpos⟩
      obtain ⟨d, hd, rfl⟩ := List.mem_map.mp hentry
      obtain ⟨hne, b, hb, rfl⟩ := System.mem_neighborIds.mp hd
      rcases hpos with rfl | ⟨a, ha, rfl⟩
      · exact ⟨b, hb, hne, Or.inl rfl⟩
      · obtain ⟨b', hb', rfl⟩ := List.mem_map.mp ha
        obtain ⟨hb', heq⟩ := List.mem_filter.mp hb'
        rw [decide_eq_true_eq] at heq
        exact ⟨b', hb', heq ▸ hne, Or.inr (by rw [BeliefId.globalAddress, heq, Nat.add_comm])⟩
    · rintro ⟨b, hb, hne, hpos⟩
      refine ⟨_, List.mem_map.mpr ⟨b.contextId, System.mem_neighborIds.mpr ⟨hne, b, hb, rfl⟩, rfl⟩,
        hpos.imp_right (fun h => ⟨b.address, ?_, ?_⟩)⟩
      · exact List.mem_map.mpr ⟨b, List.mem_filter.mpr ⟨hb, decide_eq_true rfl⟩, rfl⟩
      · rw [h, BeliefId.globalAddress, Nat.add_comm]
  rw [GuessSpace.guessAt_status]
  refine (initGuess_status _ (by simp) _ i).trans ?_
  rw [hplan, and_iff_right_iff_imp]
  intro hi
  obtain ⟨-, hlt, hlocal⟩ := mem_guessedBits_localBits hi
  exact lt_width_of_mem_localBits hlt hlocal

lemma isInput_guessAt [sys.StrictAddresses] (hkeep : sys.KeepsImports) (hc : c < bso.noBlocks)
    (k : ℕ) :
    sys.IsInput c ((sys.cycleBreaker c).guesses.guessAt k) := by
  have hplan : AddressesInBlock bso (sys.cycleBreaker c).queryPlan := by
    intro entry hentry a ha
    obtain ⟨d, -, rfl⟩ := List.mem_map.mp hentry
    obtain ⟨b, hb, rfl⟩ := List.mem_map.mp ha
    have haddr := (known_of_mem_bodyBeliefs (List.mem_filter.mp hb).1).2
    exact ⟨sys.address_pos _ _ haddr, sys.address_le _ _ haddr⟩
  refine ⟨⟨WellFormed.guessAt hplan k, fun i hi => ?_⟩, fun i hi => ?_, fun i hi hblock => ?_,
    fun hown => ?_⟩
  · exact masked_of_mem_localBits (mem_guessedBits_localBits ((guessAt_status_iff k).mp hi)).2.2
  · exact guessedBits_subset_keptBits hkeep hc ((guessAt_status_iff k).mp hi)
  · exact absurd hblock (mem_guessedBits_localBits ((guessAt_status_iff k).mp hi)).1
  · have hguessed := (guessAt_status_iff k).mp (isEpsilon_eq_false.mp hown)
    exact absurd (bso.blockOf_startingOffset c) (mem_guessedBits_localBits hguessed).1

/-- The imported beliefs are guessed in every way. -/
lemma exists_guessAt_value (c : ℕ) (v : ℕ → Bool) :
    ∃ k < 2 ^ (sys.cycleBreaker c).guesses.noGuessed, ∀ b ∈ sys.bodyBeliefs c, b.contextId ≠ c →
      ((sys.cycleBreaker c).guesses.guessAt k).value_bit.getLsbD (b.globalAddress bso) =
        v (b.globalAddress bso) := by
  obtain ⟨k, hk, htest⟩ := (sys.cycleBreaker c).guesses.exists_guessAt v
  refine ⟨k, hk, fun b hb hne => ?_⟩
  have haddr := (known_of_mem_bodyBeliefs hb).2
  have hguessed : b.globalAddress bso ∈ sys.guessedBits c := ⟨b, hb, hne, Or.inr rfl⟩
  have hstatus := (guessAt_status_iff k).mpr hguessed
  have hbit : b.globalAddress bso ∈ (sys.cycleBreaker c).guesses.bits := by
    refine (GuessSpace.mem_bits _).mpr ⟨?_, ?_⟩
    · have htotal : (NewContext.initGuess bso .dmcsTrue
          (sys.cycleBreaker c).queryPlan).status_bit.getLsbD (b.globalAddress bso) = true := by
        rw [GuessSpace.guessAt_status] at hstatus
        exact (initGuess_status _ (by simp) _ _).mpr ((initGuess_status _ (by simp) _ _).mp hstatus)
      rw [trueBits_getLsbD]
      refine (Bool.and_eq_true _ _).mpr ⟨htotal, ?_⟩
      exact (initGuess_true_value _ _).trans htotal
    · rw [isBeliefBit, BeliefId.globalAddress, Nat.add_comm,
        bso.add_mod (sys.address_le _ _ haddr)]
      have := sys.address_pos _ _ haddr
      exact decide_eq_true (by omega)
  have := htest _ hbit
  cases hv : v (b.globalAddress bso) with
  | true =>
      rw [hv, if_pos rfl] at this
      exact (test_eq_true.mp this).2
  | false =>
      rw [hv, if_neg (by simp)] at this
      exact (test_eq_false.mp this).2

/-- A guess with the truth values of a proper state that has a status at the guessed positions. -/
lemma exists_extends_guessAt [sys.StrictAddresses] (hkeep : sys.KeepsImports)
    (hc : c < bso.noBlocks) (hS : Proper S)
    (hstatus : ∀ i ∈ sys.guessedBits c, S.status_bit.getLsbD i = true) :
    ∃ k < 2 ^ (sys.cycleBreaker c).guesses.noGuessed,
      S.Extends ((sys.cycleBreaker c).guesses.guessAt k) := by
  obtain ⟨k, hk, hvalue⟩ := sys.exists_guessAt_value c (fun i => S.value_bit.getLsbD i)
  have hproper := (isInput_guessAt hkeep hc k).proper
  refine ⟨k, hk, fun i hi => ?_⟩
  have hguessed := (guessAt_status_iff k).mp hi
  refine ⟨hstatus i hguessed, ?_⟩
  obtain ⟨b, hb, hne, rfl | rfl⟩ := hguessed
  · rw [hproper.epsilon_true _ hi, hS.epsilon_true _ (hstatus _ ⟨b, hb, hne, Or.inl rfl⟩)]
  · exact (hvalue b hb hne).symm

/-! ## Joins as inputs -/

lemma status_join_iff {P : ℕ → Set ℕ} {g : ℕ → NewBeliefState bso.width}
    (hg : ∀ d ∈ sys.neighborIds c, Proper (g d) ∧
      ∀ i, (g d).status_bit.getLsbD i = true ↔ i ∈ P d)
    (hT : IsJoin ((sys.neighborIds c).map g) T) (i : ℕ) :
    T.status_bit.getLsbD i = true ↔ i ∈ ⋃ d ∈ sys.neighborIds c, P d := by
  have hproper : ∀ s ∈ (sys.neighborIds c).map g, Proper s := by
    intro s hs
    obtain ⟨d, hd, rfl⟩ := List.mem_map.mp hs
    exact (hg d hd).1
  rw [hT.status_iff hproper, Set.mem_iUnion₂]
  constructor
  · rintro ⟨s, hs, hi⟩
    obtain ⟨d, hd, rfl⟩ := List.mem_map.mp hs
    exact ⟨d, hd, ((hg d hd).2 i).mp hi⟩
  · rintro ⟨d, hd, hi⟩
    exact ⟨g d, List.mem_map.mpr ⟨d, hd, rfl⟩, ((hg d hd).2 i).mpr hi⟩

lemma isInput_join (hkeep : sys.KeepsImports) {P : ℕ → Set ℕ}
    (hP : ∀ d ∈ sys.neighborIds c, sys.Carries (insert c history) d (P d))
    {g : ℕ → NewBeliefState bso.width}
    (hg : ∀ d ∈ sys.neighborIds c, Proper (g d) ∧
      ∀ i, (g d).status_bit.getLsbD i = true ↔ i ∈ P d)
    (hT : IsJoin ((sys.neighborIds c).map g) T) : sys.IsInput c T := by
  have hbits := status_join_iff hg hT
  refine ⟨hT.proper, fun i hi => ?_, fun i hi hblock => ?_, fun hown => ?_⟩
  · obtain ⟨d, hd, hi⟩ := Set.mem_iUnion₂.mp ((hbits i).mp hi)
    exact (hP d hd).subset_keptBits hi
  · obtain ⟨d, hd, hi⟩ := Set.mem_iUnion₂.mp ((hbits i).mp hi)
    exact hblock ▸ ((hP d hd).mem_localBits hi).2
  · obtain ⟨d, hd, hi⟩ := Set.mem_iUnion₂.mp ((hbits _).mp (isEpsilon_eq_false.mp hown))
    obtain ⟨hne, himports⟩ := System.mem_neighborIds.mp hd
    rcases (hP d hd).exists_belief hkeep himports.lt hi with heq | ⟨j, h1, h2, hj⟩
    · exact absurd heq.symm hne
    · exact ⟨j, h1, h2, (hbits _).mpr (Set.mem_iUnion₂.mpr ⟨d, hd, hj⟩)⟩

/-! ## The states a context sends -/

/-- What is accepted at the places of an unfolding depends on the bits that are carried. -/
lemma acceptedOn_congr (hkeep : sys.KeepsImports) (hc : c < bso.noBlocks)
    (hcarries : sys.Carries history c P)
    (h : ∀ i ∈ P, S.status_bit.getLsbD i = T.status_bit.getLsbD i ∧
      S.value_bit.getLsbD i = T.value_bit.getLsbD i)
    (heval : sys.Evaluates history c d I) (hS : sys.AcceptedOn d I S) : sys.AcceptedOn d I T := by
  obtain ⟨hI, hlocal⟩ := heval.subset hkeep hc hcarries
  obtain ⟨m, hm, hvalue⟩ := hS
  refine ⟨m, ?_, fun i hi => (hvalue i hi).trans (h i (hlocal hi)).2⟩
  rwa [← part_congr (fun i hi => h i (hI hi))]

/-- Where the positions fit, a context sends the states over the carried positions that are accepted
at every place of the unfolding. -/
theorem Answers.mem_iff [sys.StrictAddresses] (hkeep : sys.KeepsImports)
    (hblock : c < bso.noBlocks) (hcarries : sys.Carries history c P)
    (h : sys.Answers history parent c sent) :
    S ∈ sent ↔ IsOver P S ∧ ∀ d I, sys.Evaluates history c d I → sys.AcceptedOn d I S := by
  -- The induction is on the unfolding; a context in its history guesses, the others join.
  induction hcarries generalizing parent sent S with
  | @breaker history c hc =>
      rw [h.of_mem hblock hc S]
      have hinput := fun k => isInput_guessAt (c := c) hkeep hblock k
      constructor
      · rintro ⟨k, -, hsends⟩
        have hspec := (sends_iff hkeep hblock (hinput k)).mp hsends
        refine ⟨⟨hspec.proper, fun i => ?_⟩, fun d I heval => ?_⟩
        · rw [hspec.status, guessAt_status_iff]
          rfl
        · cases heval with
          | normal hnot => exact absurd hc hnot
          | breaker _ =>
              rw [AcceptedOn, hspec.extends_input.part_eq (hinput k).proper.toWellFormed
                (fun i => guessAt_status_iff k)]
              exact hspec.own
          | neighbor hnot => exact absurd hc hnot
      · rintro ⟨hover, haccepted⟩
        have hguessed : ∀ i ∈ sys.guessedBits c, S.status_bit.getLsbD i = true := by
          intro i hi
          rw [hover.status]
          exact ⟨Or.inr hi, guessedBits_subset_keptBits hkeep hblock hi⟩
        obtain ⟨k, hk, hext⟩ := exists_extends_guessAt hkeep hblock hover.proper hguessed
        refine ⟨k, hk, (sends_iff hkeep hblock (hinput k)).mpr
          ⟨hover.proper, fun i => ?_, hext, ?_⟩⟩
        · rw [hover.status, guessAt_status_iff]
          rfl
        · have hown := haccepted c _ (.breaker hc)
          rwa [AcceptedOn, hext.part_eq (hinput k).proper.toWellFormed
            (fun i => guessAt_status_iff k)] at hown
  | @normal history c hc P hP hfit ih =>
      -- by the induction hypothesis a neighbour answers with the states over the positions `P d`
      obtain ⟨answers, hanswers, hsent⟩ := h.of_not_mem hblock hc
      have hlt := fun d (hd : d ∈ sys.neighborIds c) => (System.mem_neighborIds.mp hd).2.lt
      have hbelow := fun d (hd : d ∈ sys.neighborIds c) (s : NewBeliefState bso.width) =>
        ih d hd (S := s) (hlt d hd) (hanswers d hd)
      have hcarries := Carries.normal hc P hP hfit
      have hsub : ∀ d ∈ sys.neighborIds c, ∀ i ∈ P d,
          i ∈ (sys.localBits c ∪ ⋃ d ∈ sys.neighborIds c, P d) ∩ sys.keptBits :=
        fun d hd i hi => ⟨Or.inr (Set.mem_iUnion₂.mpr ⟨d, hd, hi⟩), (hP d hd).subset_keptBits hi⟩
      rw [hsent]
      constructor
      · rintro ⟨T, hT, hsends⟩
        obtain ⟨g, hg, hjoin⟩ := (mem_joinedInputs (sys.nodup_neighborIds c)
          (fun d hd s hs => ((hbelow d hd s).mp hs).1.proper)).mp hT
        have hgP : ∀ d ∈ sys.neighborIds c, Proper (g d) ∧
            ∀ i, (g d).status_bit.getLsbD i = true ↔ i ∈ P d :=
          fun d hd => ⟨((hbelow d hd _).mp (hg d hd)).1.proper,
            ((hbelow d hd _).mp (hg d hd)).1.status⟩
        have hTbits := status_join_iff hgP hjoin
        have hspec := (sends_iff hkeep hblock (isInput_join hkeep hP hgP hjoin)).mp hsends
        refine ⟨⟨hspec.proper, fun i => ?_⟩, fun d I heval => ?_⟩
        · rw [hspec.status, hTbits]
          rfl
        · cases heval with
          | normal _ Q hQ =>
              -- another derivation for the neighbours carries the same positions
              have hsame : ⋃ d ∈ sys.neighborIds c, Q d = ⋃ d ∈ sys.neighborIds c, P d :=
                Set.iUnion₂_congr (fun d hd => (hQ d hd).unique (hP d hd))
              rw [AcceptedOn, hsame,
                hspec.extends_input.part_eq hjoin.proper.toWellFormed hTbits]
              exact hspec.own
          | breaker hmem => exact absurd hmem hc
          | @neighbor _ _ e _ _ _ he heval =>
              have hext : S.Extends (g e) := hspec.extends_input.trans
                (hjoin.extends_of_mem (by simpa using fun d hd => (hgP d hd).1)
                  (List.mem_map.mpr ⟨e, he, rfl⟩))
              refine acceptedOn_congr hkeep (hlt e he) (hP e he) (fun i hi => ?_) heval
                (((hbelow e he _).mp (hg e he)).2 d I heval)
              have hi' := ((hgP e he).2 i).mpr hi
              exact ⟨hi'.trans (hext i hi').1.symm, (hext i hi').2.symm⟩
      · rintro ⟨hover, haccepted⟩
        have hstatus : ∀ d ∈ sys.neighborIds c, ∀ i ∈ P d, S.status_bit.getLsbD i = true :=
          fun d hd i hi => (hover.status i).mpr (hsub d hd i hi)
        have hgP : ∀ d ∈ sys.neighborIds c, Proper (S.part (P d)) ∧
            ∀ i, (S.part (P d)).status_bit.getLsbD i = true ↔ i ∈ P d :=
          fun d hd => ⟨(hP d hd).proper_part hkeep (hlt d hd) hover.proper (hstatus d hd),
            fun i => part_status.trans ⟨fun hi => hi.2, fun hi => ⟨hstatus d hd i hi, hi⟩⟩⟩
        -- what the neighbours carry of `S` is accepted below them
        have hg : ∀ d ∈ sys.neighborIds c, S.part (P d) ∈ answers d := by
          intro d hd
          refine (hbelow d hd _).mpr ⟨⟨(hgP d hd).1, (hgP d hd).2⟩, fun e I heval => ?_⟩
          exact acceptedOn_congr hkeep (hlt d hd) (hP d hd)
            (fun i hi => ⟨(part_bits hi).1.symm, (part_bits hi).2.symm⟩) heval
            (haccepted e I (.neighbor hc hd heval))
        -- and these parts join, because the positions fit
        have hjoin := IsJoin.of_extends (l := (sys.neighborIds c).map (fun d => S.part (P d)))
          (t := S) (by simpa using fun d hd => (hgP d hd).1)
          (by simpa using fun d _ => extends_part) (by
            simp only [List.mem_map, forall_exists_index, and_imp, forall_apply_eq_imp_iff₂]
            intro d hd e he i hdef hi
            exact ((hgP d hd).2 i).mpr (hfit d hd e he i
              (((hgP d hd).2 _).mp (isEpsilon_eq_false.mp hdef)) (((hgP e he).2 i).mp hi)))
        have hTbits := status_join_iff hgP hjoin
        have hext : S.Extends _ := S.extends_keep
          (fun i => ((sys.neighborIds c).map (fun d => S.part (P d))).any
            (fun s => s.status_bit.getLsbD i))
        refine ⟨_, (mem_joinedInputs (sys.nodup_neighborIds c)
          (fun d hd s hs => ((hbelow d hd s).mp hs).1.proper)).mpr ⟨_, hg, hjoin⟩,
          (sends_iff hkeep hblock (isInput_join hkeep hP hgP hjoin)).mpr
            ⟨hover.proper, fun i => ?_, hext, ?_⟩⟩
        · rw [hover.status, hTbits]
          rfl
        · have hown := haccepted c _ (.normal hc P hP)
          rwa [AcceptedOn, hext.part_eq hjoin.proper.toWellFormed hTbits] at hown

/-! ## Positions that do not fit -/

/-- Where there is an answer, the positions fit. -/
theorem Answers.exists_carries [sys.StrictAddresses] (hkeep : sys.KeepsImports)
    (hblock : c < bso.noBlocks) (h : sys.Answers history parent c sent) (hS : S ∈ sent) :
    ∃ P, sys.Carries history c P := by
  refine History.induction (Finset.range bso.noBlocks)
    (motive := fun history c => ∀ parent sent S, sys.Answers history parent c sent → S ∈ sent →
      ∃ P, sys.Carries history c P) ?_ history (Finset.mem_range.mpr hblock) parent sent S h hS
  intro history c hblock ih parent sent S h hS
  rw [Finset.mem_range] at hblock
  by_cases hc : c ∈ history
  · exact ⟨_, .breaker hc⟩
  · obtain ⟨answers, hanswers, hsent⟩ := h.of_not_mem hblock hc
    have hlt := fun d (hd : d ∈ sys.neighborIds c) => (System.mem_neighborIds.mp hd).2.lt
    have hcarries : ∀ d ∈ sys.neighborIds c, ∀ s ∈ answers d,
        ∃ P, sys.Carries (insert c history) d P :=
      fun d hd s hs => ih hc d (Finset.mem_range.mpr (hlt d hd)) c _ s (hanswers d hd) hs
    have hover : ∀ {d P}, d ∈ sys.neighborIds c → sys.Carries (insert c history) d P →
        ∀ s ∈ answers d, IsOver P s :=
      fun hd hP s hs => (((hanswers _ hd).mem_iff hkeep (hlt _ hd) hP).mp hs).1
    obtain ⟨T, hT, -⟩ := (hsent S).mp hS
    obtain ⟨g, hg, hjoin⟩ := (mem_joinedInputs (sys.nodup_neighborIds c) (fun d hd s hs => by
      obtain ⟨P, hP⟩ := hcarries d hd s hs
      exact (hover hd hP s hs).proper)).mp hT
    have hchoice : ∀ d ∈ sys.neighborIds c, ∃ P, sys.Carries (insert c history) d P :=
      fun d hd => hcarries d hd _ (hg d hd)
    choose! P hP using hchoice
    refine ⟨_, .normal hc P hP (fun d hd e he i hdef hi => ?_)⟩
    have hdbits := (hover hd (hP d hd) _ (hg d hd)).status
    have heover := hover he (hP e he) _ (hg e he)
    -- both neighbours define the block, so both agree with the join there
    have hd' := hjoin.agrees _ (List.mem_map.mpr ⟨d, hd, rfl⟩) _
      (isEpsilon_eq_false.mpr ((hdbits _).mpr hdef)) i rfl
    have he' := hjoin.agrees _ (List.mem_map.mpr ⟨e, he, rfl⟩) _
      (heover.proper.isEpsilon_blockOf ((heover.status i).mpr hi)) i rfl
    exact (hdbits i).mp (hd'.1.trans (he'.1.symm.trans ((heover.status i).mpr hi)))

/-! ## Equilibria and their projections -/

section Equilibria

variable {r : ℕ} {E : NewBeliefState bso.width}

lemma status_of_accepted (hE : E.block bso c ∈ sys.acc c H) (hi : bso.blockOf i = c) :
    E.status_bit.getLsbD i = true ↔ i ∈ sys.localBits c := by
  rw [← acc_status hE, block, keep_status, hi]
  simp

lemma epsilon_of_accepted (hE : E.block bso c ∈ sys.acc c H) :
    E.value_bit.getLsbD (bso.startingOffset c) = true := by
  have := (sys.acc_isLocal c H _ hE).epsilon
  rw [block, keep_value, Bool.and_eq_true] at this
  exact this.1

/-- An equilibrium has a status at the bits of the reachable contexts. -/
lemma IsEquilibrium.status (hE : sys.IsEquilibrium r E) :
    E.status_bit.getLsbD i = true ↔
      sys.Reaches r (bso.blockOf i) ∧ i ∈ sys.localBits (bso.blockOf i) := by
  constructor
  · intro hi
    have hreach := hE.defined i (Or.inl hi)
    exact ⟨hreach, (status_of_accepted (hE.accepted _ hreach) rfl).mp hi⟩
  · rintro ⟨hreach, hlocal⟩
    exact (status_of_accepted (hE.accepted _ hreach) rfl).mpr hlocal

lemma IsEquilibrium.wellFormed (hE : sys.IsEquilibrium r E) : WellFormed bso E := by
  refine ⟨fun i hi => ?_, fun c hc => ?_, fun i hi => ?_⟩
  · have hlocal := sys.acc_isLocal _ _ _ (hE.accepted _ (hE.defined i (Or.inr hi)))
    have := hlocal.value_le i
    simpa [block, hi] using this
  · have hreach := (hE.status.mp hc).1
    rw [bso.blockOf_startingOffset] at hreach
    exact epsilon_of_accepted (hE.accepted c hreach)
  · refine hE.status.mpr ?_
    rw [bso.blockOf_startingOffset]
    exact ⟨(hE.status.mp hi).1, Or.inl rfl⟩

lemma IsEquilibrium.proper [sys.StrictAddresses] (hE : sys.IsEquilibrium r E) : Proper E :=
  ⟨hE.wellFormed, fun _ hi => masked_of_mem_localBits (hE.status.mp hi).2⟩

lemma applicableHeads_of_extends (h : S.Extends T)
    (hT : ∀ b ∈ sys.bodyBeliefs c, T.status_bit.getLsbD (b.globalAddress bso) = true) :
    sys.applicableHeads c S = sys.applicableHeads c T :=
  applicableHeads_congr (fun b hb => (test_eq_test_iff (hT b hb)).mpr (h _ (hT b hb)))

end Equilibria

open Classical in
/-- The state whose block `c` is that of `m c`, for the contexts of a set. -/
noncomputable def glue (R : Set ℕ) (m : ℕ → NewBeliefState bso.width) : NewBeliefState bso.width :=
  ⟨ofPred bso.width (fun i =>
      decide (bso.blockOf i ∈ R) && (m (bso.blockOf i)).status_bit.getLsbD i),
    ofPred bso.width (fun i =>
      decide (bso.blockOf i ∈ R) && (m (bso.blockOf i)).value_bit.getLsbD i)⟩

section Glue

variable {R : Set ℕ} {m : ℕ → NewBeliefState bso.width}

lemma blockEq_glue (hd : d ∈ R) : BlockEq d (glue R m) (m d) := by
  rintro i rfl
  by_cases hi : i < bso.width
  · simp only [glue, getLsbD_ofPred, hi, hd, decide_true, Bool.true_and, and_self]
  · simp [BitVec.getLsbD_of_ge _ _ (not_lt.mp hi)]

lemma glue_of_not_mem (hi : bso.blockOf i ∉ R) :
    (glue R m).status_bit.getLsbD i = false ∧ (glue R m).value_bit.getLsbD i = false := by
  simp [glue, hi]

end Glue

/-- A local state is its own block. -/
lemma block_acc (hm : m ∈ sys.acc c H) : m.block bso c = m := by
  have hblock : ∀ i, m.status_bit.getLsbD i = true → bso.blockOf i = c :=
    fun i hi => blockOf_of_mem_localBits ((acc_status hm).mp hi)
  refine ext_bits (fun i => ?_) (fun i => ?_)
  · rw [block, keep_status]
    cases hi : m.status_bit.getLsbD i with
    | true => simp [hblock i hi]
    | false => rfl
  · rw [block, keep_value]
    cases hi : m.value_bit.getLsbD i with
    | true => simp [hblock i ((sys.acc_isLocal c H m hm).value_le i hi)]
    | false => rfl

/-! ## The root -/

/-- A state over given positions is determined by its truth values. -/
lemma IsOver.eq_of_value (hS : IsOver P S) (hT : IsOver P T)
    (h : ∀ i ∈ P, S.value_bit.getLsbD i = T.value_bit.getLsbD i) : S = T := by
  refine ext_bits (fun i => ?_) (fun i => ?_)
  · rw [Bool.eq_iff_iff, hS.status, hT.status]
  · by_cases hi : i ∈ P
    · exact h i hi
    · rw [hS.proper.value_eq_false (Bool.eq_false_iff.mpr (fun h => hi ((hS.status i).mp h))),
        hT.proper.value_eq_false (Bool.eq_false_iff.mpr (fun h => hi ((hT.status i).mp h)))]

section Root

variable {r : ℕ} {E : NewBeliefState bso.width} (hkeep : sys.KeepsImports) (hr : r < bso.noBlocks)
  (hcarries : sys.Carries ∅ r P)

include hr in
lemma freshPath_of_reaches (h : sys.Reaches r d) : FreshPath sys.Imports ∅ r d :=
  freshPath_of_reflTransGen (Finset.range bso.noBlocks)
    (fun _ _ hxy => Finset.mem_range.mpr hxy.lt) (Finset.mem_range.mpr hr) h

include hr hcarries in
/-- The bits of the reachable contexts are carried as far as they are kept. -/
lemma mem_carried_iff : i ∈ P ↔
    sys.Reaches r (bso.blockOf i) ∧ i ∈ sys.localBits (bso.blockOf i) ∧ i ∈ sys.keptBits := by
  constructor
  · intro hi
    obtain ⟨hreach, hlocal⟩ := hcarries.mem_localBits hi
    exact ⟨hreach, hlocal, hcarries.subset_keptBits hi⟩
  · rintro ⟨hreach, hlocal, hkept⟩
    exact hcarries.localBits_subset_of_freshPath (freshPath_of_reaches hr hreach) ⟨hlocal, hkept⟩

include hkeep hr hcarries

/-- The imports of the reachable contexts are carried. -/
lemma mem_carried_of_imports (hd : sys.Reaches r d) (hb : b ∈ sys.bodyBeliefs d) :
    b.globalAddress bso ∈ P := by
  have hlocal := globalAddress_mem_localBits hb
  rw [mem_carried_iff hr hcarries, blockOf_of_mem_localBits hlocal]
  exact ⟨hd.tail ⟨b, hb, rfl⟩, hlocal, hkeep.imported d (hd.lt hr) b hb⟩

/-- The projection of an equilibrium is a state over the carried positions. -/
lemma IsEquilibrium.isOver [sys.StrictAddresses] (hE : sys.IsEquilibrium r E) :
    IsOver P (E.inter sys.interface) := by
  refine ⟨hE.proper.inter hkeep.interface, fun i => ?_⟩
  rw [inter_status, Bool.and_eq_true, hE.status, mem_carried_iff hr hcarries, and_assoc]
  rfl

/-- A state over the carried positions that every reachable context accepts is the projection of an
equilibrium. -/
lemma exists_isEquilibrium [sys.StrictAddresses] (hover : IsOver P S)
    (haccepted : ∀ d, sys.Reaches r d → sys.Accepted d S) :
    ∃ E, sys.IsEquilibrium r E ∧ S = E.inter sys.interface := by
  choose! m hm hvalue using haccepted
  set E := glue {d | sys.Reaches r d} m with hE
  have hmem : ∀ {i}, sys.Reaches r (bso.blockOf i) →
      E.status_bit.getLsbD i = (m (bso.blockOf i)).status_bit.getLsbD i ∧
        E.value_bit.getLsbD i = (m (bso.blockOf i)).value_bit.getLsbD i :=
    fun hreach => blockEq_glue (m := m) (show _ ∈ {d | sys.Reaches r d} from hreach) _ rfl
  have hext : E.Extends S := by
    intro i hi
    obtain ⟨hreach, hlocal, hkept⟩ := (mem_carried_iff hr hcarries).mp ((hover.status i).mp hi)
    rw [(hmem hreach).1, (hmem hreach).2]
    exact ⟨(acc_status (hm _ hreach)).mpr hlocal, hvalue _ hreach i ⟨hlocal, hkept⟩⟩
  have hequilibrium : sys.IsEquilibrium r E := by
    refine ⟨fun d hd => ?_, fun i hi => ?_⟩
    · have hEd : E.block bso d = m d :=
        (block_eq_iff.mpr (blockEq_glue (R := {d | sys.Reaches r d}) hd)).trans
          (block_acc (hm d hd))
      rw [hEd, applicableHeads_of_extends hext (fun b hb => ?_)]
      · exact hm d hd
      · exact (hover.status _).mpr (mem_carried_of_imports hkeep hr hcarries hd hb)
    · by_contra hnot
      have hglue := glue_of_not_mem (m := m) (R := {d | sys.Reaches r d}) hnot
      rw [hE, hglue.1, hglue.2] at hi
      simp at hi
  refine ⟨E, hequilibrium, hover.eq_of_value (hequilibrium.isOver hkeep hr hcarries)
    (fun i hi => ?_)⟩
  rw [inter_value, (hext i ((hover.status i).mpr hi)).2,
    (hkeep.interface.value_eq i).trans (hcarries.subset_keptBits hi), Bool.and_true]

/-- The projections of the equilibria are the states over the carried positions that every reachable
context accepts. -/
theorem isProjection_iff [sys.StrictAddresses] :
    (∃ E, sys.IsEquilibrium r E ∧ S = E.inter sys.interface) ↔
    IsOver P S ∧ ∀ d, sys.Reaches r d → sys.Accepted d S := by
  constructor
  · rintro ⟨E, hE, rfl⟩
    have hover := hE.isOver hkeep hr hcarries
    have hvalue : ∀ i ∈ sys.keptBits,
        (E.inter sys.interface).value_bit.getLsbD i = E.value_bit.getLsbD i := by
      intro i hi
      rw [inter_value, (hkeep.interface.value_eq i).trans hi, Bool.and_true]
    have hext : E.Extends (E.inter sys.interface) := by
      intro i hi
      rw [inter_status, Bool.and_eq_true] at hi
      exact ⟨hi.1, (hvalue i hi.2).symm⟩
    refine ⟨hover, fun d hd => ⟨E.block bso d, ?_, fun i hi => ?_⟩⟩
    · rw [← applicableHeads_of_extends hext (fun b hb => (hover.status _).mpr
        (mem_carried_of_imports hkeep hr hcarries hd hb))]
      exact hE.accepted d hd
    · rw [hvalue i hi.2, block, keep_value, decide_eq_true (blockOf_of_mem_localBits hi.1),
        Bool.and_true]
  · rintro ⟨hover, haccepted⟩
    exact exists_isEquilibrium hkeep hr hcarries hover haccepted

/-- Where the positions fit, the root sends the projections of the equilibria if and only if the
literals over the own contexts make no difference. -/
theorem Answers.forall_mem_iff [sys.StrictAddresses] (h : sys.Answers ∅ parent r sent) :
    (∀ S, S ∈ sent ↔ ∃ E, sys.IsEquilibrium r E ∧ S = E.inter sys.interface) ↔
      sys.OwnLiteralsAgree r P := by
  have hsent := fun S => h.mem_iff (S := S) hkeep hr hcarries
  have hprojection := fun S => isProjection_iff (S := S) hkeep hr hcarries
  constructor
  · intro heq S hover
    have := heq S
    rw [hsent, hprojection] at this
    exact ⟨fun haccepted => (this.mp ⟨hover, haccepted⟩).2,
      fun haccepted => (this.mpr ⟨hover, haccepted⟩).2⟩
  · intro hagree S
    rw [hsent, hprojection]
    exact and_congr_right (hagree S)

omit hkeep in
/-- It makes no difference when, for every state, either no context reads a belief outside its
input, or some context that does not rejects the state. -/
lemma OwnLiteralsAgree.of_readsWithin (h : ∀ S : NewBeliefState bso.width, IsOver P S →
    (∀ c I, sys.Evaluates ∅ r c I → sys.ReadsWithin c I S) ∨
      ∃ c I, sys.Evaluates ∅ r c I ∧ sys.ReadsWithin c I S ∧ ¬ sys.Accepted c S) :
    sys.OwnLiteralsAgree r P := by
  intro S hover
  have hsame : ∀ {c I}, sys.ReadsWithin c I S → (sys.AcceptedOn c I S ↔ sys.Accepted c S) := by
    intro c I hreads
    rw [AcceptedOn, Accepted, AcceptedFor, AcceptedFor, hreads.applicableHeads_eq]
  rcases h S hover with hall | ⟨c, I, heval, hreads, hnot⟩
  · constructor
    · intro haccepted d hd
      obtain ⟨I, hI⟩ := Evaluates.exists_of_freshPath hcarries (freshPath_of_reaches hr hd)
      exact (hsame (hall d I hI)).mp (haccepted d I hI)
    · exact fun haccepted d I hI => (hsame (hall d I hI)).mpr (haccepted d hI.reaches)
  · exact ⟨fun haccepted => absurd ((hsame hreads).mp (haccepted c I heval)) hnot,
      fun haccepted => absurd (haccepted c heval.reaches) hnot⟩

/-- Without literals over the own contexts the root sends the projections of the equilibria. -/
theorem mem_answers_iff [sys.StrictAddresses] (hown : sys.NoOwnImports r)
    (h : sys.Answers ∅ parent r sent) :
    S ∈ sent ↔ ∃ E, sys.IsEquilibrium r E ∧ S = E.inter sys.interface :=
  (h.forall_mem_iff hkeep hr hcarries).mpr (.of_readsWithin hr hcarries (fun _ _ =>
    Or.inl (fun _ _ heval => heval.readsWithin hkeep hr hown))) S

end Root

end System

end Dmcs
