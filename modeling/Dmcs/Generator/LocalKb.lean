import Mathlib.Data.Finset.Card
import Dmcs.Lib.StableModels
import Dmcs.Generator.ContextGenerator

/-!
# Generated local knowledge bases (`generate_local_kb`)

The deterministic and the non-deterministic generator give an atom at most one rule, whose body
negates the next or the previous atom.  A context is evaluated over its rules with the heads of its
bridge rules added as facts.

With the rules of the deterministic generator there is exactly one answer set for every set of
facts, as its comment says.  A rule that goes backward makes a pair of atoms that deny each other:
the non-deterministic generator doubles the answer sets with every such pair that has no fact in it.

## The argument

`IsChain n` says what the loops have produced after `n` rounds, of either generator.  The program
has no positive bodies, so it is tight, and its answer sets with given facts are the models of the
completion (`StableModels`).

An atom with a forward rule depends on the next one, so the atoms are determined from the last one
down, except for the two atoms of a pair that deny each other: where neither is a fact, one of them
can be chosen freely.  `ncard_isCompleted` of the library counts the choices.  A deterministic
knowledge base has no such pair.
-/

namespace Dmcs

open StableModels ContextGenerator

namespace ContextGenerator

/-- A rule whose body negates one atom. -/
def negatedEdge (i b : ℕ) : Rule ℕ := ⟨[i], [], [b]⟩

/-- The next atom may be past the last one. -/
def pushForward (no_atoms i : ℕ) (local_kb : List (Rule ℕ)) : List (Rule ℕ) :=
  if i < no_atoms then local_kb ++ [negatedEdge i (i + 1)] else local_kb

def pushBackward (i : ℕ) (local_kb : List (Rule ℕ)) : List (Rule ℕ) :=
  local_kb ++ [negatedEdge i (i - 1)]

end ContextGenerator

namespace ContextGeneratorDeterministic

/-- One round of the loop. -/
def pushRule (no_atoms : ℕ) (local_kb : List (Rule ℕ)) (i : ℕ) : Random (List (Rule ℕ)) := do
  if i % 2 = 0 then
    if (← rand) % 2 ≠ 0 then pure (pushForward no_atoms i local_kb) else pure local_kb
  else pure (pushForward no_atoms i local_kb)

def generateLocalKb (no_atoms : ℕ) : Random (List (Rule ℕ)) :=
  (List.range' 1 no_atoms).foldlM (pushRule no_atoms) []

end ContextGeneratorDeterministic

namespace ContextGeneratorNonDeterministic

/-- One round of the loop. -/
def pushRule (no_atoms : ℕ) (local_kb : List (Rule ℕ)) (i : ℕ) : Random (List (Rule ℕ)) := do
  if i % 2 = 0 then
    if (← rand) % 2 ≠ 0 then pure (pushBackward i local_kb)
    else pure (pushForward no_atoms i local_kb)
  else pure (pushForward no_atoms i local_kb)

def generateLocalKb (no_atoms : ℕ) : Random (List (Rule ℕ)) :=
  (List.range' 1 no_atoms).foldlM (pushRule no_atoms) []

end ContextGeneratorNonDeterministic

namespace ContextGenerator

/-- The program a context is evaluated over. -/
def withFacts (local_kb : List (Rule ℕ)) (facts : Finset ℕ) : Set (Rule ℕ) :=
  {r | r ∈ local_kb ∨ ∃ a ∈ facts, r = Rule.fact a}

/-- The pairs, named by their even atom, that deny each other and have no fact in them. -/
def openPairs (no_atoms : ℕ) (local_kb : List (Rule ℕ)) (facts : Finset ℕ) : Finset ℕ :=
  (Finset.range (no_atoms + 1)).filter (fun i =>
    i % 2 = 0 ∧ negatedEdge i (i - 1) ∈ local_kb ∧ i ∉ facts ∧ i - 1 ∉ facts)

variable {no_atoms : ℕ} {local_kb : List (Rule ℕ)} {facts : Finset ℕ} {M : Set ℕ}

/-! ## What the loops produce -/

/-- What holds after every round of a loop. -/
lemma always_foldlM {σ : Type} {f : σ → ℕ → Random σ} {I : ℕ → σ → Prop}
    (hstep : ∀ n s, I n s → Always (f s (n + 1)) (I (n + 1))) (n : ℕ) {s : σ} (h : I 0 s) :
    Always ((List.range' 1 n).foldlM f s) (I n) := by
  induction n with
  | zero => exact always_pure h
  | succ n ih =>
      rw [List.range'_1_concat, List.foldlM_append]
      refine always_bind ih (fun s hs => ?_)
      refine always_bind (m := f s (1 + n)) ?_ (fun s hs => always_pure hs)
      rw [Nat.add_comm]
      exact hstep n s hs

/-- What the loops have produced after `n` rounds: an atom that is not the last has a forward rule
if it is odd, an even one may have a forward or a backward rule. -/
structure IsChain (no_atoms n : ℕ) (local_kb : List (Rule ℕ)) : Prop where
  rules : ∀ r ∈ local_kb, ∃ i, 1 ≤ i ∧ i ≤ n ∧
    ((i < no_atoms ∧ r = negatedEdge i (i + 1)) ∨ (i % 2 = 0 ∧ r = negatedEdge i (i - 1)))
  odd : ∀ i, i % 2 = 1 → i ≤ n → i < no_atoms → negatedEdge i (i + 1) ∈ local_kb
  one : ∀ i, negatedEdge i (i - 1) ∈ local_kb → negatedEdge i (i + 1) ∉ local_kb

@[simp] lemma negatedEdge_inj {i j b c : ℕ} :
    negatedEdge i b = negatedEdge j c ↔ i = j ∧ b = c := by
  simp [negatedEdge]

namespace IsChain

variable {n : ℕ}

lemma nil (no_atoms : ℕ) : IsChain no_atoms 0 [] where
  rules := fun r hr => absurd hr List.not_mem_nil
  odd := by
    intro i hi hle
    omega
  one := fun i hi => absurd hi List.not_mem_nil

/-- The rules so far are about earlier atoms. -/
lemma not_mem (h : IsChain no_atoms n local_kb) (b : ℕ) : negatedEdge (n + 1) b ∉ local_kb := by
  intro hmem
  obtain ⟨i, -, hle, ⟨-, heq⟩ | ⟨-, heq⟩⟩ := h.rules _ hmem
  · have := (negatedEdge_inj.1 heq).1
    omega
  · have := (negatedEdge_inj.1 heq).1
    omega

/-- A round without a rule: the atom is even, or the last one. -/
lemma skip (h : IsChain no_atoms n local_kb) (hskip : (n + 1) % 2 = 0 ∨ no_atoms ≤ n + 1) :
    IsChain no_atoms (n + 1) local_kb where
  rules := by
    intro r hr
    obtain ⟨i, hpos, hle, hr⟩ := h.rules r hr
    exact ⟨i, hpos, Nat.le_succ_of_le hle, hr⟩
  odd := by
    intro i hi hle hlt
    rcases Nat.of_le_succ hle with hle | rfl
    · exact h.odd i hi hle hlt
    · omega
  one := h.one

/-- A round with a rule. -/
lemma push (h : IsChain no_atoms n local_kb) {b : ℕ}
    (hb : (n + 1 < no_atoms ∧ b = n + 2) ∨ ((n + 1) % 2 = 0 ∧ b = n)) :
    IsChain no_atoms (n + 1) (local_kb ++ [negatedEdge (n + 1) b]) where
  rules := by
    intro r hr
    rcases List.mem_append.1 hr with hr | hr
    · obtain ⟨i, hpos, hle, hr⟩ := h.rules r hr
      exact ⟨i, hpos, Nat.le_succ_of_le hle, hr⟩
    · refine ⟨n + 1, Nat.succ_pos n, Nat.le_refl _, ?_⟩
      rw [List.mem_singleton.1 hr]
      rcases hb with ⟨hlt, rfl⟩ | ⟨heven, rfl⟩
      · exact Or.inl ⟨hlt, rfl⟩
      · exact Or.inr ⟨heven, rfl⟩
  odd := by
    intro i hi hle hlt
    rcases Nat.of_le_succ hle with hle | rfl
    · exact List.mem_append_left _ (h.odd i hi hle hlt)
    · rcases hb with ⟨-, rfl⟩ | ⟨heven, -⟩
      · exact List.mem_append_right _ (List.mem_singleton_self _)
      · omega
  one := by
    intro i hback hforward
    rcases List.mem_append.1 hback with hback | hback
    · rcases List.mem_append.1 hforward with hforward | hforward
      · exact h.one i hback hforward
      · rw [(negatedEdge_inj.1 (List.mem_singleton.1 hforward)).1] at hback
        exact h.not_mem _ hback
    · obtain ⟨rfl, hb'⟩ := negatedEdge_inj.1 (List.mem_singleton.1 hback)
      rcases List.mem_append.1 hforward with hforward | hforward
      · exact h.not_mem _ hforward
      · have := (negatedEdge_inj.1 (List.mem_singleton.1 hforward)).2
        omega

lemma pushForward (h : IsChain no_atoms n local_kb) :
    IsChain no_atoms (n + 1) (pushForward no_atoms (n + 1) local_kb) := by
  unfold ContextGenerator.pushForward
  split
  · next hlt => exact h.push (Or.inl ⟨hlt, rfl⟩)
  · next hlt => exact h.skip (Or.inr (by omega))

end IsChain

/-! ## Their answer sets -/

lemma isNormal_withFacts (h : IsChain no_atoms no_atoms local_kb) :
    IsNormal (withFacts local_kb facts) := by
  rintro r (hr | ⟨a, -, rfl⟩)
  · obtain ⟨i, -, -, ⟨-, rfl⟩ | ⟨-, rfl⟩⟩ := h.rules r hr
    · exact ⟨i, rfl⟩
    · exact ⟨i, rfl⟩
  · exact ⟨a, rfl⟩

lemma isTight_withFacts (h : IsChain no_atoms no_atoms local_kb) :
    IsTight (withFacts local_kb facts) := by
  refine isTight_of_no_positiveBody ?_
  rintro r (hr | ⟨a, -, rfl⟩)
  · obtain ⟨i, -, -, ⟨-, rfl⟩ | ⟨-, rfl⟩⟩ := h.rules r hr
    · rfl
    · rfl
  · rfl

/-- An atom with one rule that is not a fact. -/
lemma supported_iff {a b : ℕ} (hfact : a ∉ facts) (hmem : negatedEdge a b ∈ local_kb)
    (hone : ∀ r ∈ local_kb, a ∈ r.head → r = negatedEdge a b) :
    Supported (withFacts local_kb facts) M a ↔ b ∉ M := by
  constructor
  · rintro ⟨r, hr | ⟨c, hc, rfl⟩, hhead, hbody⟩
    · rw [hone r hr hhead] at hbody
      exact hbody.2 b (List.mem_singleton_self b)
    · rw [List.mem_singleton.1 hhead] at hfact
      exact absurd hc hfact
  · intro hb
    refine ⟨_, Or.inl hmem, List.mem_singleton_self a, fun c hc => absurd hc List.not_mem_nil, ?_⟩
    intro c hc
    rwa [List.mem_singleton.1 hc]

/-- Facts come first, and then the atoms from the last one down. -/
def level (no_atoms : ℕ) (facts : Finset ℕ) (a : ℕ) : ℕ :=
  if a ∈ facts then 0 else no_atoms + 2 - a

lemma dependsBelow (h : IsChain no_atoms no_atoms local_kb) :
    DependsBelow (withFacts local_kb facts) (openPairs no_atoms local_kb facts)
      (level no_atoms facts) := by
  intro a hopen
  by_cases hfact : a ∈ facts
  · exact Or.inl (Or.inr ⟨a, hfact, rfl⟩)
  · refine Or.inr ?_
    have hlevel : level no_atoms facts a = no_atoms + 2 - a := if_neg hfact
    rintro r (hr | ⟨c, hc, rfl⟩) hhead b hb
    · refine Or.inr ?_
      rw [hlevel]
      obtain ⟨i, hpos, hle, ⟨hlt, rfl⟩ | ⟨heven, rfl⟩⟩ := h.rules r hr
      · obtain rfl := List.mem_singleton.1 hhead
        obtain rfl := List.mem_singleton.1 hb
        unfold level
        split
        · omega
        · omega
      · obtain rfl := List.mem_singleton.1 hhead
        obtain rfl := List.mem_singleton.1 hb
        -- a backward rule outside the open pairs has a fact in its body
        have hprev : a - 1 ∈ facts := by
          by_contra hprev
          exact hopen (Finset.mem_coe.2 (Finset.mem_filter.2
            ⟨Finset.mem_range.2 (by omega), heven, hr, hfact, hprev⟩))
        rw [level, if_pos hprev]
        omega
    · rw [List.mem_singleton.1 hhead] at hfact
      exact absurd hc hfact

/-- The two atoms of an open pair deny each other. -/
lemma completedOn_openPairs (h : IsChain no_atoms no_atoms local_kb)
    (hM : CompletedOn (withFacts local_kb facts)
      {a | a ∉ (openPairs no_atoms local_kb facts : Set ℕ)} M) :
    CompletedOn (withFacts local_kb facts) (openPairs no_atoms local_kb facts) M := by
  intro i hi
  obtain ⟨hrange, heven, hback, hfact, hprev⟩ := Finset.mem_filter.1 (Finset.mem_coe.1 hi)
  rw [Finset.mem_range] at hrange
  have hpos : 1 ≤ i := by
    obtain ⟨j, hpos, -, ⟨-, heq⟩ | ⟨-, heq⟩⟩ := h.rules _ hback
    · exact (negatedEdge_inj.1 heq).1 ▸ hpos
    · exact (negatedEdge_inj.1 heq).1 ▸ hpos
  have hnext : i - 1 + 1 = i := by omega
  have hforward : negatedEdge (i - 1) i ∈ local_kb := by
    have := h.odd (i - 1) (by omega) (by omega) (by omega)
    rwa [hnext] at this
  have hi_iff : Supported (withFacts local_kb facts) M i ↔ i - 1 ∉ M := by
    refine supported_iff hfact hback (fun r hr hhead => ?_)
    obtain ⟨j, -, -, ⟨-, rfl⟩ | ⟨-, rfl⟩⟩ := h.rules r hr
    · obtain rfl := List.mem_singleton.1 hhead
      exact absurd hr (h.one _ hback)
    · obtain rfl := List.mem_singleton.1 hhead
      rfl
  have hprev_iff : Supported (withFacts local_kb facts) M (i - 1) ↔ i ∉ M := by
    refine supported_iff hprev hforward (fun r hr hhead => ?_)
    obtain ⟨j, -, -, ⟨-, rfl⟩ | ⟨hj, rfl⟩⟩ := h.rules r hr
    · obtain rfl := List.mem_singleton.1 hhead
      rw [hnext]
    · have hj' := List.mem_singleton.1 hhead
      omega
  have hodd : i - 1 ∉ (openPairs no_atoms local_kb facts : Set ℕ) := by
    intro hmem
    have := (Finset.mem_filter.1 (Finset.mem_coe.1 hmem)).2.1
    omega
  rw [hi_iff, hM (i - 1) hodd, hprev_iff, not_not]

/-- The answer sets of a chain are as many as the choices in its open pairs. -/
lemma IsChain.ncard_answerSets (h : IsChain no_atoms no_atoms local_kb) (facts : Finset ℕ) :
    {M | IsAnswerSet (withFacts local_kb facts) M}.ncard =
      2 ^ (openPairs no_atoms local_kb facts).card := by
  have hiff : ∀ M, IsAnswerSet (withFacts local_kb facts) M ↔
      IsCompleted (withFacts local_kb facts) M :=
    fun M => isAnswerSet_iff_isCompleted (isNormal_withFacts h) (isTight_withFacts h)
  simp only [hiff]
  rw [ncard_isCompleted (dependsBelow h) (Finset.finite_toSet _)
    (fun M hM => completedOn_openPairs h hM), Set.ncard_coe_finset]

/-! ## Enumerating them -/

/-- An atom is a fact, or the body of one of its rules holds in a list of atoms. -/
def isDerived (local_kb : List (Rule ℕ)) (facts : Finset ℕ) (l : List ℕ) (a : ℕ) : Bool :=
  decide (a ∈ facts) || local_kb.any (fun r => r.head.contains a &&
    (r.positiveBody.all l.contains && !r.negativeBody.any l.contains))

/-- The lists of atoms that are complete, one for every answer set. -/
def answerSets (no_atoms : ℕ) (local_kb : List (Rule ℕ)) (facts : Finset ℕ) : List (List ℕ) :=
  (List.range' 1 no_atoms).sublists.filter (fun l =>
    (List.range' 1 no_atoms).all (fun a => l.contains a == isDerived local_kb facts l a))

lemma isDerived_iff {l : List ℕ} {a : ℕ} : isDerived local_kb facts l a = true ↔
    Supported (withFacts local_kb facts) {b | b ∈ l} a := by
  unfold isDerived
  rw [Bool.or_eq_true, decide_eq_true_eq, List.any_eq_true]
  constructor
  · rintro (ha | ⟨r, hr, h⟩)
    · exact supported_of_fact (Or.inr ⟨a, ha, rfl⟩) _
    · simp only [Bool.and_eq_true, List.all_eq_true, Bool.not_eq_true', List.any_eq_false,
        List.contains_iff_mem] at h
      exact ⟨r, Or.inl hr, h.1, h.2.1, h.2.2⟩
  · rintro ⟨r, hr | ⟨b, hb, rfl⟩, hhead, hbody⟩
    · refine Or.inr ⟨r, hr, ?_⟩
      simp only [Bool.and_eq_true, List.all_eq_true, Bool.not_eq_true', List.any_eq_false,
        List.contains_iff_mem]
      exact ⟨hhead, hbody.1, hbody.2⟩
    · rw [List.mem_singleton.1 hhead]
      exact Or.inl hb

/-- The enumeration finds the answer sets. -/
lemma IsChain.mem_answerSets (h : IsChain no_atoms no_atoms local_kb)
    (hfacts : ∀ a ∈ facts, a ∈ List.range' 1 no_atoms) :
    IsAnswerSet (withFacts local_kb facts) M ↔
      ∃ l ∈ answerSets no_atoms local_kb facts, M = {a | a ∈ l} := by
  rw [isAnswerSet_iff_isCompleted (isNormal_withFacts h) (isTight_withFacts h)]
  have hrange : ∀ N a, Supported (withFacts local_kb facts) N a → a ∈ List.range' 1 no_atoms := by
    rintro N a ⟨r, hr | ⟨b, hb, rfl⟩, hhead, -⟩
    · obtain ⟨i, hpos, hle, ⟨-, rfl⟩ | ⟨-, rfl⟩⟩ := h.rules r hr
      · rw [List.mem_singleton.1 hhead, List.mem_range'_1]
        omega
      · rw [List.mem_singleton.1 hhead, List.mem_range'_1]
        omega
    · rw [List.mem_singleton.1 hhead]
      exact hfacts b hb
  have hfilter : ∀ l, l ∈ answerSets no_atoms local_kb facts ↔
      l.Sublist (List.range' 1 no_atoms) ∧ ∀ a ∈ List.range' 1 no_atoms,
        a ∈ l ↔ Supported (withFacts local_kb facts) {b | b ∈ l} a := by
    intro l
    unfold answerSets
    rw [List.mem_filter, List.mem_sublists, List.all_eq_true]
    refine and_congr_right fun _ => forall₂_congr fun a _ => ?_
    rw [beq_iff_eq, Bool.eq_iff_iff, List.contains_iff_mem, isDerived_iff]
  constructor
  · intro hM
    classical
    have heq : M = {a | a ∈ (List.range' 1 no_atoms).filter (fun a => decide (a ∈ M))} := by
      ext a
      simp only [Set.mem_ofPred_eq, List.mem_filter, decide_eq_true_eq]
      exact ⟨fun ha => ⟨hrange M a ((hM a trivial).1 ha), ha⟩, fun ha => ha.2⟩
    refine ⟨_, (hfilter _).2 ⟨List.filter_sublist, fun a _ => ?_⟩, heq⟩
    rw [← heq, ← hM a trivial, List.mem_filter, decide_eq_true_eq]
    exact ⟨fun ha => ha.2, fun ha => ⟨hrange M a ((hM a trivial).1 ha), ha⟩⟩
  · rintro ⟨l, hl, rfl⟩ a -
    obtain ⟨hsub, hcomplete⟩ := (hfilter l).1 hl
    constructor
    · exact fun ha => (hcomplete a (hsub.subset ha)).1 ha
    · exact fun ha => (hcomplete a (hrange _ a ha)).2 ha

end ContextGenerator

namespace ContextGeneratorDeterministic

variable {no_atoms : ℕ}

/-- All rules go forward. -/
lemma always_generateLocalKb (no_atoms : ℕ) :
    Always (generateLocalKb no_atoms) (fun local_kb => IsChain no_atoms no_atoms local_kb ∧
      ∀ i, negatedEdge i (i - 1) ∉ local_kb) := by
  refine always_foldlM (I := fun n local_kb => IsChain no_atoms n local_kb ∧
    ∀ i, negatedEdge i (i - 1) ∉ local_kb) (fun n local_kb h => ?_) no_atoms
    ⟨.nil no_atoms, fun i => List.not_mem_nil⟩
  have hforward : IsChain no_atoms (n + 1) (pushForward no_atoms (n + 1) local_kb) ∧
      ∀ i, negatedEdge i (i - 1) ∉ pushForward no_atoms (n + 1) local_kb := by
    refine ⟨h.1.pushForward, fun i hi => ?_⟩
    unfold pushForward at hi
    split at hi
    · rcases List.mem_append.1 hi with hi | hi
      · exact h.2 i hi
      · have := negatedEdge_inj.1 (List.mem_singleton.1 hi)
        omega
    · exact h.2 i hi
  unfold pushRule
  split
  · next heven =>
      refine always_bind (always_true rand) (fun d _ => ?_)
      split
      · exact always_pure hforward
      · exact always_pure ⟨h.1.skip (Or.inl heven), h.2⟩
  · exact always_pure hforward

lemma existsUnique_answerSet {draws rest : List ℕ} {local_kb : List (Rule ℕ)}
    (h : generateLocalKb no_atoms draws = some (local_kb, rest)) (facts : Finset ℕ) :
    ∃! M, IsAnswerSet (withFacts local_kb facts) M := by
  obtain ⟨hchain, hback⟩ := always_generateLocalKb no_atoms draws local_kb rest h
  have hnone : openPairs no_atoms local_kb facts = ∅ :=
    Finset.filter_eq_empty_iff.2 (fun i _ hi => hback i hi.2.1)
  have hcard := hchain.ncard_answerSets facts
  rw [hnone, Finset.card_empty, Nat.pow_zero] at hcard
  obtain ⟨M, hM⟩ := Set.ncard_eq_one.1 hcard
  exact ⟨M, hM.ge rfl, fun N hN => hM.le hN⟩

/-- **The deterministic generator.**  Whatever is drawn, the knowledge base has exactly one answer
set with every set of facts. -/
theorem existsUnique_isAnswerSet (no_atoms : ℕ) : Always (generateLocalKb no_atoms)
    (fun local_kb => ∀ facts, ∃! M, IsAnswerSet (withFacts local_kb facts) M) :=
  fun _ _ _ h => existsUnique_answerSet h

/-- Four atoms, with a forward rule for the first three. -/
theorem existsUnique_isAnswerSet_three : ∃! M, IsAnswerSet
    (withFacts [negatedEdge 1 2, negatedEdge 2 3, negatedEdge 3 4] {3}) M :=
  existsUnique_isAnswerSet 4 [1, 0] _ [] rfl {3}

end ContextGeneratorDeterministic

namespace ContextGeneratorNonDeterministic

variable {no_atoms : ℕ}

lemma always_generateLocalKb (no_atoms : ℕ) :
    Always (generateLocalKb no_atoms) (IsChain no_atoms no_atoms) := by
  refine always_foldlM (fun n local_kb h => ?_) no_atoms (.nil no_atoms)
  unfold pushRule
  split
  · next heven =>
      refine always_bind (always_true rand) (fun d _ => ?_)
      split
      · exact always_pure (h.push (Or.inr ⟨heven, rfl⟩))
      · exact always_pure h.pushForward
  · exact always_pure h.pushForward

/-- **The non-deterministic generator.**  Whatever is drawn, the knowledge base has with a set of
facts as many answer sets as there are choices in the pairs that deny each other. -/
theorem ncard_isAnswerSet (no_atoms : ℕ) : Always (generateLocalKb no_atoms)
    (fun local_kb => ∀ facts, {M | IsAnswerSet (withFacts local_kb facts) M}.ncard =
      2 ^ (openPairs no_atoms local_kb facts).card) := by
  intro draws local_kb rest h facts
  exact (always_generateLocalKb no_atoms draws local_kb rest h).ncard_answerSets facts

/-- Two pairs of atoms that deny each other, the second with a fact in it. -/
theorem ncard_isAnswerSet_twoPairs : {M | IsAnswerSet (withFacts
    [negatedEdge 1 2, negatedEdge 2 1, negatedEdge 3 4, negatedEdge 4 3] {3}) M}.ncard = 2 :=
  ncard_isAnswerSet 4 [1, 1] _ [] rfl {3}

end ContextGeneratorNonDeterministic

end Dmcs
