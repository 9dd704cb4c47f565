import Dmcs.Dyndmcs.Bindings

/-!
# Binding a rule whose atoms have variables or are ordinary

For such a rule `bind_rule` should return every assignment that extends the starting one and has a
match for each atom with a variable, once each, and with an entry for each of these atoms.
`bindsExactly_iff` says when it does.  The assignments are always right; the entries are not.
-/

namespace Dmcs

namespace Dyndmcs

open Completions

variable {Q : Type}

/-- A rule to bind, and the substitution to start from. -/
structure RuleBinding (Q : Type) where
  dc : DynamicConfiguration Q
  rule : BridgeRule
  start : ContextSubstitution Q
  variable_or_ordinary : ∀ sba ∈ rule.positiveBody ++ rule.negativeBody,
    isCtxVar sba.1 = true ∨ sBeliefType sba.2 = IS_ORDINARY_BELIEF

namespace RuleBinding

variable (x : RuleBinding Q)

def atoms : List BridgeAtom := x.rule.positiveBody ++ x.rule.negativeBody

/-- The call by `lconfig`, with a limit. -/
def bind_rule (limit : ℕ) : Except Failure (Bound Q) :=
  { x.dc with limit_bind_rules := limit }.bind_rule x.rule.positiveBody x.rule.negativeBody x.start
    { no_bind_rules := 0, stop_bind_rules := false }

/-- `σ` sends the variables of the rule, and those that are bound from the start, somewhere, and the
variables of the rule where there is a match for each of their atoms. -/
structure Admissible (σ : ContextTerm → Option ContextID) : Prop where
  isExtension : ∀ t c, isCtxVar t = true → x.start.assignment t = some c → σ t = some c
  only : ∀ t c, σ t = some c → isCtxVar t = true ∧
    (x.start.assignment t = some c ∨ ∃ sba ∈ x.atoms, sba.1 = t)
  matched : ∀ sba ∈ x.atoms, isCtxVar sba.1 = true → ∃ c, σ sba.1 = some c ∧
    ∃ m ∈ x.dc.mt, m.srcCtx = variableContext sba.1 ∧ m.sym = sBelief sba.2 ∧ m.tarCtx = c

structure BindsExactly (all : List (ContextSubstitution Q)) : Prop where
  limited : ∀ limit, all.length ≤ limit ∨ 1 ≤ limit →
    ∃ s, x.bind_rule limit = .ok (all.take limit, s)
  nodup : (all.map ContextSubstitution.variableAssignment).Nodup
  mem_iff : ∀ σ, σ ∈ all.map ContextSubstitution.variableAssignment ↔ x.Admissible σ
  entries : ∀ cs ∈ all, ∀ sba ∈ x.atoms, isCtxVar sba.1 = true →
    ∃ e, (∀ e', e' ∈ cs.entries ∧ e'.ctx_term = sba.1 ∧ e'.sym = sBelief sba.2 ↔ e' = e) ∧
      cs.variableAssignment sba.1 = some e.tarCtx

/-- All that `bind_rule` would return without a limit. -/
def bindings : List (ContextSubstitution Q) := x.dc.bindings x.atoms x.start

lemma bind_rule_eq (limit : ℕ) :
    ∃ s, x.bind_rule limit = .ok (x.bindings.take (max 1 limit), s) :=
  DynamicConfiguration.bind_rule_eq { x.dc with limit_bind_rules := limit } _ _ x.start

lemma admissible_iff (σ : ContextTerm → Option ContextID) : x.Admissible σ ↔
    Completion (x.atoms.map x.dc.demand) x.start.variableAssignment σ := by
  constructor
  · intro h
    refine ⟨fun t c ht => ?_, fun t c ht => ?_, fun d hd => ?_⟩
    · obtain ⟨hvar, hc⟩ := ContextSubstitution.variableAssignment_eq_some_iff.1 ht
      exact h.isExtension t c hvar hc
    · obtain ⟨hvar, hc | ⟨sba, hsba, rfl⟩⟩ := h.only t c ht
      · exact Or.inl (ContextSubstitution.variableAssignment_eq_some_iff.2 ⟨hvar, hc⟩)
      · exact Or.inr ⟨_, List.mem_map_of_mem hsba,
          DynamicConfiguration.names_demand.2 ⟨hvar, rfl⟩⟩
    · obtain ⟨sba, hsba, rfl⟩ := List.mem_map.1 hd
      rw [DynamicConfiguration.sat_demand_iff (x.variable_or_ordinary sba hsba)]
      intro hvar
      obtain ⟨c, hc, hallowed⟩ := h.matched sba hsba hvar
      exact ⟨c, hallowed, hc⟩
  · intro h
    refine ⟨fun t c hvar hc => ?_, fun t c ht => ?_, fun sba hsba hvar => ?_⟩
    · exact h.isExtension t c (ContextSubstitution.variableAssignment_eq_some_iff.2 ⟨hvar, hc⟩)
    · rcases h.only t c ht with hc | ⟨d, hd, hnames⟩
      · obtain ⟨hvar, hc⟩ := ContextSubstitution.variableAssignment_eq_some_iff.1 hc
        exact ⟨hvar, Or.inl hc⟩
      · obtain ⟨sba, hsba, rfl⟩ := List.mem_map.1 hd
        obtain ⟨hvar, rfl⟩ := DynamicConfiguration.names_demand.1 hnames
        exact ⟨hvar, Or.inr ⟨sba, hsba, rfl⟩⟩
    · obtain ⟨c, hallowed, hc⟩ := (DynamicConfiguration.sat_demand_iff
        (x.variable_or_ordinary sba hsba)).1 (h.sat _ (List.mem_map_of_mem hsba)) hvar
      exact ⟨c, hc, hallowed⟩

lemma enumerates_bindings :
    Enumerates (x.bindings.map ContextSubstitution.variableAssignment) x.Admissible := by
  have henumerates := enumerates_leaves (x.dc.enumerates_choices) x.atoms x.start
  exact ⟨henumerates.nodup, fun σ => (henumerates.mem_iff σ).trans (x.admissible_iff σ).symm⟩

lemma exists_entry_iff (cs : ContextSubstitution Q) {t : ContextTerm} (ht : isCtxVar t = true)
    (s : BitVec 64) :
    (∃ e, (∀ e', e' ∈ cs.entries ∧ e'.ctx_term = t ∧ e'.sym = s ↔ e' = e) ∧
      cs.variableAssignment t = some e.tarCtx) ↔ cs.HasEntry t s := by
  unfold ContextSubstitution.HasEntry
  rw [ContextSubstitution.variableAssignment_of_isCtxVar ht]
  refine exists_congr (fun e => and_congr_left (fun _ => ⟨fun h => ?_, fun h e' => ?_⟩))
  · exact ContextSubstitution.findSrcSym_eq_some_iff.2 ((h e).2 rfl)
  · rw [← ContextSubstitution.findSrcSym_eq_some_iff, h, Option.some.injEq]
    exact eq_comm

/-- The unlimited list is the only one of which every limit returns the first. -/
lemma eq_bindings {all : List (ContextSubstitution Q)} (h : x.BindsExactly all) :
    all = x.bindings := by
  obtain ⟨s, hs⟩ := h.limited (max all.length x.bindings.length) (Or.inl (le_max_left _ _))
  obtain ⟨s', hs'⟩ := x.bind_rule_eq (max all.length x.bindings.length)
  rw [hs] at hs'
  have heq := (Prod.mk.inj (Except.ok.inj hs')).1
  rw [List.take_of_length_le (le_max_left _ _), List.take_of_length_le (by omega)] at heq
  exact heq

/-- The entries are right exactly when every atom with a variable is going to have its entry, or
there is nothing to return.  The search for one atom is an enumeration of the extensions of a
substitution; over the atoms of a rule these are composed, and each result comes once. -/
theorem bindsExactly_iff : (∃ all, x.BindsExactly all) ↔
    (∀ sba ∈ x.atoms, isCtxVar sba.1 = true →
      x.start.GetsEntry x.atoms sba.1 (sBelief sba.2)) ∨ ¬ ∃ σ, x.Admissible σ := by
  have henumerates := x.enumerates_bindings
  constructor
  · rintro ⟨all, h⟩
    rw [or_iff_not_imp_right, not_not]
    rintro ⟨σ, hσ⟩ sba hsba hvar
    obtain ⟨cs, hcs, -⟩ := List.mem_map.1 ((h.mem_iff σ).2 hσ)
    have hentry := (exists_entry_iff cs hvar _).1 (h.entries cs hcs sba hsba hvar)
    rw [x.eq_bindings h] at hcs
    exact (DynamicConfiguration.hasEntry_iff x.variable_or_ordinary hvar hcs).1 hentry
  · intro h
    refine ⟨x.bindings, fun limit hlimit => ?_, henumerates.nodup, henumerates.mem_iff,
      fun cs hcs sba hsba hvar => ?_⟩
    · obtain ⟨s, hs⟩ := x.bind_rule_eq limit
      refine ⟨s, hs.trans ?_⟩
      rcases hlimit with hlimit | hlimit
      · rw [List.take_of_length_le hlimit, List.take_of_length_le (by omega)]
      · rw [max_eq_right hlimit]
    · rcases h with h | h
      · exact (exists_entry_iff cs hvar _).2 ((DynamicConfiguration.hasEntry_iff
          x.variable_or_ordinary hvar hcs).2 (h sba hsba hvar))
      · exact absurd ⟨_, (henumerates.mem_iff _).1 (List.mem_map_of_mem hcs)⟩ h

/-- A rule of context 1 has atoms for the symbols 2 and 3 with one variable, which is sent to
context 5.  There is an entry for context 1 and the symbol 3, as an atom with that constant context
leaves it. -/
def hiddenEntry : RuleBinding ℕ where
  dc :=
    { ctx_id := 1
      bridge_rules := []
      context_info := []
      mt := [⟨1, 2, 5, 7, 1⟩, ⟨1, 3, 5, 8, 1⟩]
      limit_answers := 0
      limit_bind_rules := 1
      heuristics := ⟨none, none⟩ }
  rule := ⟨[(ctxVarTerm 1 1, 2 <<< 62 ||| 2), (ctxVarTerm 1 1, 2 <<< 62 ||| 3)], []⟩
  start := ContextSubstitution.empty.insert ⟨1, 3, 1, 9, 1⟩
  variable_or_ordinary := by
    intro sba hsba
    have hterm : sba.1 = ctxVarTerm 1 1 := by
      rcases List.mem_cons.1 hsba with rfl | hsba
      · rfl
      · rw [List.mem_singleton.1 hsba]
    rw [hterm]
    exact Or.inl (by decide)

/-- The entry that is there hides that the second atom has none. -/
theorem entry_is_hidden : ¬ ∀ x : RuleBinding ℕ, ∃ all, x.BindsExactly all := by
  intro h
  obtain ⟨all, hall⟩ := h hiddenEntry
  obtain ⟨s, hrun⟩ := hall.limited 1 (Or.inr le_rfl)
  let keys := fun cs : ContextSubstitution ℕ => cs.entries.map (fun e => (e.ctx_term, e.sym))
  have hbound : (hiddenEntry.bind_rule 1).toOption.map (fun r => r.1.map keys) =
      some [[(1, 3), (ctxVarTerm 1 1, 2)]] := by
    decide +kernel
  rw [hrun] at hbound
  obtain ⟨cs, hcs, hkeys⟩ := List.map_eq_singleton_iff.1 (Option.some.inj hbound)
  have hmem : cs ∈ all := List.mem_of_mem_take (hcs ▸ List.mem_singleton_self cs)
  obtain ⟨e, he, -⟩ := hall.entries cs hmem (ctxVarTerm 1 1, 2 <<< 62 ||| 3)
    (List.mem_cons_of_mem _ List.mem_cons_self) (by decide)
  obtain ⟨hin, hterm, hsym⟩ := (he e).2 rfl
  have hkey : (e.ctx_term, e.sym) ∈ keys cs := List.mem_map_of_mem hin
  rw [hkeys, hterm, hsym] at hkey
  revert hkey
  decide +kernel

end RuleBinding

end Dyndmcs

end Dmcs
