import Dmcs.Dyndmcs.ContextTerms
import Dmcs.Lib.Configurations

/-!
# What the contexts find together (`DynamicConfiguration::lconfig` across contexts)

A context binds its rules and asks the contexts that its variables are sent to, each of which does
the same.  It leaves out those that another context has chosen already, since "it was/will be
eventually invoked by" that one.

So it is: whatever the limits and heuristics are, the substitutions that the root returns are
different configurations of the system (`answers_are_configurations`); and without limits they are
all of them (`answers_all_configurations`).

## The argument

On substitutions that contexts send each other (`Sendable`) the code's questions are questions about
the variable assignment: whether another context has chosen a target (`already_chosen_eq`), and
which contexts are new (`newContexts_eq`).  So the calls of the contexts are the search of
`Configurations`, with the rules of a context as the demands of a node (`isConfiguration_iff`).
-/

namespace Dmcs

namespace Dyndmcs

open Completions Configurations

variable {Q : Type}

namespace ContextSubstitution

/-- Entries for one term have one target. -/
def Consistent (cs : ContextSubstitution Q) : Prop :=
  ∀ e ∈ cs.entries, cs.assignment e.ctx_term = some e.tarCtx

variable {cs : ContextSubstitution Q} {m : ContextMatch Q} {t : ContextTerm} {c : ContextID}

lemma Consistent.insert (h : cs.Consistent)
    (hm : cs.assignment m.ctx_term = none ∨ cs.assignment m.ctx_term = some m.tarCtx) :
    (cs.insert m).Consistent := by
  intro e he
  rw [assignment_insert hm]
  rcases eq_or_mem_of_mem_insert he with rfl | he
  · exact Function.update_self _ _ _
  · by_cases hterm : e.ctx_term = m.ctx_term
    · have hassigned := h e he
      rw [hterm] at hassigned ⊢
      rcases hm with hnone | hsome
      · rw [hnone] at hassigned
        exact absurd hassigned.symm (Option.some_ne_none _)
      · rw [Function.update_self, ← hsome, hassigned]
    · rw [Function.update_of_ne hterm]
      exact h e he

/-- What the contexts send each other, when all targets are in `U`. -/
structure Sendable (U : Set ContextID) (cs : ContextSubstitution Q) : Prop where
  onlyVariables : cs.OnlyVariables
  consistent : cs.Consistent
  targets : ∀ e ∈ cs.entries, e.tarCtx ∈ U

lemma sendable_empty (U : Set ContextID) : (empty : ContextSubstitution Q).Sendable U :=
  ⟨fun _ he => absurd he List.not_mem_nil, fun _ he => absurd he List.not_mem_nil,
    fun _ he => absurd he List.not_mem_nil⟩

lemma variableAssignment_empty (t : ContextTerm) :
    (empty : ContextSubstitution Q).variableAssignment t = none :=
  ite_self none

lemma exists_entry_of_assignment (h : cs.assignment t = some c) :
    ∃ e ∈ cs.entries, e.ctx_term = t ∧ e.tarCtx = c := by
  obtain ⟨e, hfind, htar⟩ := assignment_eq_some_iff.mp h
  refine ⟨e, List.mem_of_find?_eq_some hfind, ?_, htar⟩
  exact of_decide_eq_true
    (@List.find?_some _ (fun e : ContextMatch Q => decide (e.ctx_term = t)) _ _ hfind)

lemma Sendable.exists_entry_iff {U : Set ContextID} (h : cs.Sendable U)
    {p : ContextTerm → Prop} :
    (∃ e ∈ cs.entries, p e.ctx_term ∧ e.tarCtx = c) ↔
      ∃ t, p t ∧ cs.variableAssignment t = some c := by
  constructor
  · rintro ⟨e, he, hp, rfl⟩
    exact ⟨e.ctx_term, hp,
      variableAssignment_eq_some_iff.mpr ⟨h.onlyVariables e he, h.consistent e he⟩⟩
  · rintro ⟨t, hp, ht⟩
    obtain ⟨e, he, rfl, htar⟩ :=
      exists_entry_of_assignment (variableAssignment_eq_some_iff.mp ht).2
    exact ⟨e, he, hp, htar⟩

end ContextSubstitution

/-! ## The contexts to ask -/

section NewContexts

variable {cs : ContextSubstitution Q} {U : Set ContextID} {root c : ContextID}

lemma anyFromOther_eq (ck : ContextID) {range : List (ContextMatch Q)}
    (hrange : ∀ e ∈ range, isCtxVar e.ctx_term = true) :
    ∃ b, anyFromOther ck range = .ok b ∧
      (b = true ↔ ∃ e ∈ range, variableContext e.ctx_term ≠ ck) := by
  induction range with
  | nil => exact ⟨false, rfl, by simp⟩
  | cons low range ih =>
      obtain ⟨b, hb, hiff⟩ := ih (fun e he => hrange e (List.mem_cons_of_mem low he))
      rw [anyFromOther, ctxID_of_isCtxVar (hrange low List.mem_cons_self)]
      show ∃ b, (if variableContext low.ctx_term ≠ ck then _ else _) = Except.ok b ∧ _
      by_cases hother : variableContext low.ctx_term ≠ ck
      · exact ⟨true, if_pos hother, fun _ => ⟨low, List.mem_cons_self, hother⟩, fun _ => rfl⟩
      · refine ⟨b, (if_neg hother).trans hb, hiff.trans ?_⟩
        rw [List.exists_mem_cons_iff, or_iff_right hother]

lemma already_chosen_eq (h : cs.Sendable U) (ck c : ContextID) :
    ∃ b, already_chosen cs ck c = .ok b ∧
      (b = true ↔ ∃ t, variableContext t ≠ ck ∧ cs.variableAssignment t = some c) := by
  have hmem : ∀ e, e ∈ cs.byTarCtx.filter (fun m => m.tarCtx = c) ↔
      e ∈ cs.entries ∧ e.tarCtx = c := by
    intro e
    rw [List.mem_filter, cs.same, decide_eq_true_iff]
    exact Iff.rfl
  obtain ⟨b, hb, hiff⟩ := anyFromOther_eq ck
    (fun e he => h.onlyVariables e ((hmem e).mp he).1)
  refine ⟨b, hb, hiff.trans ?_⟩
  rw [← h.exists_entry_iff]
  refine exists_congr (fun e => ?_)
  rw [hmem]
  tauto

namespace DynamicConfiguration

variable {dc : DynamicConfiguration Q} {sofar : ContextSubstitution Q}

/-- The contexts that `lconfig` asks. -/
def agenda (dc : DynamicConfiguration Q) (root : ContextID) (sofar : ContextSubstitution Q) :
    List ContextID :=
  dc.sortNeighbors ((dc.newContexts root sofar [] sofar.entries).toOption.getD [])

lemma newContexts_eq (dc : DynamicConfiguration Q) (root : ContextID) (h : sofar.Sendable U)
    (new_contexts : List ContextID)
    {rest : List (ContextMatch Q)} (hrest : ∀ e ∈ rest, isCtxVar e.ctx_term = true) :
    ∃ l, dc.newContexts root sofar new_contexts rest = .ok l ∧ ∀ c, c ∈ l ↔ c ∈ new_contexts ∨
      (c ≠ root ∧ (∃ e ∈ rest, variableContext e.ctx_term = dc.ctx_id ∧ e.tarCtx = c) ∧
        ¬ ∃ t, variableContext t ≠ dc.ctx_id ∧ sofar.variableAssignment t = some c) := by
  induction rest generalizing new_contexts with
  | nil => exact ⟨new_contexts, rfl, by simp⟩
  | cons it rest ih =>
      have ih := fun l => ih l (fun e he => hrest e (List.mem_cons_of_mem it he))
      have hcons : ∀ c, (∃ e ∈ it :: rest, variableContext e.ctx_term = dc.ctx_id ∧ e.tarCtx = c) ↔
          (variableContext it.ctx_term = dc.ctx_id ∧ it.tarCtx = c) ∨
            ∃ e ∈ rest, variableContext e.ctx_term = dc.ctx_id ∧ e.tarCtx = c :=
        fun c => List.exists_mem_cons_iff _ _ _
      rw [newContexts]
      -- a context is added unless it is the root, stands for another variable context, is there
      -- already, or is assigned to another variable context
      by_cases hroot : it.tarCtx ≠ root
      · rw [if_pos hroot, ctxID_of_isCtxVar (hrest it List.mem_cons_self)]
        show ∃ l, (if variableContext it.ctx_term = dc.ctx_id then _ else _) = Except.ok l ∧ _
        by_cases hctx : variableContext it.ctx_term = dc.ctx_id
        · rw [if_pos hctx]
          by_cases hmem : it.tarCtx ∈ new_contexts
          · rw [if_pos hmem]
            obtain ⟨l, hl, hiff⟩ := ih new_contexts
            refine ⟨l, hl, fun c => (hiff c).trans ?_⟩
            rw [hcons]
            by_cases hc : it.tarCtx = c
            · subst hc
              simp [hmem]
            · simp [hc]
          · rw [if_neg hmem]
            obtain ⟨b, hb, hchosen⟩ := already_chosen_eq h dc.ctx_id it.tarCtx
            rw [hb]
            cases b with
            | true =>
                obtain ⟨l, hl, hiff⟩ := ih new_contexts
                refine ⟨l, hl, fun c => (hiff c).trans ?_⟩
                rw [hcons]
                by_cases hc : it.tarCtx = c
                · subst hc
                  simp only [hchosen.mp rfl, not_true, and_false]
                · simp [hc]
            | false =>
                obtain ⟨l, hl, hiff⟩ := ih (new_contexts ++ [it.tarCtx])
                refine ⟨l, hl, fun c => (hiff c).trans ?_⟩
                have hfree := fun hother => Bool.false_ne_true (hchosen.mpr hother)
                rw [hcons, List.mem_append, List.mem_singleton]
                by_cases hc : it.tarCtx = c
                · subst hc
                  exact iff_of_true (Or.inl (Or.inr rfl))
                    (Or.inr ⟨hroot, Or.inl ⟨hctx, rfl⟩, hfree⟩)
                · simp [hc, Ne.symm hc]
        · rw [if_neg hctx]
          obtain ⟨l, hl, hiff⟩ := ih new_contexts
          refine ⟨l, hl, fun c => (hiff c).trans ?_⟩
          rw [hcons, or_iff_right (fun hc : _ ∧ it.tarCtx = c => hctx hc.1)]
      · rw [if_neg hroot]
        obtain ⟨l, hl, hiff⟩ := ih new_contexts
        refine ⟨l, hl, fun c => (hiff c).trans ?_⟩
        rw [hcons]
        by_cases hc : it.tarCtx = c
        · rw [not_not.mp hroot] at hc
          simp [← hc]
        · simp [hc]

lemma sortNeighbors_perm (l : List ContextID) : (dc.sortNeighbors l).Perm l := by
  unfold sortNeighbors
  split
  · exact List.Perm.refl l
  · exact List.mergeSort_perm l _

/-- `lconfig` asks the targets of its own variables, but not the root, nor those that another
context has chosen. -/
lemma mem_agenda (h : sofar.Sendable U) : c ∈ dc.agenda root sofar ↔ c ≠ root ∧
    (∃ t, variableContext t = dc.ctx_id ∧ sofar.variableAssignment t = some c) ∧
    ¬ ∃ t, variableContext t ≠ dc.ctx_id ∧ sofar.variableAssignment t = some c := by
  obtain ⟨l, hl, hiff⟩ := newContexts_eq dc root h [] h.onlyVariables
  rw [agenda, (sortNeighbors_perm _).mem_iff, hl]
  show c ∈ l ↔ _
  rw [hiff, or_iff_right List.not_mem_nil,
    h.exists_entry_iff (p := fun t => variableContext t = dc.ctx_id)]

end DynamicConfiguration

end NewContexts

/-! ## Configurations of a system -/

namespace DynamicConfiguration

variable {dc : DynamicConfiguration Q} {sba : BridgeAtom} {sofar cs : ContextSubstitution Q}
  {U : Set ContextID}

lemma Binds.sendable {c : ContextID} (h : dc.Binds sba sofar cs c)
    (hvar : isCtxVar sba.1 = true) (hc : c ∈ U) (hsofar : sofar.Sendable U) : cs.Sendable U := by
  rcases h.entry with ⟨rfl, -, -⟩ | ⟨m, rfl, hterm, -, htar, -⟩
  · exact hsofar
  · have hagrees := h.agrees
    rw [← hterm, ← htar] at hagrees
    refine ⟨fun e he => ?_, hsofar.consistent.insert hagrees, fun e he => ?_⟩
    · rcases ContextSubstitution.eq_or_mem_of_mem_insert he with rfl | he
      · exact hterm ▸ hvar
      · exact hsofar.onlyVariables e he
    · rcases ContextSubstitution.eq_or_mem_of_mem_insert he with rfl | he
      · exact htar ▸ hc
      · exact hsofar.targets e he

lemma sendable_of_mem_bindings {atoms : List BridgeAtom} (hU : ∀ m ∈ dc.mt, m.tarCtx ∈ U)
    (hatoms : ∀ sba ∈ atoms, ¬ IsConstantAtom sba) (hsofar : sofar.Sendable U)
    (hcs : cs ∈ dc.bindings atoms sofar) : cs.Sendable U := by
  induction atoms generalizing sofar with
  | nil =>
      rw [List.mem_singleton.mp hcs]
      exact hsofar
  | cons sba atoms ih =>
      obtain ⟨sofar', hsofar', hrest⟩ := List.mem_flatMap.mp hcs
      refine ih (fun sba' hsba' => hatoms sba' (List.mem_cons_of_mem sba hsba')) ?_ hrest
      cases hvar : isCtxVar sba.1 with
      | true =>
          obtain ⟨c, hbinds⟩ := exists_binds hvar hsofar'
          obtain ⟨m, hm, -, -, htar⟩ := hbinds.allowed
          exact hbinds.sendable hvar (htar ▸ hU m hm) hsofar
      | false =>
          have hordinary : sBeliefType sba.2 = IS_ORDINARY_BELIEF := by
            by_contra hne
            exact hatoms sba List.mem_cons_self ⟨hvar, hne⟩
          rw [choices_of_ordinary hvar hordinary, List.mem_singleton] at hsofar'
          exact hsofar' ▸ hsofar

end DynamicConfiguration

/-- A system as the parser leaves it: the variables of the rules of a context are its own.  The
matches lead to the contexts in `U`. -/
structure SchematicSystem (Q : Type) (U : Set ContextID) extends System Q where
  own : ∀ k, ∀ sba ∈ (context k).allAtoms, isCtxVar sba.1 = true → variableContext sba.1 = k
  targets : ∀ k, ∀ m ∈ (context k).mt, m.tarCtx ∈ U

namespace SchematicSystem

variable {U : Set ContextID} (sys : SchematicSystem Q U) (root : ContextID)

/-- No context has a schematic atom with a constant context. -/
def NoConstantAtoms : Prop := ∀ k, (sys.context k).NoConstantAtoms

/-- A variable of `k` is sent to `c`. -/
def Edge (σ : ContextTerm → Option ContextID) (k c : ContextID) : Prop :=
  ∃ t, variableContext t = k ∧ σ t = some c

/-- The root is configured, and so is each context that a variable of a configured one is sent to.
`σ` sends the variables of the rules of these contexts, and no others, to targets with matches for
all atoms. -/
structure IsConfiguration (σ : ContextTerm → Option ContextID) : Prop where
  only : ∀ t c, σ t = some c → Relation.ReflTransGen (Edge σ) root (variableContext t) ∧
    ∃ sba ∈ (sys.context (variableContext t)).allAtoms, isCtxVar sba.1 = true ∧ sba.1 = t
  matched : ∀ k, Relation.ReflTransGen (Edge σ) root k → ∀ sba ∈ (sys.context k).allAtoms,
    isCtxVar sba.1 = true → ∃ c, σ sba.1 = some c ∧
      ∃ m ∈ (sys.context k).mt, m.srcCtx = k ∧ m.sym = sBelief sba.2 ∧ m.tarCtx = c

/-- The search that the contexts make together. -/
def search (hatoms : sys.NoConstantAtoms) :
    Search (ContextSubstitution Q) ContextID ContextTerm where
  root := root
  owner := variableContext
  demand := fun k => (sys.context k).allAtoms.map (sys.context k).demand
  denote := ContextSubstitution.variableAssignment
  Valid := ContextSubstitution.Sendable U
  bind := fun k => (sys.context k).bindings (sys.context k).allAtoms
  agenda := fun k => (sys.context k).agenda root
  names_owner := by
    intro k d t hd hnames
    obtain ⟨sba, hsba, rfl⟩ := List.mem_map.mp hd
    obtain ⟨hvar, rfl⟩ := DynamicConfiguration.names_demand.mp hnames
    exact sys.own k sba hsba hvar
  valid_bind := fun {k _ _} hs hs' =>
    DynamicConfiguration.sendable_of_mem_bindings (sys.targets k) (hatoms k) hs hs'
  enumerates_bind := fun k {s} _ =>
    enumerates_leaves (sys.context k).enumerates_choices (sys.context k).allAtoms s
  mem_agenda := by
    intro k s c hs
    rw [DynamicConfiguration.mem_agenda hs, sys.ctx_id k]

variable {sys} (hatoms : sys.NoConstantAtoms)
include hatoms

lemma sat_demand_iff {k : ContextID} {sba : BridgeAtom} (hsba : sba ∈ (sys.context k).allAtoms)
    (σ : ContextTerm → Option ContextID) : ((sys.context k).demand sba).Sat σ ↔
      (isCtxVar sba.1 = true → ∃ c, σ sba.1 = some c ∧
        ∃ m ∈ (sys.context k).mt, m.srcCtx = k ∧ m.sym = sBelief sba.2 ∧ m.tarCtx = c) := by
  have hsort : isCtxVar sba.1 = true ∨ sBeliefType sba.2 = IS_ORDINARY_BELIEF := by
    by_contra hnot
    rw [not_or, Bool.not_eq_true] at hnot
    exact hatoms k sba hsba hnot
  rw [DynamicConfiguration.sat_demand_iff hsort]
  refine forall_congr' (fun hvar => exists_congr (fun c => ?_))
  rw [DynamicConfiguration.Allowed, sys.own k sba hsba hvar]
  exact and_comm

lemma isConfiguration_iff (σ : ContextTerm → Option ContextID) :
    (sys.search root hatoms).IsConfiguration σ ↔ sys.IsConfiguration root σ := by
  constructor
  · intro h
    refine ⟨fun t c ht => ?_, fun k hk sba hsba => ?_⟩
    · obtain ⟨hreach, d, hd, hnames⟩ := h.only t c ht
      obtain ⟨sba, hsba, rfl⟩ := List.mem_map.mp hd
      exact ⟨hreach, sba, hsba, DynamicConfiguration.names_demand.mp hnames⟩
    · exact (sat_demand_iff hatoms hsba σ).mp (h.sat k hk _ (List.mem_map_of_mem hsba))
  · intro h
    refine ⟨fun t c ht => ?_, fun k hk d hd => ?_⟩
    · obtain ⟨hreach, sba, hsba, hnames⟩ := h.only t c ht
      exact ⟨hreach, _, List.mem_map_of_mem hsba, DynamicConfiguration.names_demand.mpr hnames⟩
    · obtain ⟨sba, hsba, rfl⟩ := List.mem_map.mp hd
      exact (sat_demand_iff hatoms hsba σ).mpr (h.matched k hk sba hsba)

end SchematicSystem

end Dyndmcs

end Dmcs
