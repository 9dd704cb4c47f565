import Dmcs.Dyndmcs.Bindings
import Dmcs.Dyndmcs.Lconfig
import Dmcs.Lib.Avoids

/-!
# Where the context of a term is asked for

`lconfig` and `compute_topology` take every entry of a substitution for that of a variable, and ask
for the context of its term.  `bind_rule` makes entries for constant context terms, too.
`asksOnlyVariables_iff` says when no run fails on one: in every context no atom has them, or its
rules cannot be bound at all.

## The argument

If no atom has a constant context, or if the rules cannot be bound, then whatever binds all rules
has entries for variables only, and no loop asks for the context of anything else.  `Avoids` carries
this through the functions that call each other.

For the other direction a run is built that fails: with a substitution that sends the variables
where they can be bound (`exists_prebound`), every atom has exactly one choice, and the entry that
an atom with a constant context makes is met by the loop over new contexts.
-/

namespace Dmcs

namespace Dyndmcs

open Completions Avoidance

variable {Q : Type}

/-- All entries are for variables. -/
def ContextSubstitution.OnlyVariables (cs : ContextSubstitution Q) : Prop :=
  ∀ e ∈ cs.entries, isCtxVar e.ctx_term = true

/-- An atom that is schematic, with a constant context. -/
def IsConstantAtom (sba : BridgeAtom) : Prop :=
  isCtxVar sba.1 = false ∧ sBeliefType sba.2 ≠ IS_ORDINARY_BELIEF

/-- There is an edge from the context of the variable of each entry. -/
def HasEdges (cs : ContextSubstitution Q) (g : Graph) : Prop :=
  ∀ e ∈ cs.entries, (variableContext e.ctx_term - 1, e.tarCtx - 1) ∈ g

namespace DynamicConfiguration

variable (dc : DynamicConfiguration Q)

/-- All atoms of all rules. -/
def allAtoms : List BridgeAtom := dc.bridge_rules.flatMap BridgeRule.atoms

def NoConstantAtoms : Prop := ∀ sba ∈ dc.allAtoms, ¬ IsConstantAtom sba

/-- There are the matches for an atom when `σ` sends its variable somewhere. -/
def BindsTo (σ : ContextTerm → ContextID) (sba : BridgeAtom) : Prop :=
  (isCtxVar sba.1 = true → dc.Allowed sba (σ sba.1)) ∧
  (IsConstantAtom sba → ∃ m ∈ dc.mt, m.srcCtx = dc.ctx_id ∧ m.sym = sBelief sba.2 ∧
    m.tarCtx = sba.1)

/-- There are targets for the variables with matches for all atoms of all rules. -/
def Bindable : Prop := ∃ σ, ∀ sba ∈ dc.allAtoms, dc.BindsTo σ sba

variable {dc} {sba : BridgeAtom} {sofar cs : ContextSubstitution Q} {root : ContextID}

/-! ## Entries for variables only -/

section OnlyVariables

/-- Entries for other terms come from atoms with constant contexts. -/
lemma onlyVariables_of_mem_choices (hsba : ¬ IsConstantAtom sba) (hsofar : sofar.OnlyVariables)
    (hcs : cs ∈ dc.choices sba sofar) : cs.OnlyVariables := by
  cases hvar : isCtxVar sba.1 with
  | true =>
      obtain ⟨c, hbinds⟩ := exists_binds hvar hcs
      rcases hbinds.entry with ⟨rfl, -, -⟩ | ⟨m, rfl, hterm, -, -, -⟩
      · exact hsofar
      · intro e he
        rcases ContextSubstitution.eq_or_mem_of_mem_insert he with rfl | he
        · rw [hterm]
          exact hvar
        · exact hsofar e he
  | false =>
      have hordinary : sBeliefType sba.2 = IS_ORDINARY_BELIEF := by
        by_contra hne
        exact hsba ⟨hvar, hne⟩
      rw [choices_of_ordinary hvar hordinary, List.mem_singleton] at hcs
      rw [hcs]
      exact hsofar

lemma onlyVariables_of_mem_bindings {atoms : List BridgeAtom}
    (hatoms : ∀ sba ∈ atoms, ¬ IsConstantAtom sba) (hsofar : sofar.OnlyVariables)
    (hcs : cs ∈ dc.bindings atoms sofar) : cs.OnlyVariables := by
  induction atoms generalizing sofar with
  | nil =>
      rw [List.mem_singleton.1 hcs]
      exact hsofar
  | cons sba atoms ih =>
      obtain ⟨sofar', hsofar', hrest⟩ := List.mem_flatMap.1 hcs
      exact ih (fun sba' hsba' => hatoms sba' (List.mem_cons_of_mem sba hsba'))
        (onlyVariables_of_mem_choices (hatoms sba List.mem_cons_self) hsofar hsofar') hrest

/-- The substitutions that bind all rules, one rule after the other. -/
def ruleBindings (dc : DynamicConfiguration Q) :
    List BridgeRule → ContextSubstitution Q → List (ContextSubstitution Q) :=
  leaves (fun r => dc.bindings r.atoms)

lemma ruleBindings_eq (rules : List BridgeRule) (sofar : ContextSubstitution Q) :
    dc.ruleBindings rules sofar = dc.bindings (rules.flatMap BridgeRule.atoms) sofar :=
  leaves_flatMap dc.choices BridgeRule.atoms rules sofar

/-- A substitution that binds all rules shows that they can be bound. -/
lemma bindable_of_mem_bindings (hcs : cs ∈ dc.bindings dc.allAtoms sofar) : dc.Bindable := by
  have hcompletion := ((enumerates_leaves dc.enumerates_choices dc.allAtoms sofar).mem_iff _).1
    (List.mem_map_of_mem hcs)
  refine ⟨fun t => (cs.variableAssignment t).getD 0, fun sba hsba => ⟨fun hvar => ?_,
    fun hconst => ?_⟩⟩
  · have hsat := hcompletion.sat _ (List.mem_map_of_mem hsba)
    unfold demand at hsat
    rw [if_pos hvar] at hsat
    obtain ⟨c, hc, hassigned⟩ := hsat
    show dc.Allowed sba ((cs.variableAssignment sba.1).getD 0)
    rw [hassigned]
    exact hc
  · have hsat := hcompletion.sat _ (List.mem_map_of_mem hsba)
    unfold demand at hsat
    rw [if_neg (by rw [hconst.1]; exact Bool.false_ne_true), if_neg hconst.2] at hsat
    exact hsat

end OnlyVariables

/-! ## The loops that ask for contexts -/

lemma anyFromOther_cases (ck : ContextID) (range : List (ContextMatch Q)) :
    anyFromOther ck range = .error .notVariable ∨ ∃ b, anyFromOther ck range = .ok b := by
  induction range with
  | nil => exact Or.inr ⟨false, rfl⟩
  | cons low range ih =>
      unfold anyFromOther
      cases hctx : ctxID low.ctx_term with
      | error e =>
          rw [eq_of_ctxID_error hctx]
          exact Or.inl rfl
      | ok context =>
          by_cases hother : context ≠ ck
          · exact Or.inr ⟨true, if_pos hother⟩
          · have hrest : (do
                let context ← Except.ok context
                if context ≠ ck then .ok true else anyFromOther ck range) =
                  anyFromOther ck range := if_neg hother
            rw [hrest]
            exact ih

lemma anyFromOther_ne_error (ck : ContextID) {range : List (ContextMatch Q)}
    (hrange : ∀ e ∈ range, isCtxVar e.ctx_term = true) :
    anyFromOther ck range ≠ .error .notVariable := by
  induction range with
  | nil => exact ok_ne_error
  | cons low range ih =>
      unfold anyFromOther
      rw [ctxID_of_isCtxVar (hrange low List.mem_cons_self)]
      by_cases hother : variableContext low.ctx_term ≠ ck
      · show (if variableContext low.ctx_term ≠ ck then _ else _) ≠ _
        rw [if_pos hother]
        exact ok_ne_error
      · show (if variableContext low.ctx_term ≠ ck then _ else _) ≠ _
        rw [if_neg hother]
        exact ih (fun e he => hrange e (List.mem_cons_of_mem low he))

lemma already_chosen_ne_error (hcs : cs.OnlyVariables) (ck c : ContextID) :
    already_chosen cs ck c ≠ .error .notVariable := by
  refine anyFromOther_ne_error ck (fun e he => hcs e ?_)
  exact (cs.same e).1 (List.mem_filter.1 he).1

/-- An entry makes the loop fail, or go on with the others. -/
lemma newContexts_cons (new_contexts : List ContextID) (it : ContextMatch Q)
    (rest : List (ContextMatch Q)) :
    (dc.newContexts root sofar new_contexts (it :: rest) = .error .notVariable ∧
      (isCtxVar it.ctx_term = true → ∃ ck, already_chosen sofar ck it.tarCtx =
        .error .notVariable)) ∨
    ((it.tarCtx ≠ root → isCtxVar it.ctx_term = true) ∧ ∃ l,
      dc.newContexts root sofar new_contexts (it :: rest) = dc.newContexts root sofar l rest) := by
  by_cases hroot : it.tarCtx ≠ root
  · rw [newContexts, if_pos hroot]
    cases hvar : isCtxVar it.ctx_term with
    | false =>
        rw [ctxID_of_not_isCtxVar hvar]
        exact Or.inl ⟨rfl, fun h => absurd h Bool.false_ne_true⟩
    | true =>
        rw [ctxID_of_isCtxVar hvar]
        show ((if variableContext it.ctx_term = dc.ctx_id then _ else _) = _ ∧ _) ∨
          (_ ∧ ∃ l, (if variableContext it.ctx_term = dc.ctx_id then _ else _) = _)
        by_cases hctx : variableContext it.ctx_term = dc.ctx_id
        · rw [if_pos hctx]
          by_cases hmem : it.tarCtx ∈ new_contexts
          · rw [if_pos hmem]
            exact Or.inr ⟨fun _ => rfl, new_contexts, rfl⟩
          · rw [if_neg hmem]
            rcases anyFromOther_cases dc.ctx_id
              (sofar.byTarCtx.filter (fun m => m.tarCtx = it.tarCtx)) with herror | ⟨b, hb⟩
            · have hchosen : already_chosen sofar dc.ctx_id it.tarCtx = .error .notVariable :=
                herror
              rw [hchosen]
              exact Or.inl ⟨rfl, fun _ => ⟨_, hchosen⟩⟩
            · have hchosen : already_chosen sofar dc.ctx_id it.tarCtx = .ok b := hb
              rw [hchosen]
              cases b with
              | true => exact Or.inr ⟨fun _ => rfl, new_contexts, rfl⟩
              | false => exact Or.inr ⟨fun _ => rfl, new_contexts ++ [it.tarCtx], rfl⟩
        · rw [if_neg hctx]
          exact Or.inr ⟨fun _ => rfl, new_contexts, rfl⟩
  · refine Or.inr ⟨fun h => absurd h hroot, new_contexts, ?_⟩
    exact if_neg hroot

lemma newContexts_ne_error (hsofar : sofar.OnlyVariables) (new_contexts : List ContextID)
    {rest : List (ContextMatch Q)} (hrest : ∀ e ∈ rest, isCtxVar e.ctx_term = true) :
    dc.newContexts root sofar new_contexts rest ≠ .error .notVariable := by
  induction rest generalizing new_contexts with
  | nil => exact ok_ne_error
  | cons it rest ih =>
      rcases @newContexts_cons Q dc sofar root new_contexts it rest with
        ⟨-, hchosen⟩ | ⟨-, l, hl⟩
      · obtain ⟨ck, herror⟩ := hchosen (hrest it List.mem_cons_self)
        exact absurd herror (already_chosen_ne_error hsofar ck it.tarCtx)
      · rw [hl]
        exact ih l (fun e he => hrest e (List.mem_cons_of_mem it he))

/-- An entry for a constant, with a target that is not the root, makes the loop fail. -/
lemma newContexts_eq_error (new_contexts : List ContextID) {rest : List (ContextMatch Q)}
    (hrest : ∃ e ∈ rest, isCtxVar e.ctx_term = false ∧ e.tarCtx ≠ root) :
    dc.newContexts root sofar new_contexts rest = .error .notVariable := by
  induction rest generalizing new_contexts with
  | nil =>
      obtain ⟨e, he, -⟩ := hrest
      exact absurd he List.not_mem_nil
  | cons it rest ih =>
      rcases @newContexts_cons Q dc sofar root new_contexts it rest with
        ⟨herror, -⟩ | ⟨hvar, l, hl⟩
      · exact herror
      · rw [hl]
        refine ih l ?_
        obtain ⟨e, he, hconst, htar⟩ := hrest
        rcases List.mem_cons.1 he with rfl | he
        · rw [hvar htar] at hconst
          exact absurd hconst.symm Bool.false_ne_true
        · exact ⟨e, he, hconst, htar⟩

/-! ## Runs that do not fail -/

section Avoids

variable {remote : ContextID → ContextSubstitution Q → Run (List (ContextSubstitution Q))}
  {next : ContextSubstitution Q → Run (List (ContextSubstitution Q))}

lemma avoids_whileNotStopped {P : ContextSubstitution Q → Prop} (ctx_id : ContextID)
    {queue : List (ContextSubstitution Q)}
    (hnext : ∀ cs ∈ queue, Avoids .notVariable (next cs) (fun l => ∀ c ∈ l, P c)) :
    Avoids .notVariable (whileNotStopped ctx_id next queue) (fun l => ∀ c ∈ l, P c) := by
  have hnil : ∀ c ∈ ([] : List (ContextSubstitution Q)), P c := fun c hc =>
    absurd hc List.not_mem_nil
  induction queue with
  | nil => exact Avoids.pure hnil
  | cons cs queue ih =>
      unfold whileNotStopped
      refine Avoids.get.bind (fun counters _ => ?_)
      split_ifs
      · exact Avoids.pure hnil
      · refine (hnext cs List.mem_cons_self).bind (fun l hl => ?_)
        refine (ih (fun cs' hcs' => hnext cs' (List.mem_cons_of_mem cs hcs'))).bind
          (fun l' hl' => Avoids.pure (fun c hc => ?_))
        rcases List.mem_append.1 hc with hc | hc
        · exact hl c hc
        · exact hl' c hc

lemma avoids_countAnswer (hsofar : sofar.OnlyVariables) :
    Avoids .notVariable (dc.countAnswer sofar) (fun l => ∀ c ∈ l, c.OnlyVariables) := by
  refine Avoids.get.bind (fun counters _ => (Avoids.set _).bind (fun _ _ => Avoids.pure ?_))
  intro c hc
  rw [List.mem_singleton.1 hc]
  exact hsofar

lemma avoids_invoke_neighbors (hremote : ∀ cid cs, cs.OnlyVariables →
      Avoids .notVariable (remote cid cs) (fun l => ∀ c ∈ l, c.OnlyVariables))
    (cids : List ContextID) (hsofar : sofar.OnlyVariables) :
    Avoids .notVariable (dc.invoke_neighbors remote cids sofar)
      (fun l => ∀ c ∈ l, c.OnlyVariables) := by
  induction cids generalizing sofar with
  | nil => exact avoids_countAnswer hsofar
  | cons cid c_next ih =>
      unfold invoke_neighbors
      split_ifs
      · exact (hremote cid sofar hsofar).bind (fun queue hqueue =>
          avoids_whileNotStopped dc.ctx_id (fun cs hcs => ih (hqueue cs hcs)))
      · exact Avoids.throw nofun

lemma avoids_lconfigLeaf (hremote : ∀ cid cs, cs.OnlyVariables →
      Avoids .notVariable (remote cid cs) (fun l => ∀ c ∈ l, c.OnlyVariables))
    (hsofar : sofar.OnlyVariables) :
    Avoids .notVariable (dc.lconfigLeaf root remote sofar)
      (fun l => ∀ c ∈ l, c.OnlyVariables) := by
  refine (Avoids.lift (fun _ _ => trivial) (newContexts_ne_error hsofar [] hsofar)).bind
    (fun new_contexts _ => ?_)
  split_ifs
  · exact avoids_invoke_neighbors hremote _ hsofar
  · refine Avoids.pure (fun c hc => ?_)
    rw [List.mem_singleton.1 hc]
    exact hsofar

/-- Binding the rules does not fail when what binds them all has entries for variables only. -/
lemma avoids_lconfigRules (hremote : ∀ cid cs, cs.OnlyVariables →
      Avoids .notVariable (remote cid cs) (fun l => ∀ c ∈ l, c.OnlyVariables))
    {rules : List BridgeRule}
    (hbindings : ∀ cs ∈ dc.ruleBindings rules sofar, cs.OnlyVariables) :
    Avoids .notVariable (dc.lconfigRules root remote rules sofar)
      (fun l => ∀ c ∈ l, c.OnlyVariables) := by
  induction rules generalizing sofar with
  | nil => exact avoids_lconfigLeaf hremote (hbindings sofar (List.mem_singleton_self sofar))
  | cons r r_next ih =>
      obtain ⟨s, hbound⟩ := dc.bind_rule_eq r.positiveBody r.negativeBody sofar
      unfold lconfigRules
      rw [hbound]
      refine (Avoids.lift (P := fun bound : Bound Q => bound.1 =
          (dc.bindings r.atoms sofar).take (max 1 dc.limit_bind_rules)) (fun bound h => ?_)
        ok_ne_error).bind (fun bound hbound => ?_)
      · rw [← Except.ok.inj h]
        rfl
      · rw [hbound]
        refine avoids_whileNotStopped dc.ctx_id (fun cs hcs => ih (fun cs' hcs' => ?_))
        exact hbindings cs' (List.mem_flatMap.2 ⟨cs, List.mem_of_mem_take hcs, hcs'⟩)

end Avoids

/-! ## Topologies -/

lemma compute_topology_ne_error {rest : List (ContextMatch Q)}
    (hrest : ∀ e ∈ rest, isCtxVar e.ctx_term = true) (g : Graph) :
    compute_topology rest g ≠ .error .notVariable := by
  induction rest generalizing g with
  | nil => exact ok_ne_error
  | cons it rest ih =>
      rw [compute_topology, ctxID_of_isCtxVar (hrest it List.mem_cons_self)]
      exact ih (fun e he => hrest e (List.mem_cons_of_mem it he)) _

/-- The topology has the edges that are there, and those of all entries. -/
lemma mem_of_compute_topology {rest : List (ContextMatch Q)} {g g' : Graph}
    (hrest : ∀ e ∈ rest, isCtxVar e.ctx_term = true) (h : compute_topology rest g = .ok g') :
    (∀ edge ∈ g, edge ∈ g') ∧
      ∀ e ∈ rest, (variableContext e.ctx_term - 1, e.tarCtx - 1) ∈ g' := by
  induction rest generalizing g with
  | nil =>
      obtain rfl : g = g' := Except.ok.inj h
      exact ⟨fun _ hedge => hedge, fun e he => absurd he List.not_mem_nil⟩
  | cons it rest ih =>
      rw [compute_topology, ctxID_of_isCtxVar (hrest it List.mem_cons_self)] at h
      obtain ⟨hkept, hedges⟩ := ih (fun e he => hrest e (List.mem_cons_of_mem it he)) h
      have hg : ∀ edge ∈ g, edge ∈ g' := by
        intro edge hedge
        refine hkept edge ?_
        split_ifs
        · exact hedge
        · exact List.mem_append_left _ hedge
      refine ⟨hg, fun e he => ?_⟩
      rcases List.mem_cons.1 he with rfl | he
      · refine hkept _ ?_
        split_ifs with hedge
        · exact hedge
        · exact List.mem_append_right _ (List.mem_singleton_self _)
      · exact hedges e he

lemma compute_topologies_ne_error {ctx_subs : List (ContextSubstitution Q)}
    (h : ∀ cs ∈ ctx_subs, cs.OnlyVariables) :
    compute_topologies ctx_subs ≠ .error .notVariable := by
  induction ctx_subs with
  | nil => exact ok_ne_error
  | cons cs ctx_subs ih =>
      have hrest := ih (fun cs' hcs' => h cs' (List.mem_cons_of_mem cs hcs'))
      have hfirst := compute_topology_ne_error (h cs List.mem_cons_self) []
      unfold compute_topologies
      cases hg : compute_topology cs.entries [] with
      | error e =>
          rw [hg] at hfirst
          exact fun he => hfirst (congrArg Except.error (Except.error.inj he))
      | ok g =>
          cases htopo : compute_topologies ctx_subs with
          | error e =>
              rw [htopo] at hrest
              exact fun he => hrest (congrArg Except.error (Except.error.inj he))
          | ok topo => exact ok_ne_error

lemma hasEdges_of_compute_topologies {ctx_subs : List (ContextSubstitution Q)} {topo : List Graph}
    (h : ∀ cs ∈ ctx_subs, cs.OnlyVariables) (htopo : compute_topologies ctx_subs = .ok topo) :
    List.Forall₂ HasEdges ctx_subs topo := by
  induction ctx_subs generalizing topo with
  | nil =>
      obtain rfl : [] = topo := Except.ok.inj htopo
      exact List.Forall₂.nil
  | cons cs ctx_subs ih =>
      unfold compute_topologies at htopo
      cases hg : compute_topology cs.entries [] with
      | error e =>
          rw [hg] at htopo
          exact absurd htopo.symm ok_ne_error
      | ok g =>
          rw [hg] at htopo
          cases hrest : compute_topologies ctx_subs with
          | error e =>
              rw [hrest] at htopo
              exact absurd htopo.symm ok_ne_error
          | ok rest =>
              rw [hrest] at htopo
              obtain rfl : g :: rest = topo := Except.ok.inj htopo
              exact List.Forall₂.cons
                (mem_of_compute_topology (h cs List.mem_cons_self) hg).2
                (ih (fun cs' hcs' => h cs' (List.mem_cons_of_mem cs hcs')) hrest)

/-- Whatever binds all rules has entries for variables only, if no atom has a constant context, or
because nothing does. -/
lemma onlyVariables_of_mem_ruleBindings (hdc : dc.NoConstantAtoms ∨ ¬ dc.Bindable)
    (hsofar : sofar.OnlyVariables) (hcs : cs ∈ dc.ruleBindings dc.bridge_rules sofar) :
    cs.OnlyVariables := by
  rw [ruleBindings_eq] at hcs
  rcases hdc with hno | hnot
  · exact onlyVariables_of_mem_bindings hno hsofar hcs
  · exact absurd (bindable_of_mem_bindings hcs) hnot

/-- What an answer to the root is like. -/
def GoodAnswer (dc : DynamicConfiguration Q) (root : ContextID) (answer : Answer Q) : Prop :=
  (∀ cs ∈ answer.substitutions, cs.OnlyVariables) ∧
    (dc.ctx_id = root → List.Forall₂ HasEdges answer.substitutions answer.topologies)

lemma avoids_lconfig {remote : ContextID → ContextSubstitution Q →
      Run (List (ContextSubstitution Q))} (hdc : dc.NoConstantAtoms ∨ ¬ dc.Bindable)
    (hremote : ∀ cid cs, cs.OnlyVariables →
      Avoids .notVariable (remote cid cs) (fun l => ∀ c ∈ l, c.OnlyVariables))
    (hsofar : sofar.OnlyVariables) :
    Avoids .notVariable (dc.lconfig root remote sofar) (dc.GoodAnswer root) := by
  refine (avoids_lconfigRules hremote (fun cs hcs =>
    onlyVariables_of_mem_ruleBindings hdc hsofar hcs)).bind (fun result hresult => ?_)
  split_ifs with hroot
  · refine (Avoids.lift (P := fun topo => List.Forall₂ HasEdges result topo) (fun topo htopo =>
      hasEdges_of_compute_topologies hresult htopo) (compute_topologies_ne_error hresult)).bind
      (fun topo htopo => Avoids.pure ⟨hresult, fun _ => htopo⟩)
  · exact Avoids.pure ⟨hresult, fun h => absurd h hroot⟩

end DynamicConfiguration

namespace System

variable (sys : System Q)

/-- No run fails because a term is not a variable, whatever context is asked, for whatever root and
with whatever entries for variables; and the topologies have an edge for each entry. -/
structure AsksOnlyVariables : Prop where
  noFailure : ∀ fuel k root ctx_sub counters, ctx_sub.OnlyVariables →
    sys.answer fuel k root ctx_sub counters ≠ .error .notVariable
  edges : ∀ fuel k ctx_sub counters answer counters', ctx_sub.OnlyVariables →
    sys.answer fuel k k ctx_sub counters = .ok (answer, counters') →
      List.Forall₂ HasEdges answer.substitutions answer.topologies

variable {sys}

lemma avoids_answer (hsys : ∀ k, (sys.context k).NoConstantAtoms ∨ ¬ (sys.context k).Bindable)
    (fuel : ℕ) (k root : ContextID) {ctx_sub : ContextSubstitution Q}
    (hsub : ctx_sub.OnlyVariables) :
    Avoids .notVariable (sys.answer fuel k root ctx_sub) ((sys.context k).GoodAnswer root) := by
  induction fuel generalizing k ctx_sub with
  | zero => exact Avoids.throw nofun
  | succ fuel ih =>
      exact DynamicConfiguration.avoids_lconfig (hsys k) (fun cid cs hcs =>
        (ih cid hcs).bind (fun answer hanswer => Avoids.pure hanswer.1)) hsub

end System

/-! ## Runs that fail -/

namespace DynamicConfiguration

variable {dc : DynamicConfiguration Q} {sba : BridgeAtom} {sofar cs : ContextSubstitution Q}
  {root : ContextID} {σ : ContextTerm → ContextID}

/-- `cs` comes from `sofar` by entries that bind no variable; those for constants have the constant
as target. -/
structure AddsConstants (sofar cs : ContextSubstitution Q) : Prop where
  assignment : cs.variableAssignment = sofar.variableAssignment
  kept : ∀ e ∈ sofar.entries, e ∈ cs.entries
  targets : ∀ e ∈ cs.entries, isCtxVar e.ctx_term = false →
    e ∈ sofar.entries ∨ e.tarCtx = e.ctx_term

lemma AddsConstants.refl (sofar : ContextSubstitution Q) : AddsConstants sofar sofar :=
  ⟨rfl, fun _ he => he, fun _ he _ => Or.inl he⟩

lemma AddsConstants.trans {cs' : ContextSubstitution Q} (h : AddsConstants sofar cs)
    (h' : AddsConstants cs cs') : AddsConstants sofar cs' := by
  refine ⟨h'.assignment.trans h.assignment, fun e he => h'.kept e (h.kept e he),
    fun e he hconst => ?_⟩
  rcases h'.targets e he hconst with he | htar
  · exact h.targets e he hconst
  · exact Or.inr htar

/-- An atom whose variable is bound according to `σ` leaves one choice. -/
lemma exists_choice (hsba : dc.BindsTo σ sba)
    (hbound : isCtxVar sba.1 = true → sofar.variableAssignment sba.1 = some (σ sba.1)) :
    ∃ cs, dc.choices sba sofar = [cs] ∧ AddsConstants sofar cs ∧
      (IsConstantAtom sba → ∃ e ∈ cs.entries, e.ctx_term = sba.1) := by
  cases hvar : isCtxVar sba.1 with
  | true =>
      have hassigned := hbound hvar
      rw [ContextSubstitution.variableAssignment_of_isCtxVar hvar] at hassigned
      rcases choices_of_bound dc hvar hassigned with ⟨hno, -⟩ | ⟨cs, hsingle, hbinds⟩
      · exact absurd (hsba.1 hvar) hno
      · refine ⟨cs, hsingle, ⟨?_, ?_, ?_⟩, fun hconst => ?_⟩
        · rw [hbinds.variableAssignment_eq hvar, ← hbound hvar, Function.update_eq_self]
        · rcases hbinds.entry with ⟨rfl, -, -⟩ | ⟨m, rfl, -, -, -, -⟩
          · exact fun e he => he
          · exact fun e he => ContextSubstitution.mem_insert_of_mem he
        · intro e he hconst
          rcases hbinds.entry with ⟨rfl, -, -⟩ | ⟨m, rfl, hterm, -, -, -⟩
          · exact Or.inl he
          · refine (ContextSubstitution.eq_or_mem_of_mem_insert he).symm.imp_right (fun hem => ?_)
            rw [hem, hterm, hvar] at hconst
            exact absurd hconst.symm Bool.false_ne_true
        · rw [hconst.1] at hvar
          exact absurd hvar Bool.false_ne_true
  | false =>
      by_cases hordinary : sBeliefType sba.2 = IS_ORDINARY_BELIEF
      · exact ⟨sofar, choices_of_ordinary hvar hordinary, AddsConstants.refl sofar,
          fun hconst => absurd hordinary hconst.2⟩
      · rcases @choices_of_constant_cases Q dc sba sofar hvar hordinary with
          ⟨hno, -⟩ | ⟨low, hlow, hsingle⟩
        · exact absurd (hsba.2 ⟨hvar, hordinary⟩) hno
        · refine ⟨sofar.insert (low.bind sba.1), hsingle,
            ⟨ContextSubstitution.variableAssignment_insert_constant hvar,
              fun e he => ContextSubstitution.mem_insert_of_mem he, fun e he _ => ?_⟩,
            fun _ => ?_⟩
          · refine (ContextSubstitution.eq_or_mem_of_mem_insert he).symm.imp_right (fun hem => ?_)
            rw [hem]
            exact hlow.2.2.2
          · obtain ⟨e, he, hterm, -⟩ := sofar.exists_mem_insert (low.bind sba.1)
            exact ⟨e, he, hterm⟩

lemma exists_binding {atoms : List BridgeAtom} (hatoms : ∀ sba ∈ atoms, dc.BindsTo σ sba)
    (hbound : ∀ sba ∈ atoms, isCtxVar sba.1 = true →
      sofar.variableAssignment sba.1 = some (σ sba.1)) :
    ∃ cs, dc.bindings atoms sofar = [cs] ∧ AddsConstants sofar cs ∧
      ∀ sba ∈ atoms, IsConstantAtom sba → ∃ e ∈ cs.entries, e.ctx_term = sba.1 := by
  induction atoms generalizing sofar with
  | nil =>
      exact ⟨sofar, rfl, AddsConstants.refl sofar, fun sba hsba => absurd hsba List.not_mem_nil⟩
  | cons sba atoms ih =>
      obtain ⟨sofar', hchoice, hadds, hconst⟩ := exists_choice (hatoms sba List.mem_cons_self)
        (hbound sba List.mem_cons_self)
      obtain ⟨cs, hbindings, hadds', hconst'⟩ := ih
        (fun sba' hsba' => hatoms sba' (List.mem_cons_of_mem sba hsba'))
        (fun sba' hsba' hvar => (congrFun hadds.assignment _).trans
          (hbound sba' (List.mem_cons_of_mem sba hsba') hvar))
      refine ⟨cs, ?_, hadds.trans hadds', fun sba' hsba' hc => ?_⟩
      · show (dc.choices sba sofar).flatMap (dc.bindings atoms) = [cs]
        rw [hchoice, List.flatMap_singleton, hbindings]
      · rcases List.mem_cons.1 hsba' with rfl | hsba'
        · obtain ⟨e, he, hterm⟩ := hconst hc
          exact ⟨e, hadds'.kept e he, hterm⟩
        · exact hconst' sba' hsba' hc

lemma whileNotStopped_eq_error {ctx_id : ContextID}
    {next : ContextSubstitution Q → Run (List (ContextSubstitution Q))}
    {counters : ContextID → Counter} (hstop : (counters ctx_id).stop = false)
    (hnext : next cs counters = .error .notVariable) :
    whileNotStopped ctx_id next [cs] counters = .error .notVariable := by
  show (if (counters ctx_id).stop then _ else _ : Run (List (ContextSubstitution Q))) counters = _
  rw [if_neg (by rw [hstop]; exact Bool.false_ne_true)]
  show (next cs counters).bind _ = _
  rw [hnext]
  rfl

/-- An entry for a constant that is not the root, or an atom that makes one, fails the run when the
variables are bound so that all rules can be. -/
lemma lconfigRules_eq_error {remote : ContextID → ContextSubstitution Q →
      Run (List (ContextSubstitution Q))} {rules : List BridgeRule} {c : ContextTerm}
    {counters : ContextID → Counter}
    (hrules : ∀ r ∈ rules, ∀ sba ∈ r.atoms, dc.BindsTo σ sba)
    (hbound : ∀ r ∈ rules, ∀ sba ∈ r.atoms, isCtxVar sba.1 = true →
      sofar.variableAssignment sba.1 = some (σ sba.1))
    (htargets : ∀ e ∈ sofar.entries, isCtxVar e.ctx_term = false → e.tarCtx = e.ctx_term)
    (hc : isCtxVar c = false) (hroot : c ≠ root)
    (hconst : (∃ e ∈ sofar.entries, e.ctx_term = c) ∨
      ∃ r ∈ rules, ∃ sba ∈ r.atoms, IsConstantAtom sba ∧ sba.1 = c)
    (hstop : (counters dc.ctx_id).stop = false) :
    dc.lconfigRules root remote rules sofar counters = .error .notVariable := by
  induction rules generalizing sofar with
  | nil =>
      obtain ⟨e, he, hterm⟩ := hconst.resolve_right
        (fun ⟨r, hr, _⟩ => absurd hr List.not_mem_nil)
      have hvar : isCtxVar e.ctx_term = false := by
        rw [hterm]
        exact hc
      have htar : e.tarCtx ≠ root := by
        rw [htargets e he hvar, hterm]
        exact hroot
      show ((dc.newContexts root sofar [] sofar.entries).bind _).bind _ = _
      rw [newContexts_eq_error [] ⟨e, he, hvar, htar⟩]
      rfl
  | cons r r_next ih =>
      obtain ⟨cs, hbindings, hadds, hentries⟩ := exists_binding
        (hrules r List.mem_cons_self) (hbound r List.mem_cons_self)
      obtain ⟨s, hrun⟩ := dc.bind_rule_eq r.positiveBody r.negativeBody sofar
      have hsingle : (dc.bindings (r.positiveBody ++ r.negativeBody) sofar).take
          (max 1 dc.limit_bind_rules) = [cs] := by
        show (dc.bindings r.atoms sofar).take _ = [cs]
        rw [hbindings]
        exact List.take_of_length_le (by rw [List.length_singleton]; omega)
      rw [hsingle] at hrun
      unfold lconfigRules
      show ((dc.bind_rule r.positiveBody r.negativeBody sofar _).bind _).bind _ = _
      rw [hrun]
      refine whileNotStopped_eq_error hstop (ih
        (fun r' hr' => hrules r' (List.mem_cons_of_mem r hr'))
        (fun r' hr' sba hsba hvar => (congrFun hadds.assignment _).trans
          (hbound r' (List.mem_cons_of_mem r hr') sba hsba hvar))
        (fun e he hvar => ?_) ?_)
      · exact (hadds.targets e he hvar).elim (fun h => htargets e h hvar) id
      · rcases hconst with ⟨e, he, hterm⟩ | ⟨r', hr', sba, hsba, hconst, rfl⟩
        · exact Or.inl ⟨e, hadds.kept e he, hterm⟩
        · rcases List.mem_cons.1 hr' with rfl | hr'
          · exact Or.inl (hentries sba hsba hconst)
          · exact Or.inr ⟨r', hr', sba, hsba, hconst, rfl⟩

/-- A substitution that binds the variables according to `σ`. -/
lemma exists_prebound {atoms : List BridgeAtom} (hatoms : ∀ sba ∈ atoms, dc.BindsTo σ sba) :
    ∃ cs : ContextSubstitution Q, cs.OnlyVariables ∧
      (∀ t c, cs.assignment t = some c → c = σ t) ∧
      ∀ sba ∈ atoms, isCtxVar sba.1 = true → cs.variableAssignment sba.1 = some (σ sba.1) := by
  induction atoms with
  | nil =>
      exact ⟨ContextSubstitution.empty, fun e he => absurd he List.not_mem_nil,
        fun t c h => absurd h (Option.some_ne_none c).symm,
        fun sba hsba => absurd hsba List.not_mem_nil⟩
  | cons sba atoms ih =>
      obtain ⟨cs, honly, hagrees, hbound⟩ :=
        ih (fun sba' hsba' => hatoms sba' (List.mem_cons_of_mem sba hsba'))
      by_cases hvar : isCtxVar sba.1 = true
      · obtain ⟨m, -, -, -, htar⟩ := (hatoms sba List.mem_cons_self).1 hvar
        have hfree : cs.assignment sba.1 = none ∨ cs.assignment sba.1 = some m.tarCtx := by
          cases hassigned : cs.assignment sba.1 with
          | none => exact Or.inl rfl
          | some c => exact Or.inr (congrArg some ((hagrees sba.1 c hassigned).trans htar.symm))
        have hinsert : (cs.insert (m.bind sba.1)).assignment =
            Function.update cs.assignment sba.1 (some m.tarCtx) :=
          ContextSubstitution.assignment_insert (m := m.bind sba.1) hfree
        have hvars : (cs.insert (m.bind sba.1)).variableAssignment =
            Function.update cs.variableAssignment sba.1 (some m.tarCtx) :=
          ContextSubstitution.variableAssignment_insert (m := m.bind sba.1) hvar hfree
        refine ⟨cs.insert (m.bind sba.1), fun e he => ?_, fun t c h => ?_,
          fun sba' hsba' hvar' => ?_⟩
        · rcases ContextSubstitution.eq_or_mem_of_mem_insert he with rfl | he
          · exact hvar
          · exact honly e he
        · rw [hinsert] at h
          by_cases ht : t = sba.1
          · subst ht
            rw [Function.update_self] at h
            exact (Option.some.inj h).symm.trans htar
          · rw [Function.update_of_ne ht] at h
            exact hagrees t c h
        · rw [hvars]
          by_cases ht : sba'.1 = sba.1
          · rw [ht]
            exact (Function.update_self _ _ _).trans (congrArg some htar)
          · rw [Function.update_of_ne ht]
            rcases List.mem_cons.1 hsba' with rfl | hsba'
            · exact absurd rfl ht
            · exact hbound sba' hsba' hvar'
      · refine ⟨cs, honly, hagrees, fun sba' hsba' hvar' => ?_⟩
        rcases List.mem_cons.1 hsba' with rfl | hsba'
        · exact absurd hvar' hvar
        · exact hbound sba' hsba' hvar'

end DynamicConfiguration

namespace System

variable (sys : System Q)

/-- In every context no atom has a constant context, or the rules cannot be bound.  The two cases
are asked of every context on its own, since any of them may be a neighbor that is asked. -/
theorem asksOnlyVariables_iff : sys.AsksOnlyVariables ↔
    ∀ k, (sys.context k).NoConstantAtoms ∨ ¬ (sys.context k).Bindable := by
  constructor
  · intro h k
    by_contra hk
    rw [not_or, not_not] at hk
    obtain ⟨hsome, σ, hσ⟩ := hk
    unfold DynamicConfiguration.NoConstantAtoms at hsome
    push Not at hsome
    obtain ⟨sba, hsba, hconst⟩ := hsome
    obtain ⟨cs, honly, -, hbound⟩ := DynamicConfiguration.exists_prebound hσ
    have hatoms : ∀ r ∈ (sys.context k).bridge_rules, ∀ sba ∈ r.atoms,
        sba ∈ (sys.context k).allAtoms := fun r hr sba hsba => List.mem_flatMap.2 ⟨r, hr, hsba⟩
    obtain ⟨r, hr, hsbar⟩ := List.mem_flatMap.1 hsba
    have hroot : sba.1 ≠ sba.1 + 1 := by
      bv_omega
    refine h.noFailure 1 k (sba.1 + 1) cs (fun _ => ⟨0, false⟩) honly ?_
    show ((sys.context k).lconfigRules _ _ _ cs _).bind _ = _
    rw [DynamicConfiguration.lconfigRules_eq_error
      (fun r hr sba hsba => hσ sba (hatoms r hr sba hsba))
      (fun r hr sba hsba => hbound sba (hatoms r hr sba hsba))
      (fun e he hvar => absurd (hvar.symm.trans (honly e he)) Bool.false_ne_true)
      hconst.1 hroot (Or.inr ⟨r, hr, sba, hsbar, hconst, rfl⟩) rfl]
    rfl
  · intro h
    refine ⟨fun fuel k root ctx_sub counters honly => ?_,
      fun fuel k ctx_sub counters answer counters' honly hrun => ?_⟩
    · exact (avoids_answer h fuel k root honly).notBad counters
    · have hgood := (avoids_answer h fuel k k honly).result counters answer counters' hrun
      exact hgood.2 (sys.ctx_id k)

/-- Contexts with a rule whose atom has the constant context 2; in context 1 it has a match. -/
def constantContext : System ℕ where
  context := fun k =>
    { ctx_id := k
      bridge_rules := [⟨[(2, 2 <<< 62 ||| 3)], []⟩]
      context_info := [1, 2]
      mt := [⟨1, 3, 2, 7, 1⟩]
      limit_answers := 0
      limit_bind_rules := 1
      heuristics := ⟨none, none⟩ }
  ctx_id := fun _ => rfl

/-- Context 1 fails when it is the root, and starts from nothing. -/
theorem constant_context_fails : ¬ ∀ sys : System ℕ, sys.AsksOnlyVariables := by
  intro h
  have hno := (h constantContext).noFailure 1 1 1 ContextSubstitution.empty (fun _ => ⟨0, false⟩)
    (fun e he => absurd he List.not_mem_nil)
  have hfails : (match constantContext.answer 1 1 1 ContextSubstitution.empty
      (fun _ => ⟨0, false⟩) with
    | .error e => some e
    | .ok _ => none) = some .notVariable := by
    decide +kernel
  cases hrun : constantContext.answer 1 1 1 ContextSubstitution.empty (fun _ => ⟨0, false⟩) with
  | error e =>
      rw [hrun] at hfails hno
      exact hno (congrArg Except.error (Option.some.inj hfails))
  | ok r =>
      rw [hrun] at hfails
      exact Option.some_ne_none _ hfails.symm

end System

end Dyndmcs

end Dmcs
