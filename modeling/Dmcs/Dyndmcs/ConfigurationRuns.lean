import Dmcs.Dyndmcs.ConfigurationSearch
import Dmcs.Lib.Triples
import Mathlib.Algebra.Order.BigOperators.Group.List
import Mathlib.Algebra.Group.Action.Defs
import Mathlib.Algebra.Order.Ring.Nat
import Mathlib.Data.List.Flatten

/-!
# Runs of the contexts, and what they find

`sublist_answer` compares the answer of a context with the search: it is a part of what the search
finds.  `answer_search` says that it is all of it when nothing is limited.

## The argument

Both theorems compare the functions of the contexts with `search`, which the library knows to find
every configuration once.  A context may stop early, because it has found as many as it should, so
in general its answer is a sublist of what the search finds; the proof goes along the calls, with
one lemma for each function.

Without limits nothing stops (`NoStop`), and the same functions return all of it.  How deep the
contexts ask each other is bounded by their number: a context that is being asked is not asked again
further down (`Stack`).
-/

namespace Dmcs

namespace Dyndmcs

open Completions Configurations Triples

variable {Q : Type}

/-! ## Parts of what the search finds -/

section Sublists

variable {dc : DynamicConfiguration Q} {sofar : ContextSubstitution Q} {root : ContextID}
  {next : ContextSubstitution Q → Run (List (ContextSubstitution Q))}
  {remote : ContextID → ContextSubstitution Q → Run (List (ContextSubstitution Q))}
  {f : ContextSubstitution Q → List (ContextSubstitution Q)}
  {g : ContextID → ContextSubstitution Q → List (ContextSubstitution Q)}

lemma sublist_whileNotStopped (ctx_id : ContextID)
    (hnext : ∀ cs, Ensures (next cs) (fun l => l.Sublist (f cs)))
    (queue : List (ContextSubstitution Q)) :
    Ensures (whileNotStopped ctx_id next queue) (fun l => l.Sublist (queue.flatMap f)) := by
  induction queue with
  | nil => exact Ensures.pure (List.Sublist.refl [])
  | cons cs queue ih =>
      unfold whileNotStopped
      refine Ensures.get.bind (fun counters _ => ?_)
      split_ifs
      · exact Ensures.pure (List.nil_sublist _)
      · refine (hnext cs).bind (fun l hl => ih.bind (fun l' hl' => Ensures.pure ?_))
        rw [List.flatMap_cons]
        exact hl.append hl'

namespace DynamicConfiguration

lemma sublist_invoke_neighbors
    (hremote : ∀ cid cs, Ensures (remote cid cs) (fun l => l.Sublist (g cid cs)))
    (cids : List ContextID) (sofar : ContextSubstitution Q) :
    Ensures (dc.invoke_neighbors remote cids sofar) (fun l => l.Sublist (leaves g cids sofar)) := by
  induction cids generalizing sofar with
  | nil =>
      exact Ensures.get.bind (fun counters _ => (Ensures.set _).bind
        (fun _ _ => Ensures.pure (List.Sublist.refl [sofar])))
  | cons cid c_next ih =>
      unfold invoke_neighbors
      split_ifs
      · refine (hremote cid sofar).bind (fun queue hqueue => ?_)
        intro s l s' hl
        exact (sublist_whileNotStopped dc.ctx_id ih queue s l s' hl).trans (hqueue.flatMap _)
      · exact Ensures.throw

lemma agenda_eq {l : List ContextID} (h : dc.newContexts root sofar [] sofar.entries = .ok l) :
    dc.agenda root sofar = dc.sortNeighbors l := by
  rw [agenda, h]
  rfl

lemma sublist_lconfigLeaf
    (hremote : ∀ cid cs, Ensures (remote cid cs) (fun l => l.Sublist (g cid cs)))
    (sofar : ContextSubstitution Q) : Ensures (dc.lconfigLeaf root remote sofar)
      (fun l => l.Sublist (leaves g (dc.agenda root sofar) sofar)) := by
  refine (Ensures.lift (P := fun l => dc.agenda root sofar = dc.sortNeighbors l)
    (fun l hl => agenda_eq hl)).bind (fun new_contexts hagenda => ?_)
  rw [hagenda]
  split_ifs with hlen
  · exact sublist_invoke_neighbors hremote _ sofar
  · have hnil : dc.sortNeighbors new_contexts = [] := by
      rw [gt_iff_lt, List.length_pos_iff, not_not] at hlen
      rw [hlen]
      exact (sortNeighbors_perm []).eq_nil
    rw [hnil]
    exact Ensures.pure (List.Sublist.refl [sofar])

lemma sublist_lconfigRules
    (hremote : ∀ cid cs, Ensures (remote cid cs) (fun l => l.Sublist (g cid cs)))
    (rules : List BridgeRule) (sofar : ContextSubstitution Q) :
    Ensures (dc.lconfigRules root remote rules sofar) (fun l => l.Sublist
      ((dc.ruleBindings rules sofar).flatMap (fun cs => leaves g (dc.agenda root cs) cs))) := by
  induction rules generalizing sofar with
  | nil =>
      show Ensures _ (fun l : List (ContextSubstitution Q) => l.Sublist ([sofar].flatMap _))
      rw [List.flatMap_singleton]
      exact sublist_lconfigLeaf hremote sofar
  | cons r r_next ih =>
      obtain ⟨s, hbound⟩ := dc.bind_rule_eq r.positiveBody r.negativeBody sofar
      unfold lconfigRules
      rw [hbound]
      refine (Ensures.lift (P := fun bound : Bound Q => bound.1.Sublist
        (dc.bindings r.atoms sofar)) (fun bound h => ?_)).bind (fun bound hbound => ?_)
      · rw [← Except.ok.inj h]
        exact List.take_sublist _ _
      · intro s l s' hl
        have hall : dc.ruleBindings (r :: r_next) sofar =
            (dc.bindings r.atoms sofar).flatMap (dc.ruleBindings r_next) := rfl
        rw [hall, List.flatMap_assoc]
        exact (sublist_whileNotStopped dc.ctx_id ih bound.1 s l s' hl).trans
          (hbound.flatMap _)

end DynamicConfiguration

end Sublists

namespace SchematicSystem

variable {U : Set ContextID} {sys : SchematicSystem Q U} {root : ContextID}

lemma search_succ (hatoms : sys.NoConstantAtoms) (fuel : ℕ) (k : ContextID)
    (cs : ContextSubstitution Q) :
    (sys.search root hatoms).search (fuel + 1) k cs =
      ((sys.context k).ruleBindings (sys.context k).bridge_rules cs).flatMap (fun cs' =>
        leaves ((sys.search root hatoms).search fuel) ((sys.context k).agenda root cs') cs') := by
  rw [DynamicConfiguration.ruleBindings_eq]
  rfl

lemma sublist_answer (hatoms : sys.NoConstantAtoms) (fuel : ℕ) (k : ContextID)
    (cs : ContextSubstitution Q) :
    Ensures (sys.answer fuel k root cs) (fun answer => answer.substitutions.Sublist
      ((sys.search root hatoms).search fuel k cs)) := by
  induction fuel generalizing k cs with
  | zero => exact Ensures.throw
  | succ fuel ih =>
      refine (DynamicConfiguration.sublist_lconfigRules (fun cid cs =>
        (ih cid cs).bind (fun answer h => Ensures.pure h)) _ cs).bind (fun result hresult => ?_)
      rw [← search_succ hatoms] at hresult
      split_ifs
      · exact (Ensures.lift (fun _ _ => trivial)).bind (fun topologies _ => Ensures.pure hresult)
      · exact Ensures.pure hresult

/-- Whatever the limits and the heuristics of the contexts are: the substitutions that the root
returns are configurations, and no two of them are the same. -/
theorem answers_are_configurations (sys : SchematicSystem Q U) (hatoms : sys.NoConstantAtoms)
    (root : ContextID) (fuel : ℕ) (counters counters' : ContextID → Counter) (answer : Answer Q)
    (hrun : sys.answer fuel root root ContextSubstitution.empty counters =
      .ok (answer, counters')) :
    (answer.substitutions.map ContextSubstitution.variableAssignment).Nodup ∧
      ∀ cs ∈ answer.substitutions, sys.IsConfiguration root cs.variableAssignment := by
  have hsub :=
    sublist_answer hatoms fuel root ContextSubstitution.empty counters answer counters' hrun
  have hvalid : (sys.search root hatoms).Valid ContextSubstitution.empty :=
    ContextSubstitution.sendable_empty U
  refine ⟨(hsub.map _).nodup (Search.nodup_search hvalid), fun cs hcs => ?_⟩
  rw [← isConfiguration_iff root hatoms]
  exact Search.isConfiguration_of_mem_search hvalid ContextSubstitution.variableAssignment_empty
    (hsub.subset hcs)

end SchematicSystem

/-! ## All of it -/

/-- No context has been told to stop. -/
def NoStop (counters : ContextID → Counter) : Prop := ∀ k, (counters k).stop = false

section NotStopped

variable {dc : DynamicConfiguration Q} {sofar : ContextSubstitution Q} {root : ContextID}
  {next : ContextSubstitution Q → Run (List (ContextSubstitution Q))}
  {remote : ContextID → ContextSubstitution Q → Run (List (ContextSubstitution Q))}
  {f : ContextSubstitution Q → List (ContextSubstitution Q)}
  {g : ContextID → ContextSubstitution Q → List (ContextSubstitution Q)}

lemma whileNotStopped_eq (ctx_id : ContextID) {queue : List (ContextSubstitution Q)}
    (hnext : ∀ cs ∈ queue, Attains NoStop (next cs) (fun l => l = f cs)) :
    Attains NoStop (whileNotStopped ctx_id next queue) (fun l => l = queue.flatMap f) := by
  induction queue with
  | nil => exact Attains.pure rfl
  | cons cs queue ih =>
      have hrest := ih (fun cs' hcs' => hnext cs' (List.mem_cons_of_mem cs hcs'))
      unfold whileNotStopped
      refine Attains.get.bind (fun counters hcounters => ?_)
      rw [if_neg (by rw [hcounters ctx_id]; exact Bool.false_ne_true)]
      refine (hnext cs List.mem_cons_self).bind (fun l hl =>
        hrest.bind (fun l' hl' => Attains.pure ?_))
      rw [List.flatMap_cons, hl, hl']

namespace DynamicConfiguration

lemma countAnswer_eq (hlimit : dc.limit_answers = 0) (sofar : ContextSubstitution Q) :
    Attains NoStop (dc.countAnswer sofar) (fun l => l = [sofar]) := by
  refine Attains.get.bind (fun counters hcounters => ?_)
  refine (Attains.set (I := NoStop) (fun k => ?_)).bind (fun _ _ => Attains.pure rfl)
  by_cases hk : k = dc.ctx_id
  · rw [hk, Function.update_self, if_neg (fun h => absurd h.1 (by omega))]
    exact hcounters dc.ctx_id
  · rw [Function.update_of_ne hk]
    exact hcounters k

/-- `R` says which contexts can be asked with which substitutions. -/
lemma invoke_neighbors_eq {R : ContextID → ContextSubstitution Q → Prop}
    (hlimit : dc.limit_answers = 0)
    (hremote : ∀ cid cs, R cid cs → Attains NoStop (remote cid cs) (fun l => l = g cid cs))
    (hR : ∀ cid cs, R cid cs → ∀ cs' ∈ g cid cs, ∀ c, R c cs → R c cs')
    {cids : List ContextID} (hinfo : ∀ cid ∈ cids, cid ∈ dc.context_info)
    (hcids : ∀ cid ∈ cids, R cid sofar) :
    Attains NoStop (dc.invoke_neighbors remote cids sofar)
      (fun l => l = leaves g cids sofar) := by
  induction cids generalizing sofar with
  | nil => exact countAnswer_eq hlimit sofar
  | cons cid c_next ih =>
      have hcid := hcids cid List.mem_cons_self
      unfold invoke_neighbors
      rw [if_neg (not_not.mpr (hinfo cid List.mem_cons_self))]
      refine (hremote cid sofar hcid).bind (fun queue hqueue => ?_)
      rw [hqueue]
      refine whileNotStopped_eq dc.ctx_id (fun cs hcs => ?_)
      exact ih (fun c hc => hinfo c (List.mem_cons_of_mem cid hc))
        (fun c hc => hR cid sofar hcid cs hcs c (hcids c (List.mem_cons_of_mem cid hc)))

lemma lconfigLeaf_eq {R : ContextID → ContextSubstitution Q → Prop} {U : Set ContextID}
    (hlimit : dc.limit_answers = 0)
    (hremote : ∀ cid cs, R cid cs → Attains NoStop (remote cid cs) (fun l => l = g cid cs))
    (hR : ∀ cid cs, R cid cs → ∀ cs' ∈ g cid cs, ∀ c, R c cs → R c cs')
    (hinfo : ∀ c ∈ U, c ∈ dc.context_info) (hsofar : sofar.Sendable U)
    (hagenda : ∀ c ∈ dc.agenda root sofar, R c sofar) :
    Attains NoStop (dc.lconfigLeaf root remote sofar)
      (fun l => l = leaves g (dc.agenda root sofar) sofar) := by
  obtain ⟨new_contexts, hnew, -⟩ :=
    newContexts_eq dc root hsofar [] hsofar.onlyVariables
  have hsorted := agenda_eq hnew
  unfold lconfigLeaf
  rw [hnew]
  refine (Attains.lift (P := fun l => l = new_contexts) rfl).bind (fun l hl => ?_)
  rw [hl]
  split_ifs with hlen
  · rw [hsorted] at hagenda ⊢
    refine invoke_neighbors_eq hlimit hremote hR (fun c hc => hinfo c ?_) hagenda
    rw [← hsorted, mem_agenda hsofar] at hc
    obtain ⟨e, he, -, htar⟩ := (hsofar.exists_entry_iff
      (p := fun t => variableContext t = dc.ctx_id)).mpr hc.2.1
    exact htar ▸ hsofar.targets e he
  · have hnil : dc.sortNeighbors new_contexts = [] := by
      rw [gt_iff_lt, List.length_pos_iff, not_not] at hlen
      rw [hlen]
      exact (sortNeighbors_perm []).eq_nil
    rw [hsorted, hnil]
    exact Attains.pure rfl

lemma lconfigRules_eq {all : ContextSubstitution Q → List (ContextSubstitution Q)}
    {rules : List BridgeRule} (hlimit : ∀ r ∈ rules, ∀ cs,
      (dc.bindings r.atoms cs).length ≤ dc.limit_bind_rules)
    (hleaf : ∀ cs ∈ dc.ruleBindings rules sofar,
      Attains NoStop (dc.lconfigLeaf root remote cs) (fun l => l = all cs)) :
    Attains NoStop (dc.lconfigRules root remote rules sofar)
      (fun l => l = (dc.ruleBindings rules sofar).flatMap all) := by
  induction rules generalizing sofar with
  | nil =>
      show Attains NoStop _ (fun l => l = [sofar].flatMap all)
      rw [List.flatMap_singleton]
      exact hleaf sofar (List.mem_singleton_self sofar)
  | cons r r_next ih =>
      obtain ⟨s, hbound⟩ := dc.bind_rule_eq r.positiveBody r.negativeBody sofar
      have hall : (dc.bindings r.atoms sofar).length ≤ max 1 dc.limit_bind_rules :=
        (hlimit r List.mem_cons_self sofar).trans (le_max_right _ _)
      have hbound' : dc.bind_rule r.positiveBody r.negativeBody sofar
          { no_bind_rules := 0, stop_bind_rules := false } =
            .ok (dc.bindings r.atoms sofar, s) := by
        rw [hbound]
        exact congrArg (fun l => Except.ok (l, s)) (List.take_of_length_le hall)
      have hsplit : dc.ruleBindings (r :: r_next) sofar =
          (dc.bindings r.atoms sofar).flatMap (dc.ruleBindings r_next) := rfl
      unfold lconfigRules
      rw [hbound', hsplit, List.flatMap_assoc]
      refine (Attains.lift (P := fun bound : Bound Q => bound.1 = dc.bindings r.atoms sofar)
        rfl).bind (fun bound hbindings => ?_)
      rw [hbindings]
      refine whileNotStopped_eq dc.ctx_id (fun cs hcs => ?_)
      exact ih (fun r' hr' => hlimit r' (List.mem_cons_of_mem r hr'))
        (fun cs' hcs' => hleaf cs' (hsplit ▸ List.mem_flatMap.mpr ⟨cs, hcs, hcs'⟩))

end DynamicConfiguration

lemma exists_compute_topology {rest : List (ContextMatch Q)}
    (hrest : ∀ e ∈ rest, isCtxVar e.ctx_term = true) (g : Graph) :
    ∃ g', compute_topology rest g = .ok g' := by
  induction rest generalizing g with
  | nil => exact ⟨g, rfl⟩
  | cons it rest ih =>
      rw [compute_topology, ctxID_of_isCtxVar (hrest it List.mem_cons_self)]
      exact ih (fun e he => hrest e (List.mem_cons_of_mem it he)) _

lemma exists_compute_topologies (ctx_subs : List (ContextSubstitution Q))
    (h : ∀ cs ∈ ctx_subs, cs.OnlyVariables) : ∃ topo, compute_topologies ctx_subs = .ok topo := by
  induction ctx_subs with
  | nil => exact ⟨[], rfl⟩
  | cons cs ctx_subs ih =>
      obtain ⟨topo, htopo⟩ := ih (fun cs' hcs' => h cs' (List.mem_cons_of_mem cs hcs'))
      obtain ⟨g, hg⟩ := exists_compute_topology (h cs List.mem_cons_self) []
      unfold compute_topologies
      rw [hg, htopo]
      exact ⟨_, rfl⟩

end NotStopped

/-! ## How many bindings there can be -/

section Length

variable {dc : DynamicConfiguration Q} {sba : BridgeAtom} {sofar : ContextSubstitution Q}

lemma length_collect_le (range mti : List (Match Q)) :
    (collect mti range).length ≤ mti.length + range.length := by
  induction range generalizing mti with
  | nil => exact Nat.le_refl _
  | cons low range ih =>
      unfold collect
      rw [List.length_cons]
      split
      · have hrest := ih (mti ++ [low])
        rw [List.length_append, List.length_singleton] at hrest
        omega
      · have hrest := ih mti
        omega

lemma length_head?_map_le {α β : Type} (l : List α) (f : α → β) :
    (l.head?.toList.map f).length ≤ 1 := by
  cases l with
  | nil => exact Nat.zero_le _
  | cons a l => exact Nat.le_refl _

namespace DynamicConfiguration

lemma length_choices_le (dc : DynamicConfiguration Q) (sba : BridgeAtom)
    (sofar : ContextSubstitution Q) : (dc.choices sba sofar).length ≤ max 1 dc.mt.length := by
  unfold choices
  simp only
  split_ifs
  · exact le_max_left _ _
  · exact (length_head?_map_le _ _).trans (le_max_left _ _)
  · split
    · rw [List.length_map, (dc.sortMatches_perm _ _).length_eq]
      refine (length_collect_le _ []).trans ?_
      rw [List.length_nil, Nat.zero_add]
      exact (List.length_filter_le _ _).trans (le_max_right _ _)
    · split
      · exact Nat.zero_le _
      · split
        · exact le_max_left _ _
        · exact (length_head?_map_le _ _).trans (le_max_left _ _)

/-- A limit that no rule reaches. -/
lemma length_bindings_le (dc : DynamicConfiguration Q) (atoms : List BridgeAtom)
    (sofar : ContextSubstitution Q) :
    (dc.bindings atoms sofar).length ≤ max 1 dc.mt.length ^ atoms.length := by
  induction atoms generalizing sofar with
  | nil => exact Nat.le_refl 1
  | cons sba atoms ih =>
      have hsplit : dc.bindings (sba :: atoms) sofar =
          (dc.choices sba sofar).flatMap (dc.bindings atoms) := rfl
      rw [hsplit, List.length_flatMap, List.length_cons, Nat.pow_succ, Nat.mul_comm]
      calc ((dc.choices sba sofar).map (fun cs => (dc.bindings atoms cs).length)).sum
          ≤ ((dc.choices sba sofar).map _).length • max 1 dc.mt.length ^ atoms.length := by
            refine List.sum_le_card_nsmul _ _ (fun n hn => ?_)
            obtain ⟨cs, -, rfl⟩ := List.mem_map.mp hn
            exact ih cs
        _ ≤ max 1 dc.mt.length * max 1 dc.mt.length ^ atoms.length := by
            rw [List.length_map, smul_eq_mul]
            exact Nat.mul_le_mul_right _ (dc.length_choices_le sba sofar)

end DynamicConfiguration

end Length

namespace SchematicSystem

variable {contexts : Finset ContextID} {sys : SchematicSystem Q contexts} {root : ContextID}

/-- No answer is cut off, and each context knows where the others are. -/
structure Unlimited (sys : SchematicSystem Q contexts) : Prop where
  limit_answers : ∀ k, (sys.context k).limit_answers = 0
  limit_bind_rules : ∀ k, ∀ r ∈ (sys.context k).bridge_rules, ∀ cs,
    ((sys.context k).bindings r.atoms cs).length ≤ (sys.context k).limit_bind_rules
  context_info : ∀ k, ∀ c ∈ contexts, c ∈ (sys.context k).context_info

lemma valuesIn_search (hatoms : sys.NoConstantAtoms) (hroot : root ∈ contexts) :
    (sys.search root hatoms).ValuesIn contexts := by
  refine ⟨hroot, fun s t c hs ht => ?_⟩
  obtain ⟨e, he, -, htar⟩ := (hs.exists_entry_iff (p := fun t' => t' = t)).mpr ⟨t, rfl, ht⟩
  exact htar ▸ hs.targets e he

/-- A context that is asked while its stack is as deep as the fuel allows. -/
lemma answer_search (hatoms : sys.NoConstantAtoms) (h : sys.Unlimited) (hroot : root ∈ contexts)
    (fuel : ℕ) {k : ContextID} {l : List ContextID} {cs : ContextSubstitution Q}
    (hcs : cs.Sendable contexts)
    (hstack : (sys.search root hatoms).Stack cs (k :: l))
    (hfuel : contexts.card < fuel + (k :: l).length) :
    Attains NoStop (sys.answer fuel k root cs)
      (fun answer => answer.substitutions = (sys.search root hatoms).search fuel k cs) := by
  induction fuel generalizing k l cs with
  | zero =>
      have hlen := hstack.length_le (valuesIn_search hatoms hroot) hcs
      omega
  | succ fuel ih =>
      have hvalid : ∀ cid cs cs', cs.Sendable ↑contexts →
          cs' ∈ (sys.search root hatoms).search fuel cid cs → cs'.Sendable ↑contexts ∧
            Extends cs.variableAssignment cs'.variableAssignment :=
        fun _ _ _ hs hs' =>
          Search.valid_and_extends_of_mem_search (X := sys.search root hatoms) hs hs'
      have hrules : Attains NoStop ((sys.context k).lconfigRules root (fun cid cs => do
            let answer ← sys.answer fuel cid root cs
            pure answer.substitutions) (sys.context k).bridge_rules cs)
          (fun result => result = (sys.search root hatoms).search (fuel + 1) k cs) := by
        rw [search_succ]
        refine DynamicConfiguration.lconfigRules_eq (h.limit_bind_rules k) (fun cs₁ hcs₁ => ?_)
        rw [DynamicConfiguration.ruleBindings_eq] at hcs₁
        have hsendable := (sys.search root hatoms).valid_bind hcs hcs₁
        have hstack₁ := hstack.mono
          (Search.completion_of_mem_bind (X := sys.search root hatoms) hcs hcs₁).isExtension
        refine DynamicConfiguration.lconfigLeaf_eq
          (R := fun c cs => cs.Sendable contexts ∧ (sys.search root hatoms).Stack cs (c :: k :: l))
          (h.limit_answers k) (fun cid cs hR => ?_) (fun cid cs hR cs' hcs' c hc => ?_)
          (h.context_info k) hsendable (fun c hc => ⟨hsendable, hstack₁.push hsendable hc⟩)
        · exact (ih hR.1 hR.2 (by rw [List.length_cons]; omega)).bind
            (fun answer hanswer => Attains.pure hanswer)
        · obtain ⟨hs, hext⟩ := hvalid cid cs cs' hR.1 hcs'
          exact ⟨hs, hc.2.mono hext⟩
      refine hrules.bind (fun result hresult => ?_)
      split_ifs
      · have honly : ∀ cs' ∈ result, cs'.OnlyVariables := by
          rw [hresult]
          exact fun cs' hcs' =>
            (Search.valid_and_extends_of_mem_search (X := sys.search root hatoms)
            hcs hcs').1.onlyVariables
        obtain ⟨topo, htopo⟩ := exists_compute_topologies result honly
        rw [htopo]
        exact (Attains.lift (P := fun _ => True) trivial).bind
          (fun topologies _ => Attains.pure hresult)
      · exact Attains.pure hresult

/-- Without limits, the substitutions that the root returns are all configurations of the system,
each of them once.  The contexts never ask each other deeper than there are contexts. -/
theorem answers_all_configurations (sys : SchematicSystem Q contexts)
    (hatoms : sys.NoConstantAtoms) (h : sys.Unlimited)
    (root : ContextID) (hroot : root ∈ contexts) (fuel : ℕ) (hfuel : contexts.card ≤ fuel)
    (counters : ContextID → Counter) (hcounters : NoStop counters) :
    ∃ answer counters', sys.answer fuel root root ContextSubstitution.empty counters =
        .ok (answer, counters') ∧
      (answer.substitutions.map ContextSubstitution.variableAssignment).Nodup ∧
      ∀ σ, σ ∈ answer.substitutions.map ContextSubstitution.variableAssignment ↔
        sys.IsConfiguration root σ := by
  have hempty := ContextSubstitution.sendable_empty (Q := Q) (contexts : Set ContextID)
  obtain ⟨answer, counters', hrun, -, hanswer⟩ := answer_search hatoms h hroot fuel hempty
    (Search.stack_root (sys.search root hatoms) _) (by rw [List.length_singleton]; omega)
    counters hcounters
  have hall := Search.enumerates_search (valuesIn_search hatoms hroot) hempty
    ContextSubstitution.variableAssignment_empty hfuel
  refine ⟨answer, counters', hrun, ?_⟩
  rw [hanswer]
  exact ⟨hall.nodup, fun σ => (hall.mem_iff σ).trans (isConfiguration_iff root hatoms σ)⟩

/-- The atom of the rules below. -/
def roundAtom (k : ContextID) : BridgeAtom := (ctxVarTerm k 1, 2 <<< 62 ||| 3)

/-- Two contexts with one rule each.  The variable of context 1 can be sent to context 1 and to
context 2, and that of context 2 only to context 1. -/
def roundSystem (limit_bind_rules : ℕ) :
    SchematicSystem ℕ (({1, 2} : Finset ContextID) : Set ContextID) where
  context := fun k =>
    { ctx_id := k
      bridge_rules := if k = 1 ∨ k = 2 then [⟨[roundAtom k], []⟩] else []
      context_info := [1, 2]
      mt := [⟨1, 3, 1, 7, 1⟩, ⟨1, 3, 2, 7, 1⟩, ⟨2, 3, 1, 7, 1⟩]
      limit_answers := 0
      limit_bind_rules := limit_bind_rules
      heuristics := ⟨none, none⟩ }
  ctx_id := fun _ => rfl
  own := by
    intro k sba hsba _
    obtain ⟨r, hr, hsba⟩ := List.mem_flatMap.mp hsba
    dsimp only at hr
    split_ifs at hr with hk
    · rw [List.mem_singleton.mp hr] at hsba
      rw [List.mem_singleton.mp hsba]
      rcases hk with rfl | rfl
      · decide
      · decide
    · exact absurd hr List.not_mem_nil
  targets := by
    intro k m hm
    simp only [List.mem_cons, List.not_mem_nil, or_false] at hm
    rcases hm with rfl | rfl | rfl
    · simp
    · simp
    · simp

lemma noConstantAtoms_roundSystem (limit_bind_rules : ℕ) :
    (roundSystem limit_bind_rules).NoConstantAtoms := by
  intro k sba hsba hconstant
  obtain ⟨r, hr, hsba⟩ := List.mem_flatMap.mp hsba
  change r ∈ (if k = 1 ∨ k = 2 then [(⟨[roundAtom k], []⟩ : BridgeRule)] else []) at hr
  split_ifs at hr with hk
  · rw [List.mem_singleton.mp hr] at hsba
    rw [List.mem_singleton.mp hsba] at hconstant
    rcases hk with rfl | rfl
    · exact absurd hconstant.1 (by decide)
    · exact absurd hconstant.1 (by decide)
  · exact absurd hr List.not_mem_nil

lemma unlimited_roundSystem : (roundSystem 3).Unlimited where
  limit_answers := fun _ => rfl
  limit_bind_rules := by
    intro k r hr cs
    have hatoms : r.atoms.length = 1 := by
      change r ∈ (if k = 1 ∨ k = 2 then [(⟨[roundAtom k], []⟩ : BridgeRule)] else []) at hr
      split_ifs at hr
      · rw [List.mem_singleton.mp hr]
        rfl
      · exact absurd hr List.not_mem_nil
    have hle := ((roundSystem 3).context k).length_bindings_le r.atoms cs
    rw [hatoms] at hle
    exact hle
  context_info := by
    intro k c hc
    simpa [roundSystem] using hc

/-- With one binding for each rule, context 1 returns one configuration. -/
theorem answers_are_configurations_round :
    ∃ answer counters', (roundSystem 1).answer 2 1 1 ContextSubstitution.empty
        (fun _ => ⟨0, false⟩) = .ok (answer, counters') ∧ answer.substitutions.length = 1 ∧
      (answer.substitutions.map ContextSubstitution.variableAssignment).Nodup ∧
      ∀ cs ∈ answer.substitutions, (roundSystem 1).IsConfiguration 1 cs.variableAssignment := by
  have hlength : ((roundSystem 1).answer 2 1 1 ContextSubstitution.empty
      (fun _ => ⟨0, false⟩)).toOption.map (fun r => r.1.substitutions.length) = some 1 := by
    decide +kernel
  obtain ⟨r, hr, hone⟩ := Option.map_eq_some_iff.mp hlength
  cases hrun : (roundSystem 1).answer 2 1 1 ContextSubstitution.empty (fun _ => ⟨0, false⟩) with
  | error e =>
      rw [hrun] at hr
      exact nomatch hr
  | ok r' =>
      rw [hrun] at hr
      obtain rfl : r' = r := Option.some.inj hr
      exact ⟨r'.1, r'.2, rfl, hone, answers_are_configurations (roundSystem 1)
        (noConstantAtoms_roundSystem 1) 1 2
        (fun _ => ⟨0, false⟩) r'.2 r'.1 hrun⟩

/-- From context 1 there are the configuration of context 1 alone, and the one in which the two
contexts need each other. -/
theorem answers_all_configurations_round :
    ∃ answer counters', (roundSystem 3).answer 2 1 1 ContextSubstitution.empty
        (fun _ => ⟨0, false⟩) = .ok (answer, counters') ∧
      (answer.substitutions.map ContextSubstitution.variableAssignment).Nodup ∧
      ∀ σ, σ ∈ answer.substitutions.map ContextSubstitution.variableAssignment ↔
        (roundSystem 3).IsConfiguration 1 σ :=
  answers_all_configurations (roundSystem 3) (noConstantAtoms_roundSystem 3)
    unlimited_roundSystem 1 (by simp) 2 (by decide)
    (fun _ => ⟨0, false⟩) (fun _ => rfl)

end SchematicSystem

end Dyndmcs

end Dmcs
