import Dmcs.Dyndmcs.BindRule

/-!
# What binding a rule finds

A rule asks that each of its context variables is sent to a target with a match for every atom of
the variable.  The bindings of a rule are exactly the completions of the starting substitution, each
of them once.

Whether every atom has its entry is another matter: `bind_rule` looks up the context of a variable
where it means the variable, so that an entry for that context, as one gets there from an atom with
a constant context, can hide that the atom has none.

## The argument

`variableAssignment` forgets the symbols of a substitution and keeps where the variables are sent.
On this level an atom with a variable is a demand in the sense of `Completions`, and the choices of
`bind_rule` for an atom are the completions for its demand (`enumerates_choices`), each of them
once; so `enumerates_leaves` gives the assignments of the bindings.

The entries are followed separately.  `GetsEntry` says, of the atoms that are still to be bound,
whether a variable and a symbol are going to have an entry, and `Binds.getsEntry_iff` that binding
one atom does not change this.  At the end it is the condition that the entry is there.
-/

namespace Dmcs

namespace Dyndmcs

open Completions

variable {Q : Type}

/-! ## Collecting the targets -/

lemma collect_spec (range mti : List (Match Q)) (hmti : (mti.map Match.tarCtx).Nodup) :
    ((collect mti range).map Match.tarCtx).Nodup ∧
      (∀ m ∈ collect mti range, m ∈ mti ∨ m ∈ range) ∧
      ∀ m ∈ mti ++ range, ∃ m' ∈ collect mti range, m'.tarCtx = m.tarCtx := by
  induction range generalizing mti with
  | nil =>
      exact ⟨hmti, fun m hm => Or.inl hm, fun m hm => ⟨m, List.append_nil mti ▸ hm, rfl⟩⟩
  | cons low range ih =>
      unfold collect
      cases hfind : mti.find? (fun m => m.tarCtx = low.tarCtx) with
      | none =>
          have hnew : (mti ++ [low]).map Match.tarCtx = mti.map Match.tarCtx ++ [low.tarCtx] :=
            List.map_append
          obtain ⟨hnodup, hmem, htargets⟩ := ih (mti ++ [low]) (by
            rw [hnew, List.nodup_append_comm]
            refine List.nodup_cons.2 ⟨fun hin => ?_, hmti⟩
            obtain ⟨m, hm, htar⟩ := List.mem_map.1 hin
            exact List.find?_eq_none.1 hfind m hm (decide_eq_true htar))
          refine ⟨hnodup, fun m hm => ?_, fun m hm => htargets m ?_⟩
          · rcases hmem m hm with h | h
            · rcases List.mem_append.1 h with h | h
              · exact Or.inl h
              · exact Or.inr (List.mem_singleton.1 h ▸ List.mem_cons_self)
            · exact Or.inr (List.mem_cons_of_mem low h)
          · rw [List.append_assoc]
            exact hm
      | some it =>
          obtain ⟨hnodup, hmem, htargets⟩ := ih mti hmti
          refine ⟨hnodup, fun m hm => (hmem m hm).imp_right (List.mem_cons_of_mem low),
            fun m hm => ?_⟩
          have hit := List.mem_of_find?_eq_some hfind
          have htar : it.tarCtx = low.tarCtx := of_decide_eq_true
            (@List.find?_some _ (fun m : Match Q => decide (m.tarCtx = low.tarCtx)) _ _ hfind)
          rcases List.mem_append.1 hm with h | h
          · exact htargets m (List.mem_append_left range h)
          · rcases List.mem_cons.1 h with rfl | h
            · rw [← htar]
              exact htargets it (List.mem_append_left range hit)
            · exact htargets m (List.mem_append_right mti h)

namespace ContextSubstitution

/-- What the variables are sent to. -/
def variableAssignment (cs : ContextSubstitution Q) (ctx_term : ContextTerm) : Option ContextID :=
  if isCtxVar ctx_term then cs.assignment ctx_term else none

variable {cs : ContextSubstitution Q} {m : ContextMatch Q}

lemma variableAssignment_of_isCtxVar {t : ContextTerm} (ht : isCtxVar t = true) :
    cs.variableAssignment t = cs.assignment t :=
  if_pos ht

lemma variableAssignment_eq_some_iff {t : ContextTerm} {c : ContextID} :
    cs.variableAssignment t = some c ↔ isCtxVar t = true ∧ cs.assignment t = some c := by
  unfold variableAssignment
  by_cases ht : isCtxVar t = true
  · rw [if_pos ht, and_iff_right ht]
  · rw [if_neg ht]
    exact ⟨fun h => absurd h (Option.some_ne_none c).symm, fun h => absurd h.1 ht⟩

lemma variableAssignment_insert (hvar : isCtxVar m.ctx_term = true)
    (h : cs.assignment m.ctx_term = none ∨ cs.assignment m.ctx_term = some m.tarCtx) :
    (cs.insert m).variableAssignment =
      Function.update cs.variableAssignment m.ctx_term (some m.tarCtx) := by
  funext t
  unfold variableAssignment
  rw [assignment_insert h]
  by_cases ht : t = m.ctx_term
  · subst ht
    rw [if_pos hvar, Function.update_self, Function.update_self]
  · rw [Function.update_of_ne ht, Function.update_of_ne ht]

/-- An entry for a constant sends no variable anywhere. -/
lemma variableAssignment_insert_constant (hvar : isCtxVar m.ctx_term = false) :
    (cs.insert m).variableAssignment = cs.variableAssignment := by
  funext t
  unfold variableAssignment
  by_cases ht : isCtxVar t = true
  · rw [if_pos ht, if_pos ht]
    have hne : m.ctx_term ≠ t := by
      rintro rfl
      rw [ht] at hvar
      exact absurd hvar.symm Bool.false_ne_true
    exact congrArg (Option.map ContextMatch.tarCtx)
      (OrderedUnique.find?_insertInto_of_not (decide_eq_false hne))
  · rw [if_neg ht, if_neg ht]

end ContextSubstitution

namespace DynamicConfiguration

variable (dc : DynamicConfiguration Q)

/-- The targets for an atom with a variable. -/
def Allowed (sba : BridgeAtom) (c : ContextID) : Prop :=
  ∃ m ∈ dc.mt, m.srcCtx = variableContext sba.1 ∧ m.sym = sBelief sba.2 ∧ m.tarCtx = c

/-- What an atom asks of the variables. -/
def demand (sba : BridgeAtom) : Demand ContextTerm ContextID :=
  if isCtxVar sba.1 then .on sba.1 (Set.ofPred (dc.Allowed sba))
  else if sBeliefType sba.2 = IS_ORDINARY_BELIEF then .closed True
  else .closed (∃ m ∈ dc.mt,
    m.srcCtx = dc.ctx_id ∧ m.sym = sBelief sba.2 ∧ m.tarCtx = sba.1)

variable {dc}
variable {sba : BridgeAtom} {sofar cs : ContextSubstitution Q}

lemma names_demand {t : ContextTerm} :
    (dc.demand sba).Names t ↔ isCtxVar sba.1 = true ∧ sba.1 = t := by
  unfold demand
  split_ifs with hvar
  · rw [and_iff_right hvar]
    exact eq_comm
  · exact ⟨fun h => absurd h id, fun h => hvar h.1⟩
  · exact ⟨fun h => absurd h id, fun h => hvar h.1⟩

lemma sat_demand_iff {σ : ContextTerm → Option ContextID}
    (hsba : isCtxVar sba.1 = true ∨ sBeliefType sba.2 = IS_ORDINARY_BELIEF) :
    (dc.demand sba).Sat σ ↔ (isCtxVar sba.1 = true → ∃ c, dc.Allowed sba c ∧ σ sba.1 = some c) := by
  unfold demand
  split_ifs with hvar hordinary
  · exact ⟨fun h _ => h, fun h => h hvar⟩
  · exact ⟨fun _ h => absurd h hvar, fun _ => trivial⟩
  · exact absurd (hsba.resolve_left hvar) hordinary

/-! ## The choices for an atom -/

lemma choices_of_ordinary (hvar : isCtxVar sba.1 = false)
    (hordinary : sBeliefType sba.2 = IS_ORDINARY_BELIEF) : dc.choices sba sofar = [sofar] := by
  unfold choices
  simp only
  rw [hvar, hordinary]
  rfl

lemma choices_of_constant (hvar : isCtxVar sba.1 = false)
    (hschematic : sBeliefType sba.2 ≠ IS_ORDINARY_BELIEF) : dc.choices sba sofar =
      (dc.mt.bySrcSymTar dc.ctx_id (sBelief sba.2) sba.1).head?.toList.map
        (fun m => sofar.insert (m.bind sba.1)) := by
  unfold choices
  simp only
  rw [if_neg, if_pos]
  · rw [hvar]
    rfl
  · rw [hvar, Bool.not_false, Bool.true_and, beq_iff_eq]
    exact hschematic

variable (dc) in
/-- An atom with a constant context leaves one choice, if there is a match. -/
lemma choices_of_constant_cases (hvar : isCtxVar sba.1 = false)
    (hschematic : sBeliefType sba.2 ≠ IS_ORDINARY_BELIEF) :
    ((¬ ∃ m ∈ dc.mt, m.srcCtx = dc.ctx_id ∧ m.sym = sBelief sba.2 ∧ m.tarCtx = sba.1) ∧
      dc.choices sba sofar = []) ∨
    ∃ low, (low ∈ dc.mt ∧ low.srcCtx = dc.ctx_id ∧ low.sym = sBelief sba.2 ∧
      low.tarCtx = sba.1) ∧ dc.choices sba sofar = [sofar.insert (low.bind sba.1)] := by
  rw [choices_of_constant hvar hschematic]
  cases hrange : dc.mt.bySrcSymTar dc.ctx_id (sBelief sba.2) sba.1 with
  | nil =>
      refine Or.inl ⟨fun ⟨m, hm⟩ => ?_, rfl⟩
      have hmem := MatchTable.mem_bySrcSymTar.2 hm
      rw [hrange] at hmem
      exact List.not_mem_nil hmem
  | cons low range =>
      refine Or.inr ⟨low, MatchTable.mem_bySrcSymTar.1 ?_, rfl⟩
      rw [hrange]
      exact List.mem_cons_self

lemma choices_of_isCtxVar (hvar : isCtxVar sba.1 = true) : dc.choices sba sofar =
    match sofar.find sba.1 with
    | none => (dc.sortMatches sofar
        (collect [] (dc.mt.bySrcSym (variableContext sba.1) (sBelief sba.2)))).map
          (fun m => sofar.insert (m.bind sba.1))
    | some it =>
        match (collect [] (dc.mt.bySrcSym (variableContext sba.1) (sBelief sba.2))).find?
          (fun m => m.tarCtx = it.tarCtx) with
        | none => []
        | some _ =>
            match sofar.findSrcSym (variableContext sba.1) (sBelief sba.2) with
            | some _ => [sofar]
            | none => (dc.mt.bySrcSymTar (variableContext sba.1) (sBelief sba.2)
                it.tarCtx).head?.toList.map (fun m => sofar.insert (m.bind sba.1)) := by
  unfold choices
  simp only
  rw [hvar]
  rfl

/-- `cs` binds an atom with a variable to the target `c`: with a new entry, unless it seems that
there is one. -/
structure Binds (dc : DynamicConfiguration Q) (sba : BridgeAtom)
    (sofar cs : ContextSubstitution Q) (c : ContextID) : Prop where
  allowed : dc.Allowed sba c
  agrees : sofar.assignment sba.1 = none ∨ sofar.assignment sba.1 = some c
  entry :
    (cs = sofar ∧ sofar.assignment sba.1 = some c ∧
      sofar.findSrcSym (variableContext sba.1) (sBelief sba.2) ≠ none) ∨
    ∃ m : ContextMatch Q, cs = sofar.insert m ∧ m.ctx_term = sba.1 ∧ m.sym = sBelief sba.2 ∧
      m.tarCtx = c ∧ (sofar.assignment sba.1 = none ∨
        sofar.findSrcSym (variableContext sba.1) (sBelief sba.2) = none)

lemma allowed_of_mem_bySrcSym {m : Match Q}
    (hm : m ∈ dc.mt.bySrcSym (variableContext sba.1) (sBelief sba.2)) :
    dc.Allowed sba m.tarCtx := by
  obtain ⟨hmt, hsrc, hsym⟩ := MatchTable.mem_bySrcSym.1 hm
  exact ⟨m, hmt, hsrc, hsym, rfl⟩

lemma mem_bySrcSym_of_mem_collect {m : Match Q}
    (hm : m ∈ collect [] (dc.mt.bySrcSym (variableContext sba.1) (sBelief sba.2))) :
    m ∈ dc.mt.bySrcSym (variableContext sba.1) (sBelief sba.2) :=
  ((collect_spec _ [] List.nodup_nil).2.1 m hm).resolve_left List.not_mem_nil

lemma exists_mem_collect {c : ContextID} (h : dc.Allowed sba c) :
    ∃ m ∈ collect [] (dc.mt.bySrcSym (variableContext sba.1) (sBelief sba.2)), m.tarCtx = c := by
  obtain ⟨m, hmt, hsrc, hsym, rfl⟩ := h
  exact (collect_spec _ [] List.nodup_nil).2.2 m (MatchTable.mem_bySrcSym.2 ⟨hmt, hsrc, hsym⟩)

variable (dc) in
/-- A variable that is not bound is bound to each target once. -/
lemma choices_of_unbound (hvar : isCtxVar sba.1 = true) (hnone : sofar.assignment sba.1 = none) :
    ∃ mti : List (Match Q), dc.choices sba sofar = mti.map (fun m => sofar.insert (m.bind sba.1)) ∧
      (mti.map Match.tarCtx).Nodup ∧
      (∀ m ∈ mti, m ∈ dc.mt.bySrcSym (variableContext sba.1) (sBelief sba.2)) ∧
      ∀ c, dc.Allowed sba c → ∃ m ∈ mti, m.tarCtx = c := by
  have hfind : sofar.find sba.1 = none := Option.map_eq_none_iff.1 hnone
  have hperm := dc.sortMatches_perm sofar
    (collect [] (dc.mt.bySrcSym (variableContext sba.1) (sBelief sba.2)))
  rw [choices_of_isCtxVar hvar, hfind]
  refine ⟨_, rfl, ?_, fun m hm => mem_bySrcSym_of_mem_collect (hperm.mem_iff.1 hm), fun c hc => ?_⟩
  · exact ((hperm.map Match.tarCtx).nodup_iff).2 (collect_spec _ [] List.nodup_nil).1
  · obtain ⟨m, hm, htar⟩ := exists_mem_collect hc
    exact ⟨m, hperm.mem_iff.2 hm, htar⟩

variable (dc) in
/-- A variable that is bound stays bound to its target, if that is allowed. -/
lemma choices_of_bound (hvar : isCtxVar sba.1 = true) {c : ContextID}
    (hc : sofar.assignment sba.1 = some c) :
    (¬ dc.Allowed sba c ∧ dc.choices sba sofar = []) ∨
      ∃ cs, dc.choices sba sofar = [cs] ∧ dc.Binds sba sofar cs c := by
  obtain ⟨it, hfind, rfl⟩ := ContextSubstitution.assignment_eq_some_iff.1 hc
  rw [choices_of_isCtxVar hvar, hfind]
  simp only
  split
  · rename_i hnone
    refine Or.inl ⟨fun hallowed => ?_, rfl⟩
    obtain ⟨m, hm, htar⟩ := exists_mem_collect hallowed
    exact List.find?_eq_none.1 hnone m hm (decide_eq_true htar)
  · rename_i m hsome
    have hm := mem_bySrcSym_of_mem_collect (List.mem_of_find?_eq_some hsome)
    have htar : m.tarCtx = it.tarCtx := of_decide_eq_true
      (@List.find?_some _ (fun m : Match Q => decide (m.tarCtx = it.tarCtx)) _ _ hsome)
    have hallowed : dc.Allowed sba it.tarCtx := htar ▸ allowed_of_mem_bySrcSym hm
    refine Or.inr ?_
    split
    · rename_i e hhidden
      have hhides : sofar.findSrcSym (variableContext sba.1) (sBelief sba.2) ≠ none := by
        rw [hhidden]
        exact Option.some_ne_none e
      exact ⟨sofar, rfl, hallowed, Or.inr hc, Or.inl ⟨rfl, hc, hhides⟩⟩
    · rename_i hfree
      cases hrange : dc.mt.bySrcSymTar (variableContext sba.1) (sBelief sba.2) it.tarCtx with
      | nil =>
          obtain ⟨m', hmt, hsrc, hsym, htar'⟩ := hallowed
          have hmem : m' ∈ dc.mt.bySrcSymTar (variableContext sba.1) (sBelief sba.2) it.tarCtx :=
            MatchTable.mem_bySrcSymTar.2 ⟨hmt, hsrc, hsym, htar'⟩
          rw [hrange] at hmem
          exact absurd hmem List.not_mem_nil
      | cons low range =>
          have hlow : low ∈
              dc.mt.bySrcSymTar (variableContext sba.1) (sBelief sba.2) it.tarCtx := by
            rw [hrange]
            exact List.mem_cons_self
          obtain ⟨-, -, hsym, hlowtar⟩ := MatchTable.mem_bySrcSymTar.1 hlow
          exact ⟨_, rfl, hallowed, Or.inr hc, Or.inr ⟨low.bind sba.1, rfl, rfl, hsym, hlowtar,
            Or.inr hfree⟩⟩

lemma exists_binds (hvar : isCtxVar sba.1 = true) (hcs : cs ∈ dc.choices sba sofar) :
    ∃ c, dc.Binds sba sofar cs c := by
  cases hassigned : sofar.assignment sba.1 with
  | none =>
      obtain ⟨mti, hchoices, -, hmti, -⟩ := choices_of_unbound dc hvar hassigned
      rw [hchoices] at hcs
      obtain ⟨m, hm, rfl⟩ := List.mem_map.1 hcs
      have hrange := hmti m hm
      exact ⟨m.tarCtx, allowed_of_mem_bySrcSym hrange, Or.inl hassigned, Or.inr ⟨m.bind sba.1, rfl,
        rfl, (MatchTable.mem_bySrcSym.1 hrange).2.2, rfl, Or.inl hassigned⟩⟩
  | some c =>
      rcases choices_of_bound dc hvar hassigned with ⟨-, hnil⟩ | ⟨cs', hsingle, hbinds⟩
      · rw [hnil] at hcs
        exact absurd hcs List.not_mem_nil
      · rw [hsingle] at hcs
        rw [List.mem_singleton.1 hcs]
        exact ⟨c, hbinds⟩

/-- Binding an atom sends its variable to the target. -/
lemma Binds.variableAssignment_eq {c : ContextID} (hvar : isCtxVar sba.1 = true)
    (h : dc.Binds sba sofar cs c) :
    cs.variableAssignment = Function.update sofar.variableAssignment sba.1 (some c) := by
  rcases h.entry with ⟨rfl, hc, -⟩ | ⟨m, rfl, hterm, -, rfl, -⟩
  · rw [← hc, ← ContextSubstitution.variableAssignment_of_isCtxVar hvar, Function.update_eq_self]
  · have hagrees := h.agrees
    rw [← hterm] at hvar hagrees ⊢
    exact ContextSubstitution.variableAssignment_insert hvar hagrees

lemma enumerates_choices_of_unbound (hvar : isCtxVar sba.1 = true)
    (hnone : sofar.assignment sba.1 = none) :
    Enumerates ((dc.choices sba sofar).map ContextSubstitution.variableAssignment)
      (Completion [.on sba.1 (Set.ofPred (dc.Allowed sba))] sofar.variableAssignment) := by
  have hassignment := @ContextSubstitution.variableAssignment_of_isCtxVar Q sofar _ hvar
  obtain ⟨mti, hchoices, hnodup, hmti, htargets⟩ := choices_of_unbound dc hvar hnone
  have hmap : (dc.choices sba sofar).map ContextSubstitution.variableAssignment =
      (mti.map Match.tarCtx).map
        (fun c => Function.update sofar.variableAssignment sba.1 (some c)) := by
    rw [hchoices, List.map_map, List.map_map]
    refine List.map_congr_left (fun m _ => ?_)
    exact ContextSubstitution.variableAssignment_insert (m := m.bind sba.1) hvar (Or.inl hnone)
  rw [hmap]
  refine ⟨hnodup.map (fun c c' h => ?_), fun σ => ?_⟩
  · have heq := congrFun h sba.1
    rw [Function.update_self, Function.update_self] at heq
    exact Option.some.inj heq
  · rw [completion_on_of_none (hassignment.trans hnone), List.mem_map]
    constructor
    · rintro ⟨c, hc, rfl⟩
      obtain ⟨m, hm, rfl⟩ := List.mem_map.1 hc
      exact ⟨m.tarCtx, allowed_of_mem_bySrcSym (hmti m hm), rfl⟩
    · rintro ⟨c, hc, rfl⟩
      obtain ⟨m, hm, rfl⟩ := htargets c hc
      exact ⟨m.tarCtx, List.mem_map_of_mem hm, rfl⟩

lemma enumerates_choices_of_bound (hvar : isCtxVar sba.1 = true) {c : ContextID}
    (hc : sofar.assignment sba.1 = some c) :
    Enumerates ((dc.choices sba sofar).map ContextSubstitution.variableAssignment)
      (Completion [.on sba.1 (Set.ofPred (dc.Allowed sba))] sofar.variableAssignment) := by
  have hassignment := @ContextSubstitution.variableAssignment_of_isCtxVar Q sofar _ hvar
  have hcompletion := fun σ => @completion_on_of_some _ _ _ σ _ (Set.ofPred (dc.Allowed sba)) _
    (hassignment.trans hc)
  rcases choices_of_bound dc hvar hc with ⟨hno, hnil⟩ | ⟨cs, hsingle, hbinds⟩
  · rw [hnil]
    exact Enumerates.nil (fun σ h => hno ((hcompletion σ).1 h).1)
  · have hsame : cs.variableAssignment = sofar.variableAssignment := by
      rw [hbinds.variableAssignment_eq hvar, ← hc, ← hassignment, Function.update_eq_self]
    rw [hsingle, List.map_singleton, hsame]
    exact Enumerates.singleton (fun σ => (hcompletion σ).trans (and_iff_right hbinds.allowed))

lemma enumerates_choices_of_constant (hvar : isCtxVar sba.1 = false)
    (hschematic : sBeliefType sba.2 ≠ IS_ORDINARY_BELIEF) :
    Enumerates ((dc.choices sba sofar).map ContextSubstitution.variableAssignment)
      (Completion [.closed (∃ m ∈ dc.mt,
        m.srcCtx = dc.ctx_id ∧ m.sym = sBelief sba.2 ∧ m.tarCtx = sba.1)]
        sofar.variableAssignment) := by
  rcases @choices_of_constant_cases Q dc sba sofar hvar hschematic with
    ⟨hno, hnil⟩ | ⟨low, hlow, hsingle⟩
  · rw [hnil]
    exact Enumerates.nil (fun σ h => hno (completion_closed.1 h).1)
  · have hsame : (sofar.insert (low.bind sba.1)).variableAssignment = sofar.variableAssignment :=
      ContextSubstitution.variableAssignment_insert_constant hvar
    rw [hsingle, List.map_singleton, hsame]
    exact Enumerates.singleton (fun σ => completion_closed.trans (and_iff_right ⟨low, hlow⟩))

/-- The choices for an atom are the completions for what it asks. -/
lemma enumerates_choices (dc : DynamicConfiguration Q) (sba : BridgeAtom)
    (sofar : ContextSubstitution Q) :
    Enumerates ((dc.choices sba sofar).map ContextSubstitution.variableAssignment)
      (Completion [dc.demand sba] sofar.variableAssignment) := by
  unfold demand
  cases hvar : isCtxVar sba.1 with
  | true =>
      rw [if_pos rfl]
      cases hassigned : sofar.assignment sba.1 with
      | none => exact enumerates_choices_of_unbound hvar hassigned
      | some c => exact enumerates_choices_of_bound hvar hassigned
  | false =>
      rw [if_neg Bool.false_ne_true]
      by_cases hordinary : sBeliefType sba.2 = IS_ORDINARY_BELIEF
      · rw [choices_of_ordinary hvar hordinary, if_pos hordinary]
        exact Enumerates.singleton (fun σ => completion_closed.trans (and_iff_right trivial))
      · rw [if_neg hordinary]
        exact enumerates_choices_of_constant hvar hordinary

/-! ## The entries for the atoms -/

lemma Binds.assignment_self {c : ContextID} (h : dc.Binds sba sofar cs c) :
    cs.assignment sba.1 = some c := by
  have hagrees := h.agrees
  rcases h.entry with ⟨rfl, hc, -⟩ | ⟨m, rfl, hterm, -, rfl, -⟩
  · exact hc
  · rw [← hterm] at hagrees ⊢
    rw [ContextSubstitution.assignment_insert hagrees, Function.update_self]

lemma Binds.assignment_of_ne {c : ContextID} (h : dc.Binds sba sofar cs c) {t : ContextTerm}
    (ht : t ≠ sba.1) : cs.assignment t = sofar.assignment t := by
  have hagrees := h.agrees
  rcases h.entry with ⟨rfl, -, -⟩ | ⟨m, rfl, hterm, -, rfl, -⟩
  · rfl
  · rw [← hterm] at hagrees ht
    rw [ContextSubstitution.assignment_insert hagrees, Function.update_of_ne ht]

lemma Binds.findSrcSym_of_ne {c : ContextID} (h : dc.Binds sba sofar cs c) {t : ContextTerm}
    {s : BitVec 64} (hne : ¬ (sba.1 = t ∧ sBelief sba.2 = s)) :
    cs.findSrcSym t s = sofar.findSrcSym t s := by
  rcases h.entry with ⟨rfl, -, -⟩ | ⟨m, rfl, hterm, hsym, -, -⟩
  · rfl
  · refine ContextSubstitution.findSrcSym_insert_of_ne ?_
    rw [hterm, hsym]
    exact hne

lemma Binds.findSrcSym_of_some {c : ContextID} (h : dc.Binds sba sofar cs c) {t : ContextTerm}
    {s : BitVec 64} {e : ContextMatch Q} (he : sofar.findSrcSym t s = some e) :
    cs.findSrcSym t s = some e := by
  rcases h.entry with ⟨rfl, -, -⟩ | ⟨m, rfl, -, -, -, -⟩
  · exact he
  · exact ContextSubstitution.findSrcSym_insert_of_some he

end DynamicConfiguration

/-- The symbol of the first atom with a variable. -/
def firstSymbol (t : ContextTerm) (atoms : List BridgeAtom) : Option (BitVec 64) :=
  (atoms.find? (fun sba => sba.1 = t)).map (fun sba => sBelief sba.2)

namespace ContextSubstitution

/-- There is an entry for a variable and a symbol, with the target of the variable. -/
def HasEntry (cs : ContextSubstitution Q) (t : ContextTerm) (s : BitVec 64) : Prop :=
  ∃ e, cs.findSrcSym t s = some e ∧ cs.assignment t = some e.tarCtx

/-- There is going to be an entry when `atoms` are bound: one is there; or there is none, and it is
not hidden by an entry for the context of the variable, unless that is not looked up because the
variable is bound for this atom. -/
def GetsEntry (cs : ContextSubstitution Q) (atoms : List BridgeAtom) (t : ContextTerm)
    (s : BitVec 64) : Prop :=
  cs.HasEntry t s ∨
    cs.findSrcSym t s = none ∧ (∃ sba ∈ atoms, sba.1 = t ∧ sBelief sba.2 = s) ∧
      (cs.findSrcSym (variableContext t) s = none ∨
        cs.assignment t = none ∧ firstSymbol t atoms = some s)

lemma getsEntry_nil {cs : ContextSubstitution Q} {t : ContextTerm} {s : BitVec 64} :
    cs.GetsEntry [] t s ↔ cs.HasEntry t s := by
  refine ⟨fun h => h.resolve_right (fun h' => ?_), Or.inl⟩
  obtain ⟨-, ⟨sba, hsba, -⟩, -⟩ := h'
  exact List.not_mem_nil hsba

end ContextSubstitution

namespace DynamicConfiguration

open ContextSubstitution

variable {dc : DynamicConfiguration Q} {sba : BridgeAtom} {atoms : List BridgeAtom}
  {sofar cs : ContextSubstitution Q} {t : ContextTerm} {s : BitVec 64}

lemma firstSymbol_of_ne (h : sba.1 ≠ t) : firstSymbol t (sba :: atoms) = firstSymbol t atoms := by
  unfold firstSymbol
  rw [List.find?_cons_of_neg (by rw [decide_eq_true_iff]; exact h)]

lemma firstSymbol_self : firstSymbol sba.1 (sba :: atoms) = some (sBelief sba.2) := by
  have hfind : (sba :: atoms).find? (fun sba' => sba'.1 = sba.1) = some sba :=
    List.find?_cons_of_pos (decide_eq_true rfl)
  unfold firstSymbol
  rw [hfind]
  rfl

lemma exists_atom_cons (h : ¬ (sba.1 = t ∧ sBelief sba.2 = s)) :
    (∃ sba' ∈ sba :: atoms, sba'.1 = t ∧ sBelief sba'.2 = s) ↔
      ∃ sba' ∈ atoms, sba'.1 = t ∧ sBelief sba'.2 = s := by
  rw [List.exists_mem_cons_iff]
  exact or_iff_right h

lemma no_entry_of_none {o : Option ContextID} :
    ¬ ∃ e : ContextMatch Q, none = some e ∧ o = some e.tarCtx := by
  rintro ⟨e, he, -⟩
  exact Option.some_ne_none e he.symm

/-- An entry that is there stays, and so does the target of its variable. -/
lemma Binds.getsEntry_iff_of_some {c : ContextID} {e : ContextMatch Q}
    (h : dc.Binds sba sofar cs c) (hfind : sofar.findSrcSym sba.1 s = some e)
    (hhidden : cs.findSrcSym (variableContext sba.1) s =
      sofar.findSrcSym (variableContext sba.1) s) :
    cs.GetsEntry atoms sba.1 s ↔ sofar.GetsEntry (sba :: atoms) sba.1 s := by
  obtain ⟨hmem, hterm, -⟩ := findSrcSym_eq_some_iff.1 hfind
  obtain ⟨c', hc'⟩ := exists_assignment hmem
  rw [hterm] at hc'
  have hsame : sofar.assignment sba.1 = some c := by
    rcases h.agrees with hnone | hsome
    · rw [hc'] at hnone
      exact absurd hnone (Option.some_ne_none _)
    · exact hsome
  unfold GetsEntry HasEntry
  rw [h.assignment_self, hhidden, firstSymbol_self, hfind, h.findSrcSym_of_some hfind, hsame]
  exact or_congr_right (and_congr_right (fun hnone => absurd hnone (Option.some_ne_none e)))

/-- The atom's own symbol gets its entry now, or it is never made. -/
lemma Binds.getsEntry_iff_of_symbol {c : ContextID} (h : dc.Binds sba sofar cs c)
    (hfind : sofar.findSrcSym sba.1 (sBelief sba.2) = none)
    (hhidden : cs.findSrcSym (variableContext sba.1) (sBelief sba.2) =
      sofar.findSrcSym (variableContext sba.1) (sBelief sba.2)) :
    cs.GetsEntry atoms sba.1 (sBelief sba.2) ↔
      sofar.GetsEntry (sba :: atoms) sba.1 (sBelief sba.2) := by
  unfold GetsEntry HasEntry
  rw [h.assignment_self, hhidden, firstSymbol_self, hfind, or_iff_right no_entry_of_none,
    and_iff_right rfl]
  rcases h.entry with ⟨rfl, hc, hhides⟩ | ⟨m, rfl, hmterm, hmsym, hmtar, hfree⟩
  · rw [hfind, hc, or_iff_right no_entry_of_none, and_iff_right rfl]
    refine ⟨fun h' => ?_, fun h' => ?_⟩
    · rcases h'.2 with h' | ⟨h', -⟩
      · exact absurd h' hhides
      · exact absurd h' (Option.some_ne_none c)
    · rcases h'.2 with h' | ⟨h', -⟩
      · exact absurd h' hhides
      · exact absurd h' (Option.some_ne_none c)
  · have hnew : (sofar.insert m).findSrcSym sba.1 (sBelief sba.2) = some m := by
      rw [← hmterm, ← hmsym] at hfind ⊢
      exact findSrcSym_insert_self hfind
    refine ⟨fun _ => ⟨⟨sba, List.mem_cons_self, rfl, rfl⟩, ?_⟩, fun _ => Or.inl ?_⟩
    · exact hfree.elim (fun hnone => Or.inr ⟨hnone, rfl⟩) Or.inl
    · exact ⟨m, hnew, congrArg some hmtar.symm⟩

/-- The variable's other symbols wait for an atom of their own. -/
lemma Binds.getsEntry_iff_of_ne_symbol {c : ContextID} (h : dc.Binds sba sofar cs c)
    (hfind : sofar.findSrcSym sba.1 s = none) (hsym : sBelief sba.2 ≠ s)
    (hhidden : cs.findSrcSym (variableContext sba.1) s =
      sofar.findSrcSym (variableContext sba.1) s) :
    cs.GetsEntry atoms sba.1 s ↔ sofar.GetsEntry (sba :: atoms) sba.1 s := by
  have hne : ¬ (sba.1 = sba.1 ∧ sBelief sba.2 = s) := fun h' => hsym h'.2
  unfold GetsEntry HasEntry
  rw [h.assignment_self, hhidden, firstSymbol_self, h.findSrcSym_of_ne hne, hfind,
    or_iff_right no_entry_of_none, or_iff_right no_entry_of_none, and_iff_right rfl,
    and_iff_right rfl, exists_atom_cons hne]
  refine and_congr_right (fun _ => or_congr_right ⟨fun h' => ?_, fun h' => ?_⟩)
  · exact absurd h'.1 (Option.some_ne_none c)
  · exact absurd (Option.some.inj h'.2) hsym

/-- Binding an atom does not change which entries there are going to be. -/
lemma Binds.getsEntry_iff {c : ContextID} (h : dc.Binds sba sofar cs c)
    (hsba : isCtxVar sba.1 = true) :
    cs.GetsEntry atoms t s ↔ sofar.GetsEntry (sba :: atoms) t s := by
  have hhidden : cs.findSrcSym (variableContext t) s = sofar.findSrcSym (variableContext t) s := by
    refine h.findSrcSym_of_ne (fun h' => ?_)
    have hconst := isCtxVar_variableContext t
    rw [← h'.1, hsba] at hconst
    exact absurd hconst.symm Bool.false_ne_true
  by_cases hterm : sba.1 = t
  · subst hterm
    cases hfind : sofar.findSrcSym sba.1 s with
    | some e => exact h.getsEntry_iff_of_some hfind hhidden
    | none =>
        by_cases hsym : sBelief sba.2 = s
        · subst hsym
          exact h.getsEntry_iff_of_symbol hfind hhidden
        · exact h.getsEntry_iff_of_ne_symbol hfind hsym hhidden
  · have hne : ¬ (sba.1 = t ∧ sBelief sba.2 = s) := fun h' => hterm h'.1
    unfold GetsEntry HasEntry
    rw [h.findSrcSym_of_ne hne, h.assignment_of_ne (Ne.symm hterm), hhidden,
      firstSymbol_of_ne hterm, exists_atom_cons hne]

/-- The bindings have an entry exactly when there is going to be one. -/
lemma hasEntry_iff (hsba : ∀ sba ∈ atoms, isCtxVar sba.1 = true ∨
      sBeliefType sba.2 = IS_ORDINARY_BELIEF) (ht : isCtxVar t = true)
    (hcs : cs ∈ dc.bindings atoms sofar) : cs.HasEntry t s ↔ sofar.GetsEntry atoms t s := by
  induction atoms generalizing sofar with
  | nil =>
      rw [List.mem_singleton.1 hcs]
      exact getsEntry_nil.symm
  | cons sba atoms ih =>
      obtain ⟨sofar', hsofar', hrest⟩ := List.mem_flatMap.1 hcs
      rw [ih (fun sba' hsba' => hsba sba' (List.mem_cons_of_mem sba hsba')) hrest]
      cases hvar : isCtxVar sba.1 with
      | true =>
          obtain ⟨c, hbinds⟩ := exists_binds hvar hsofar'
          exact hbinds.getsEntry_iff hvar
      | false =>
          have hordinary : sBeliefType sba.2 = IS_ORDINARY_BELIEF := by
            refine (hsba sba List.mem_cons_self).resolve_left ?_
            rw [hvar]
            exact Bool.false_ne_true
          rw [choices_of_ordinary hvar hordinary, List.mem_singleton] at hsofar'
          have hterm : sba.1 ≠ t := by
            rintro rfl
            rw [ht] at hvar
            exact absurd hvar.symm Bool.false_ne_true
          have hne : ¬ (sba.1 = t ∧ sBelief sba.2 = s) := fun h' => hterm h'.1
          rw [hsofar']
          unfold GetsEntry
          rw [firstSymbol_of_ne hterm, exists_atom_cons hne]

end DynamicConfiguration

end Dyndmcs

end Dmcs
