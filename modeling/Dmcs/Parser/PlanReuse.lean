import Dmcs.Lib.QiRelations
import Dmcs.Lib.Reuse
import Dmcs.Parser.ReturnPlanGrammar
import Dmcs.Parser.QueryPlanGrammar

/-!
# Parsers of plans that are called again

A parser of query plans or of return plans keeps one map for all its calls.  An entry is inserted
only where the map has none for its key, so a second input is merged into the first: it adds the
contexts, or the parents, that are new.

## The argument

An entry of a map is built from the input alone, whatever the map holds already.  So two parsers
over one text, with different maps, go side by side (`QiRelations`), and the second map is at every
moment the first one merged with what was there before.  `Accumulates` is then met, and the library
says when such an object shows that it has a memory.
-/

namespace Dmcs

open Qi BaseParser Reuse

namespace BaseParser

lemma follows_field {σ τ : Type} {g : Prop} {P : σ → τ → Prop} (name : Text) :
    Follows g (field name) (field name) P P P Eq :=
  (Follows.lit skip name).seq (fun _ => Follows.lit skip [':'])

end BaseParser

/-! ## Query plans -/

namespace QueryPlanGrammar

/-- A `QueryPlanParser_t`. -/
def parser : Reusable Text Semantics (List (ℕ × ContextQueryPlan)) ParseError where
  init := Semantics.init
  call str := phraseParse skip start str
  result := Semantics.parsedResult

section Merging

variable {κ β : Type} [DecidableEq κ]

lemma lookup_eq_none {m : List (κ × β)} {k : κ} : m.lookup k = none ↔ k ∉ m.map Prod.fst := by
  rw [List.lookup_eq_none_iff]
  constructor
  · intro h hk
    obtain ⟨e, he, rfl⟩ := List.mem_map.1 hk
    simpa using h e he
  · intro hk e he
    simp only [bne_iff_ne]
    rintro rfl
    exact hk (List.mem_map_of_mem he)

/-- A map with one entry. -/
lemma lookup_singleton (e : κ × β) (k : κ) :
    [e].lookup k = if k = e.1 then some e.2 else none := by
  obtain ⟨k', v⟩ := e
  by_cases hk : k = k'
  · simp [hk]
  · rw [if_neg hk, lookup_eq_none]
    simpa using hk

lemma lookup_mapInsert (m : List (κ × β)) (e : κ × β) (k : κ) :
    (mapInsert m e).lookup k = (m.lookup k).or (if k = e.1 then some e.2 else none) := by
  unfold mapInsert
  split
  · rename_i hmem
    split
    · rename_i hk
      subst hk
      cases hlookup : m.lookup e.1 with
      | none => exact absurd hmem (lookup_eq_none.1 hlookup)
      | some v => rfl
    · rw [Option.or_none]
  · rw [List.lookup_append, lookup_singleton]

/-- The entries of a second map, inserted one by one. -/
def mergeMaps (old new : List (κ × β)) : List (κ × β) := new.foldl mapInsert old

lemma lookup_mergeMaps (old new : List (κ × β)) (k : κ) :
    (mergeMaps old new).lookup k = (old.lookup k).or (new.lookup k) := by
  unfold mergeMaps
  induction new generalizing old with
  | nil => simp
  | cons e new ih =>
      rw [List.foldl_cons, ih, lookup_mapInsert, Option.or_assoc, ← lookup_singleton,
        ← List.lookup_append, List.singleton_append]

/-- Merging a map that grew by one entry. -/
lemma mergeMaps_mapInsert (old new : List (κ × β)) (e : κ × β) :
    mergeMaps old (mapInsert new e) = mapInsert (mergeMaps old new) e := by
  unfold mapInsert
  by_cases hnew : e.1 ∈ new.map Prod.fst
  · have hmerged : e.1 ∈ (mergeMaps old new).map Prod.fst := by
      by_contra hnone
      rw [← lookup_eq_none, lookup_mergeMaps, Option.or_eq_none_iff, lookup_eq_none,
        lookup_eq_none] at hnone
      exact hnone.2 hnew
    rw [if_pos hnew, if_pos hmerged]
  · rw [if_neg hnew]
    unfold mergeMaps
    rw [List.foldl_append]
    rfl

/-- In a map the entries are what the lookup finds. -/
lemma lookup_eq_some_iff_mem {m : List (κ × β)} (hm : (m.map Prod.fst).Nodup) {k : κ} {v : β} :
    m.lookup k = some v ↔ (k, v) ∈ m := by
  rw [List.lookup_eq_some_iff]
  constructor
  · rintro ⟨l₁, l₂, rfl, -⟩
    exact List.mem_append_right l₁ List.mem_cons_self
  · intro hmem
    obtain ⟨l₁, l₂, rfl⟩ := List.append_of_mem hmem
    refine ⟨l₁, l₂, rfl, ?_⟩
    intro e he
    rw [List.map_append, List.map_cons, List.nodup_append] at hm
    simp only [bne_iff_ne]
    exact (hm.2.2 e.1 (List.mem_map_of_mem he) k List.mem_cons_self).symm

lemma nodup_mapInsert {m : List (κ × β)} (hm : (m.map Prod.fst).Nodup) (e : κ × β) :
    ((mapInsert m e).map Prod.fst).Nodup := by
  unfold mapInsert
  split
  · exact hm
  · rename_i hnew
    rw [List.map_append, List.map_singleton, ← List.concat_eq_append]
    exact hm.concat hnew

lemma nodup_mergeMaps {old : List (κ × β)} (hold : (old.map Prod.fst).Nodup)
    (new : List (κ × β)) : ((mergeMaps old new).map Prod.fst).Nodup := by
  unfold mergeMaps
  induction new generalizing old with
  | nil => exact hold
  | cons e new ih => exact ih (nodup_mapInsert hold e)

/-- Two maps have the same keys, with values that count as the same. -/
def SameMap (same : β → β → Prop) (m m' : List (κ × β)) : Prop :=
  ∀ k, Option.Rel same (m.lookup k) (m'.lookup k)

section SameMap

variable {same : β → β → Prop}

lemma sameMap_equivalence (hsame : Equivalence same) :
    Equivalence (SameMap same : List (κ × β) → List (κ × β) → Prop) := by
  constructor
  · intro m k
    cases m.lookup k with
    | none => exact Option.Rel.none
    | some v => exact Option.Rel.some (hsame.refl v)
  · intro m m' h k
    have hk := h k
    generalize m.lookup k = o at hk ⊢
    generalize m'.lookup k = o' at hk ⊢
    cases hk with
    | some hv => exact Option.Rel.some (hsame.symm hv)
    | none => exact Option.Rel.none
  · intro m m' m'' h h' k
    have hk := h k
    have hk' := h' k
    generalize m.lookup k = o at hk ⊢
    generalize m'.lookup k = o' at hk hk'
    generalize m''.lookup k = o'' at hk' ⊢
    cases hk with
    | some hv =>
        cases hk' with
        | some hv' => exact Option.Rel.some (hsame.trans hv hv')
    | none => exact hk'

/-- Nothing is merged into a map by one that holds the same. -/
lemma sameMap_mergeMaps (hsame : Equivalence same) {m m' : List (κ × β)} (h : SameMap same m m') :
    SameMap same (mergeMaps m m') m := by
  intro k
  have hk := h k
  rw [lookup_mergeMaps]
  cases hm : m.lookup k with
  | none =>
      rw [hm] at hk
      cases hk' : m'.lookup k with
      | none => exact Option.Rel.none
      | some v =>
          rw [hk'] at hk
          cases hk
  | some v => exact Option.Rel.some (hsame.refl v)

lemma sameMap_nil_merge (hsame : Equivalence same) (m : List (κ × β)) :
    SameMap same (mergeMaps [] m) m := by
  intro k
  rw [lookup_mergeMaps]
  exact (sameMap_equivalence hsame).refl m k

end SameMap

end Merging

/-! ### The parts of the grammar that do not look at the state -/

section Tokens

variable {g : Prop} {P : Semantics → Semantics → Prop}

lemma follows_ident : Follows g ident ident P P P Eq := by
  apply Follows.lexeme
  apply (Follows.charIf id isLower).seq
  intro c
  apply ((Follows.charIf id _).alt (Follows.charIf id _)).many.list.seq
  intro cs
  exact Follows.pure rfl

lemma follows_symbol : Follows g symbol symbol P P P Eq := (Follows.charIf skip isAlnum).many1.list

lemma follows_hostName : Follows g hostName hostName P P P Eq := by
  apply (Follows.lit skip _).seq
  intro _
  apply ((Follows.charIf id _).many.list.lexeme skip).seq
  intro name
  exact (Follows.lit skip _).seq (fun _ => Follows.pure rfl)

lemma follows_constants : Follows g constants constants P P P Eq := by
  apply (Follows.lit skip _).seq
  intro _
  apply (follows_ident.sepBy (Follows.lit skip _)).list.seq
  intro cs
  exact (Follows.lit skip _).seq (fun _ => Follows.pure rfl)

lemma follows_category : Follows g category category P P P Eq := by
  apply (Follows.lit skip _).seq
  intro _
  apply (follows_field _).seq
  intro _
  apply follows_symbol.seq
  intro name
  apply (Follows.lit skip _).seq
  intro _
  apply (follows_field _).seq
  intro _
  apply follows_constants.seq
  intro cs
  exact (Follows.lit skip _).seq (fun _ => Follows.pure rfl)

lemma follows_constantCategories :
    Follows g constantCategories constantCategories P P P Eq :=
  (Follows.lit skip _).seq (fun _ => (follows_category.closedList skip ']').list)

lemma follows_predicate : Follows g predicate predicate P P P Eq := by
  apply (Follows.lit skip _).seq
  intro _
  apply (follows_field _).seq
  intro _
  apply follows_symbol.seq
  intro name
  apply (Follows.lit skip _).seq
  intro _
  apply (follows_field _).seq
  intro _
  apply (Follows.uint skip).seq
  intro arity
  exact (Follows.lit skip _).seq (fun _ => Follows.pure rfl)

lemma follows_predicates : Follows g predicates predicates P P P Eq :=
  (Follows.lit skip _).seq (fun _ => (follows_predicate.closedList skip ']').list)

lemma follows_idWithGroundTuple : Follows g idWithGroundTuple idWithGroundTuple P P P Eq := by
  apply (Follows.uint skip).seq
  intro address
  apply (Follows.lit skip _).seq
  intro _
  apply (Follows.lit skip _).seq
  intro _
  apply (follows_ident.sepBy (Follows.lit skip _)).list.seq
  intro tuple
  exact (Follows.lit skip _).seq (fun _ => Follows.pure rfl)

end Tokens

/-! ### The parts with semantic actions -/

section Actions

variable {old : List (ℕ × ContextQueryPlan)}

/-- The second state holds what was there before and, merged into it, what the first holds. -/
def Merged (old : List (ℕ × ContextQueryPlan)) (s t : Semantics) : Prop :=
  t.parsedResult = mergeMaps old s.parsedResult

/-- The two runs are at the same query plan. -/
def AtSamePlan (old : List (ℕ × ContextQueryPlan)) (s t : Semantics) : Prop :=
  Merged old s t ∧ t.currentQueryPlan = s.currentQueryPlan

/-- An action that leaves the map alone and looks at the current query plan only. -/
lemma follows_of_current {α β : Type} {p : Parser Semantics α}
    {f : α → Semantics → Option (Semantics × β)}
    (run : α → Option ContextQueryPlan → Option (Option ContextQueryPlan × β))
    (hp : Follows False p p (AtSamePlan old) (AtSamePlan old) (AtSamePlan old) Eq)
    (hf : ∀ a s, f a s =
      (run a s.currentQueryPlan).map (fun res => (⟨s.parsedResult, res.1⟩, res.2))) :
    Follows False (action p f) (action p f) (AtSamePlan old) (AtSamePlan old) (AtSamePlan old)
      Eq := by
  apply hp.action
  rintro a _ s t s' c ⟨hmap, hcurrent⟩ rfl hact
  rw [hf, Option.map_eq_some_iff] at hact
  obtain ⟨res, hres, heq⟩ := hact
  cases heq
  refine Or.inr ⟨⟨t.parsedResult, res.1⟩, res.2, ?_, ⟨hmap, rfl⟩, rfl⟩
  rw [hf, hcurrent, hres]
  rfl

lemma follows_onCurrent {α : Type} {p : Parser Semantics α}
    {change : α → ContextQueryPlan → Option ContextQueryPlan}
    (hp : Follows False p p (AtSamePlan old) (AtSamePlan old) (AtSamePlan old) Eq) :
    Follows False (action p (onCurrent change)) (action p (onCurrent change)) (AtSamePlan old)
      (AtSamePlan old) (AtSamePlan old) Eq := by
  apply follows_of_current
    (fun a current => (current.bind (change a)).map (fun qp => (some qp, ()))) hp
  intro a s
  unfold onCurrent
  cases s.currentQueryPlan with
  | none => rfl
  | some qp =>
      show (change a qp).bind _ = ((change a qp).map _).map _
      cases change a qp with
      | none => rfl
      | some qp' => rfl

lemma follows_constantsForArguments :
    Follows False constantsForArguments constantsForArguments (AtSamePlan old) (AtSamePlan old)
      (AtSamePlan old) Eq := by
  apply follows_of_current (fun source current =>
    (checkConstantCategory source ⟨[], current⟩).map (fun res => (current, res.2)))
      follows_constants
  rintro source ⟨parsed, current⟩
  unfold checkConstantCategory
  split
  · rfl
  · cases current with
    | none => rfl
    | some qp =>
        show (qp.constCats.bind _) = ((qp.constCats.bind _).map _).map _
        cases qp.constCats with
        | none => rfl
        | some cats =>
            cases source with
            | nil => rfl
            | cons name rest => rfl

lemma follows_argument :
    Follows False argument argument (AtSamePlan old) (AtSamePlan old) (AtSamePlan old) Eq := by
  apply (Follows.lit skip _).seq
  intro _
  apply (follows_field _).seq
  intro _
  apply (Follows.uint skip).seq
  intro pos
  apply (Follows.lit skip _).seq
  intro _
  apply (follows_field _).seq
  intro _
  apply follows_constantsForArguments.seq
  intro cs
  exact (Follows.lit skip _).seq (fun _ => Follows.pure rfl)

lemma follows_arguments :
    Follows False arguments arguments (AtSamePlan old) (AtSamePlan old) (AtSamePlan old) Eq :=
  (Follows.lit skip _).seq (fun _ => (follows_argument.closedList skip ']').list)

lemma follows_filter :
    Follows False filter filter (AtSamePlan old) (AtSamePlan old) (AtSamePlan old) Eq := by
  apply (Follows.lit skip _).seq
  intro _
  apply (follows_field _).seq
  intro _
  apply follows_symbol.seq
  intro name
  apply (Follows.lit skip _).seq
  intro _
  apply (follows_field _).seq
  intro _
  apply follows_symbol.seq
  intro pred
  apply (Follows.lit skip _).seq
  intro _
  apply (follows_field _).seq
  intro _
  apply follows_arguments.seq
  intro args
  exact (Follows.lit skip _).seq (fun _ => Follows.pure rfl)

lemma follows_filters :
    Follows False filters filters (AtSamePlan old) (AtSamePlan old) (AtSamePlan old) Eq :=
  (Follows.lit skip _).seq (fun _ => (follows_filter.closedList skip ']').list)

lemma follows_signature :
    Follows False signature signature (AtSamePlan old) (AtSamePlan old) (AtSamePlan old) Eq := by
  apply (Follows.lit skip _).seq
  intro _
  have haction : Follows False
      (action (sepBy idWithGroundTuple (lit skip [','])) registerAndInsertIntoBeliefSet)
      (action (sepBy idWithGroundTuple (lit skip [','])) registerAndInsertIntoBeliefSet)
      (AtSamePlan old) (AtSamePlan old) (AtSamePlan old) Eq := by
    apply follows_of_current (fun source current =>
      (registerAndInsertIntoBeliefSet source ⟨[], current⟩).map (fun res => (current, res.2)))
        (follows_idWithGroundTuple.sepBy (Follows.lit skip _)).list
    intro source s
    have hstored : ∀ table : Option BeliefTable, (table.bind (fun t => some (s, t))) =
        ((table.bind (fun t => some ((⟨[], s.currentQueryPlan⟩ : Semantics), t))).map
          (fun res => (s.currentQueryPlan, res.2))).map
            (fun res => (⟨s.parsedResult, res.1⟩, res.2)) := by
      intro table
      cases table with
      | none => rfl
      | some table => rfl
    exact hstored _
  apply haction.seq
  intro table
  apply ((Follows.lit skip _).opt).option.seq
  intro _
  exact (Follows.lit skip _).seq (fun _ => Follows.pure rfl)

lemma follows_optionalField {α : Type} {value : Parser Semantics α} (name : Text)
    {change : α → ContextQueryPlan → Option ContextQueryPlan}
    (hvalue : Follows False value value (AtSamePlan old) (AtSamePlan old) (AtSamePlan old) Eq) :
    Follows False (optionalField name value (onCurrent change))
      (optionalField name value (onCurrent change)) (AtSamePlan old) (AtSamePlan old)
      (AtSamePlan old) Eq := by
  apply Follows.option
  apply Follows.opt
  apply (follows_field _).seq
  intro _
  apply (follows_onCurrent hvalue).seq
  intro _
  exact Follows.lit skip _

/-- Whatever plan the parsers were at, reading the id of a context brings them to the same. -/
lemma follows_contextID :
    Follows False (action (int skip) setContextID) (action (int skip) setContextID) (Merged old)
      (AtSamePlan old) (Merged old) Eq := by
  apply (Follows.int skip).action
  rintro source _ s t s' c hmap rfl hact
  cases hact
  exact Or.inr ⟨_, (), rfl, ⟨hmap, rfl⟩, rfl⟩

lemma follows_contextQueryPlan :
    Follows False contextQueryPlan contextQueryPlan (Merged old) (Merged old) (Merged old) Eq := by
  refine Follows.action (R := AtSamePlan old) (F := Merged old) (Q := Eq) ?_ ?_
  · apply (Follows.lit skip _).seq
    intro _
    apply (follows_field _).seq
    intro _
    apply follows_contextID.seq
    intro _
    refine Follows.weaken (F := AtSamePlan old) ?_ (fun _ _ h => h.1)
    apply (Follows.lit skip _).seq
    intro _
    apply (follows_field _).seq
    intro _
    apply (follows_onCurrent follows_hostName).seq
    intro _
    apply (Follows.lit skip _).seq
    intro _
    apply (follows_field _).seq
    intro _
    apply (follows_onCurrent (Follows.int skip)).seq
    intro _
    apply (Follows.lit skip _).seq
    intro _
    apply (follows_field _).seq
    intro _
    apply (follows_onCurrent follows_constants).seq
    intro _
    apply (Follows.lit skip _).seq
    intro _
    apply (follows_optionalField _ follows_constantCategories).seq
    intro _
    apply (follows_optionalField _ follows_predicates).seq
    intro _
    apply (follows_optionalField _ follows_filters).seq
    intro _
    apply (follows_optionalField _ follows_signature).seq
    intro _
    apply (follows_optionalField _ follows_signature).seq
    intro _
    exact Follows.lit skip _
  · rintro _ _ s t s' c ⟨hmap, hcurrent⟩ - hact
    unfold insertIntoMap at hact ⊢
    rw [hcurrent]
    cases hqp : s.currentQueryPlan with
    | none =>
        rw [hqp] at hact
        cases hact
    | some qp =>
        rw [hqp] at hact
        cases hact
        refine Or.inr ⟨_, (), rfl, ?_, rfl⟩
        show mapInsert t.parsedResult _ = mergeMaps old (mapInsert s.parsedResult _)
        rw [mergeMaps_mapInsert, hmap]

lemma follows_start :
    Follows False start start (Merged old) (Merged old) (Merged old) Eq := by
  apply (Follows.lit skip _).seq
  intro _
  apply (follows_contextQueryPlan.closedList skip ']').bind
  intro _ _ _
  exact Follows.pure rfl

end Actions

/-- A `QueryPlanParser_t` merges the plans it reads. -/
lemma accumulates {same : ContextQueryPlan → ContextQueryPlan → Prop} (hsame : Equivalence same) :
    parser.Accumulates (SameMap same) mergeMaps where
  equiv := sameMap_equivalence hsame
  fresh := sameMap_nil_merge hsame
  absorbs _ _ := sameMap_mergeMaps hsame
  call_eq str v hv t := by
    obtain ⟨s', hs', rfl⟩ := Reusable.alone_eq_ok.1 hv
    have hinit : Merged t.parsedResult Semantics.init t := rfl
    rcases phraseParse_follows follows_start hinit hs' with ⟨hfalse, -⟩ | ⟨t', ht', hmerged⟩
    · exact hfalse.elim
    · exact ⟨t', ht', hmerged⟩

/-- The map a new parser returns has every key once. -/
lemma nodup_of_call {str : Text} {s : Semantics} (h : parser.call str parser.init = .ok s) :
    (s.parsedResult.map Prod.fst).Nodup := by
  have hinit : Merged [] Semantics.init Semantics.init := rfl
  rcases phraseParse_follows follows_start hinit h with ⟨hfalse, -⟩ | ⟨t, ht, hmerged⟩
  · exact hfalse.elim
  · have heq : parser.call str parser.init = .ok t := ht
    rw [h] at heq
    cases heq
    rw [hmerged]
    apply nodup_mergeMaps
    exact List.nodup_nil

end QueryPlanGrammar

/-! ## Return plans -/

namespace ReturnPlanGrammar

open QueryPlanGrammar (mergeMaps mapInsert SameMap)

variable {bso : BeliefStateOffset}

/-- A `ReturnPlanParser_t`. -/
def parser (bso : BeliefStateOffset) :
    Reusable Text (Semantics bso) (List (ℕ × NewBeliefState bso.width)) ParseError where
  init := Semantics.init bso
  call str := phraseParse skip start str
  result := Semantics.parsedResult

section Actions

variable {old : List (ℕ × NewBeliefState bso.width)}

/-- The second state holds what was there before and, merged into it, what the first holds. -/
def Merged (old : List (ℕ × NewBeliefState bso.width)) (s t : Semantics bso) : Prop :=
  t.parsedResult = mergeMaps old s.parsedResult

/-- The two runs are at the same entry. -/
def AtSameEntry (old : List (ℕ × NewBeliefState bso.width)) (s t : Semantics bso) : Prop :=
  Merged old s t ∧ t.currentParentID = s.currentParentID ∧
    t.currentBeliefState = s.currentBeliefState

lemma follows_returnBeliefs {g : Prop} {P : Semantics bso → Semantics bso → Prop} :
    Follows g returnBeliefs returnBeliefs P P P Eq := by
  apply (Follows.lit skip _).seq
  intro _
  apply (follows_field _).seq
  intro _
  apply (Follows.uint skip).seq
  intro ctx_id
  apply (Follows.lit skip _).seq
  intro _
  apply (follows_field _).seq
  intro _
  apply (Follows.lit skip _).seq
  intro _
  apply ((Follows.uint skip).sepBy (Follows.lit skip _)).list.seq
  intro local_ids
  apply (Follows.lit skip _).seq
  intro _
  exact (Follows.lit skip _).seq (fun _ => Follows.pure rfl)

lemma follows_activateBits :
    Follows False (action returnBeliefs activateBits) (action returnBeliefs activateBits)
      (AtSameEntry old) (AtSameEntry old) (AtSameEntry old) Eq := by
  apply follows_returnBeliefs.action
  rintro source _ s t s' c ⟨hmap, hparent, hstate⟩ rfl hact
  unfold activateBits at hact ⊢
  rw [hstate]
  obtain ⟨current, hcurrent, heq⟩ := Option.bind_eq_some_iff.1 hact
  cases heq
  refine Or.inr ⟨⟨t.parsedResult, t.currentParentID, current⟩, (), ?_, ⟨hmap, hparent, rfl⟩, rfl⟩
  exact Option.bind_eq_some_iff.2 ⟨current, hcurrent, rfl⟩

lemma follows_returnSignature :
    Follows False returnSignature returnSignature (AtSameEntry old) (AtSameEntry old)
      (AtSameEntry old) Eq := by
  apply (Follows.lit skip _).seq
  intro _
  apply (follows_activateBits.closedList skip ']').bind
  intro _ _ _
  exact Follows.pure rfl

/-- Reading the id of a parent brings the parsers to the same entry. -/
lemma follows_parentID :
    Follows False (action (uint skip) getCurrentParentID) (action (uint skip) getCurrentParentID)
      (Merged old) (AtSameEntry old) (Merged old) Eq := by
  apply (Follows.uint skip).action
  rintro source _ s t s' c hmap rfl hact
  cases hact
  exact Or.inr ⟨_, (), rfl, ⟨hmap, rfl, rfl⟩, rfl⟩

lemma follows_returnPlan :
    Follows False returnPlan returnPlan (Merged old) (AtSameEntry old) (Merged old) Eq := by
  apply (Follows.lit skip _).seq
  intro _
  apply (follows_field _).seq
  intro _
  apply follows_parentID.seq
  intro _
  refine Follows.weaken (F := AtSameEntry old) ?_ (fun _ _ h => h.1)
  apply (Follows.lit skip _).seq
  intro _
  apply (follows_field _).seq
  intro _
  apply follows_returnSignature.seq
  intro _
  exact Follows.lit skip _

lemma follows_start :
    Follows False start start (Merged old) (Merged old) (Merged old) Eq := by
  have hentry : Follows False (action returnPlan insertIntoMap) (action returnPlan insertIntoMap)
      (Merged old) (Merged old) (Merged old) Eq := by
    apply follows_returnPlan.action
    rintro _ _ s t s' c ⟨hmap, hparent, hstate⟩ - hact
    cases hact
    refine Or.inr ⟨_, (), rfl, ?_, rfl⟩
    show mapInsert t.parsedResult (t.currentParentID, t.currentBeliefState) =
      mergeMaps old (mapInsert s.parsedResult (s.currentParentID, s.currentBeliefState))
    rw [QueryPlanGrammar.mergeMaps_mapInsert, hmap, hparent, hstate]
  apply (Follows.lit skip _).seq
  intro _
  apply (hentry.closedList skip ']').bind
  intro _ _ _
  exact Follows.pure rfl

end Actions

/-- A `ReturnPlanParser_t` merges the plans it reads. -/
lemma accumulates : (parser bso).Accumulates (SameMap Eq) mergeMaps where
  equiv := QueryPlanGrammar.sameMap_equivalence eq_equivalence
  fresh := QueryPlanGrammar.sameMap_nil_merge eq_equivalence
  absorbs _ _ := QueryPlanGrammar.sameMap_mergeMaps eq_equivalence
  call_eq str v hv t := by
    obtain ⟨s', hs', rfl⟩ := Reusable.alone_eq_ok.1 hv
    have hinit : Merged t.parsedResult (Semantics.init bso) t := rfl
    rcases phraseParse_follows follows_start hinit hs' with ⟨hfalse, -⟩ | ⟨t', ht', hmerged⟩
    · exact hfalse.elim
    · exact ⟨t', ht', hmerged⟩

end ReturnPlanGrammar

end Dmcs
