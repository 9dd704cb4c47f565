import Dmcs.Lib.QiInvariants
import Dmcs.Parser.DLVResultGrammar
import Dmcs.Parser.QueryPlanGrammar

/-!
# What an accepted query plan holds

A belief enters a query plan through the signature of a context: its text is an atom over
identifiers, and its kind is the one of the context that is being read.  The table is built while
the plan of the context is under construction and becomes a part of it two tokens later, so the
invariant has to fix the context in between (`AtContext`).

`entered_of_parseStream` collects what follows for every query plan the parser returns.
-/

namespace Dmcs

namespace QueryPlanGrammar

open Qi BaseParser
open DLVResultGrammar (IsPlain isIdentChar)

/-! ## Entered beliefs -/

/-- A belief as `registerAndInsertIntoBeliefSet` builds it for a context. -/
def Entered (ctx : ℕ) (b : Belief) : Prop :=
  ∃ address p as, (∀ x ∈ p :: as, IsPlain x) ∧ b = Belief.ofContext ctx address (atomText (p :: as))

def EnteredTable (ctx : ℕ) (table : BeliefTable) : Prop := ∀ b ∈ table.beliefs, Entered ctx b

structure EnteredPlan (qp : ContextQueryPlan) : Prop where
  localSignature : ∀ t ∈ qp.localSignature, EnteredTable qp.ctx t
  groundInputSignature : ∀ t ∈ qp.groundInputSignature, EnteredTable qp.ctx t

/-- A map of query plans: every plan is stored under its context, and no context has two. -/
structure EnteredMap (plan : List (ℕ × ContextQueryPlan)) : Prop where
  entered : ∀ e ∈ plan, EnteredPlan e.2
  key : ∀ e ∈ plan, e.1 = e.2.ctx
  nodup : (plan.map Prod.fst).Nodup

structure EnteredState (mgr : Semantics) : Prop where
  parsed : EnteredMap mgr.parsedResult
  current : ∀ qp ∈ mgr.currentQueryPlan, EnteredPlan qp

/-- The plan of the context `ctx` is being read. -/
structure AtContext (ctx : ℕ) (mgr : Semantics) : Prop where
  entered : EnteredState mgr
  current : ∃ qp, mgr.currentQueryPlan = some qp ∧ qp.ctx = ctx

/-! ## Rules that do not look at the state -/

section Tokens

variable {I : Semantics → Prop}

lemma ensures_ident : Ensures I ident IsPlain := by
  refine Ensures.lexeme ((Ensures.charIf id isLower).bind (fun c hc => ?_)) skip
  have hchar : Ensures I (alt (charIf id isAlnum) (charIf id (fun c => c = '_')))
      (fun c => isIdentChar c = true) := by
    apply Ensures.alt
    · refine (Ensures.charIf id isAlnum).imp (fun c hc => ?_)
      simp [isIdentChar, hc]
    · refine (Ensures.charIf id (fun c => c = '_')).imp (fun c hc => ?_)
      simp [isIdentChar, of_decide_eq_true hc]
  exact hchar.many.bind (fun cs hcs => Ensures.pure ⟨c, cs, rfl, hc, hcs⟩)

lemma ensures_name (name : Text) : Ensures I (field name) (fun _ => True) :=
  (Ensures.lit skip _).seq (fun _ => Ensures.lit skip _)

lemma ensures_symbol : Ensures I symbol (fun _ => True) :=
  (Ensures.charIf skip isAlnum).many1.imp (fun _ _ => trivial)

lemma ensures_hostName : Ensures I hostName (fun _ => True) := by
  refine (Ensures.lit skip _).seq (fun _ => ?_)
  refine (Ensures.lexeme (Ensures.charIf id _).many skip).seq (fun name => ?_)
  exact (Ensures.lit skip _).seq (fun _ => Ensures.pure trivial)

lemma ensures_constants : Ensures I constants (fun _ => True) := by
  refine (Ensures.lit skip _).seq (fun _ => ?_)
  refine (ensures_ident.sepBy (Ensures.lit skip _)).seq (fun cs => ?_)
  exact (Ensures.lit skip _).seq (fun _ => Ensures.pure trivial)

/-- A list of items between brackets. -/
lemma ensures_items {α : Type} {p : Parser Semantics α} (hp : Ensures I p (fun _ => True)) :
    Ensures I (do
      let _ ← lit skip ['[']
      closedList skip p ']') (fun _ => True) :=
  (Ensures.lit skip _).seq (fun _ => (hp.closedList skip ']').imp (fun _ _ => trivial))

/-- An item of two fields between braces. -/
lemma ensures_pair {α β : Type} {p : Parser Semantics α} {q : Parser Semantics β}
    (hp : Ensures I p (fun _ => True)) (hq : Ensures I q (fun _ => True)) (name name' : Text) :
    Ensures I (do
      let _ ← lit skip ['{']
      let _ ← field name
      let a ← p
      let _ ← lit skip [',']
      let _ ← field name'
      let b ← q
      let _ ← lit skip ['}']
      pure (a, b)) (fun _ => True) := by
  refine (Ensures.lit skip _).seq (fun _ => (ensures_name name).seq (fun _ => ?_))
  refine hp.seq (fun a => (Ensures.lit skip _).seq (fun _ => ?_))
  refine (ensures_name name').seq (fun _ => hq.seq (fun b => ?_))
  exact (Ensures.lit skip _).seq (fun _ => Ensures.pure trivial)

/-- The action looks a category up and leaves the state as it is. -/
lemma ensures_constantsForArguments : Ensures I constantsForArguments (fun _ => True) := by
  refine ensures_constants.action (fun source s s' cs hs _ h => ?_)
  unfold checkConstantCategory at h
  split at h
  · rw [← (Prod.mk.inj (Option.some.inj h)).1]
    exact ⟨hs, trivial⟩
  · obtain ⟨qp, -, h⟩ := Option.bind_eq_some_iff.1 h
    obtain ⟨cats, -, h⟩ := Option.bind_eq_some_iff.1 h
    obtain ⟨name, -, h⟩ := Option.bind_eq_some_iff.1 h
    rw [← (Prod.mk.inj (Option.some.inj h)).1]
    exact ⟨hs, trivial⟩

lemma ensures_filter : Ensures I QueryPlanGrammar.filter (fun _ => True) := by
  have harguments : Ensures I arguments (fun _ => True) :=
    ensures_items (ensures_pair (Ensures.uint skip) ensures_constantsForArguments _ _)
  refine (Ensures.lit skip _).seq (fun _ => (ensures_name _).seq (fun _ => ?_))
  refine ensures_symbol.seq (fun name => (Ensures.lit skip _).seq (fun _ => ?_))
  refine (ensures_name _).seq (fun _ => ensures_symbol.seq (fun pred => ?_))
  refine (Ensures.lit skip _).seq (fun _ => (ensures_name _).seq (fun _ => ?_))
  refine harguments.seq (fun args => ?_)
  exact (Ensures.lit skip _).seq (fun _ => Ensures.pure trivial)

lemma ensures_optionalField {α : Type} {p : Parser Semantics α}
    {set : α → Semantics → Option (Semantics × Unit)} (name : Text)
    (h : Ensures I (action p set) (fun _ => True)) :
    Ensures I (optionalField name p set) (fun _ => True) := by
  have hfield : Ensures I (do
      let _ ← field name
      let _ ← action p set
      lit skip [',']) (fun _ => True) :=
    (ensures_name name).seq (fun _ => h.seq (fun _ => Ensures.lit skip _))
  exact hfield.opt.imp (fun _ _ => trivial)

end Tokens

/-! ## The actions on the plan of a context -/

section Actions

variable {ctx : ℕ}

/-- Storing the beliefs of a signature one by one. -/
lemma enteredTable_of_store {mgr : Semantics} {qp : ContextQueryPlan}
    (hqp : mgr.currentQueryPlan = some qp) {source : List (ℕ × List Text)}
    (hsource : ∀ x ∈ source, x.2 ≠ [] ∧ ∀ t ∈ x.2, IsPlain t) {target table : BeliefTable}
    (htarget : EnteredTable qp.ctx target)
    (h : source.foldlM (fun target input => do
      let currentQP ← mgr.currentQueryPlan
      let bel := Belief.ofContext currentQP.ctx input.1 (atomText input.2)
      target.storeWithID bel bel.id) target = some table) : EnteredTable qp.ctx table := by
  induction source generalizing target with
  | nil =>
      rw [← Option.some.inj h]
      exact htarget
  | cons x source ih =>
      rw [List.foldlM_cons] at h
      obtain ⟨next, hnext, h⟩ := Option.bind_eq_some_iff.1 h
      apply ih (fun y hy => hsource y (List.mem_cons_of_mem x hy)) _ h
      rw [hqp] at hnext
      unfold BeliefTable.storeWithID at hnext
      split at hnext
      · intro b hb
        rw [(BeliefTable.insert_beliefs hnext).1] at hb
        rcases List.mem_append.1 hb with hb | hb
        · exact htarget b hb
        · obtain ⟨hne, hplain⟩ := hsource x List.mem_cons_self
          obtain ⟨p, as, hcons⟩ := List.exists_cons_of_ne_nil hne
          rw [List.mem_singleton.1 hb]
          refine ⟨x.1, p, as, ?_, ?_⟩
          · rw [← hcons]
            exact hplain
          · rw [← hcons]
            rfl
      · exact absurd hnext.symm (Option.some_ne_none next)

lemma ensures_signature : Ensures (AtContext ctx) signature (EnteredTable ctx) := by
  have htuple : Ensures (AtContext ctx) idWithGroundTuple
      (fun x => x.2 ≠ [] ∧ ∀ t ∈ x.2, IsPlain t) := by
    refine (Ensures.uint skip).seq (fun address => ?_)
    refine (Ensures.lit skip _).seq (fun _ => (Ensures.lit skip _).seq (fun _ => ?_))
    refine (ensures_ident.sepBy (Ensures.lit skip _)).bind (fun tuple htuple => ?_)
    exact (Ensures.lit skip _).seq (fun _ => Ensures.pure htuple)
  have htable : Ensures (AtContext ctx)
      (action (sepBy idWithGroundTuple (lit skip [','])) registerAndInsertIntoBeliefSet)
      (EnteredTable ctx) := by
    refine (htuple.sepBy (Ensures.lit skip _)).action (fun source s s' table hs hsource h => ?_)
    obtain ⟨t, ht, h⟩ := Option.bind_eq_some_iff.1 h
    obtain ⟨rfl, rfl⟩ := Prod.mk.inj (Option.some.inj h)
    obtain ⟨qp, hqp, rfl⟩ := hs.current
    exact ⟨hs, enteredTable_of_store hqp hsource.2 (fun b hb => absurd hb List.not_mem_nil) ht⟩
  refine (Ensures.lit skip _).seq (fun _ => htable.bind (fun table hentered => ?_))
  refine (Ensures.lit skip _).opt.seq (fun _ => ?_)
  exact (Ensures.lit skip _).seq (fun _ => Ensures.pure hentered)

/-- An action that changes the current plan but not its context. -/
lemma ensures_onCurrent {α : Type} {p : Parser Semantics α} {Q : α → Prop}
    (change : α → ContextQueryPlan → ContextQueryPlan) (hp : Ensures (AtContext ctx) p Q)
    (hctx : ∀ a qp, (change a qp).ctx = qp.ctx)
    (hchange : ∀ a qp, Q a → qp.ctx = ctx → EnteredPlan qp → EnteredPlan (change a qp)) :
    Ensures (AtContext ctx) (action p (onCurrent (fun a qp => some (change a qp))))
      (fun _ => True) := by
  refine hp.action (fun a s s' _ hs ha h => ?_)
  obtain ⟨qp, hqp, hqpctx⟩ := hs.current
  obtain ⟨qp', hqp', h⟩ := Option.bind_eq_some_iff.1 h
  obtain ⟨qp'', hqp'', h⟩ := Option.bind_eq_some_iff.1 h
  obtain rfl := Option.some.inj (hqp.symm.trans hqp')
  obtain rfl := Option.some.inj hqp''
  rw [← (Prod.mk.inj (Option.some.inj h)).1]
  refine ⟨⟨⟨hs.entered.parsed, fun q hq => ?_⟩, ⟨change a qp, rfl, ?_⟩⟩, trivial⟩
  · rw [← Option.mem_some_iff.1 hq]
    exact hchange a qp ha hqpctx (hs.entered.current qp hqp)
  · rw [hctx, hqpctx]

/-- A field that is no signature. -/
lemma ensures_field {α : Type} {p : Parser Semantics α}
    {change : α → ContextQueryPlan → ContextQueryPlan}
    (hp : Ensures (AtContext ctx) p (fun _ => True))
    (hsame : ∀ a qp, (change a qp).ctx = qp.ctx ∧
      (change a qp).localSignature = qp.localSignature ∧
      (change a qp).groundInputSignature = qp.groundInputSignature) :
    Ensures (AtContext ctx) (action p (onCurrent (fun a qp => some (change a qp))))
      (fun _ => True) := by
  apply ensures_onCurrent change hp (fun a qp => (hsame a qp).1)
  intro a qp _ _ hqp
  obtain ⟨hctx, hlocal, hinput⟩ := hsame a qp
  constructor
  · rw [hctx, hlocal]
    exact hqp.localSignature
  · rw [hctx, hinput]
    exact hqp.groundInputSignature

lemma ensures_localSignature :
    Ensures (AtContext ctx) (action signature setLocalSignature) (fun _ => True) := by
  apply ensures_onCurrent (fun source qp => { qp with localSignature := some source })
    ensures_signature (fun _ _ => rfl)
  rintro table qp htable rfl hqp
  refine ⟨fun t ht => ?_, hqp.groundInputSignature⟩
  rw [← Option.mem_some_iff.1 ht]
  exact htable

lemma ensures_inputSignature :
    Ensures (AtContext ctx) (action signature setInputSignature) (fun _ => True) := by
  apply ensures_onCurrent (fun source qp => { qp with groundInputSignature := some source })
    ensures_signature (fun _ _ => rfl)
  rintro table qp htable rfl hqp
  refine ⟨hqp.localSignature, fun t ht => ?_⟩
  rw [← Option.mem_some_iff.1 ht]
  exact htable

/-- All fields after the context. -/
lemma ensures_fields : Ensures (AtContext ctx) (do
    let _ ← lit skip [',']
    let _ ← field "HostName".toList
    let _ ← action hostName setHostName
    let _ ← lit skip [',']
    let _ ← field "Port".toList
    let _ ← action (int skip) setPort
    let _ ← lit skip [',']
    let _ ← field "Constants".toList
    let _ ← action constants setConstantList
    let _ ← lit skip [',']
    let _ ← optionalField "ConstantCategories".toList constantCategories setConstantCategories
    let _ ← optionalField "Predicates".toList predicates setPredicates
    let _ ← optionalField "Filters".toList filters setFilters
    let _ ← optionalField "LocalSignature".toList signature setLocalSignature
    let _ ← optionalField "InputSignature".toList signature setInputSignature
    lit skip ['}']) (fun _ => True) := by
  have hhost : Ensures (AtContext ctx) (action hostName setHostName) (fun _ => True) :=
    ensures_field ensures_hostName (fun _ _ => ⟨rfl, rfl, rfl⟩)
  have hport : Ensures (AtContext ctx) (action (int skip) setPort) (fun _ => True) :=
    ensures_field (Ensures.int skip) (fun _ _ => ⟨rfl, rfl, rfl⟩)
  have hconstants : Ensures (AtContext ctx) (action constants setConstantList) (fun _ => True) :=
    ensures_field ensures_constants (fun _ _ => ⟨rfl, rfl, rfl⟩)
  have hcategories : Ensures (AtContext ctx) (action constantCategories setConstantCategories)
      (fun _ => True) :=
    ensures_field (ensures_items (ensures_pair ensures_symbol ensures_constants _ _))
      (fun _ _ => ⟨rfl, rfl, rfl⟩)
  have hpredicates : Ensures (AtContext ctx) (action predicates setPredicates) (fun _ => True) :=
    ensures_field (ensures_items (ensures_pair ensures_symbol (Ensures.uint skip) _ _))
      (fun _ _ => ⟨rfl, rfl, rfl⟩)
  have hfilters : Ensures (AtContext ctx) (action filters setFilters) (fun _ => True) :=
    ensures_field (ensures_items ensures_filter) (fun _ _ => ⟨rfl, rfl, rfl⟩)
  have hcomma : Ensures (AtContext ctx) (lit skip [',']) (fun _ => True) := Ensures.lit skip _
  refine hcomma.seq (fun _ => (ensures_name _).seq (fun _ => hhost.seq (fun _ => ?_)))
  refine hcomma.seq (fun _ => (ensures_name _).seq (fun _ => hport.seq (fun _ => ?_)))
  refine hcomma.seq (fun _ => (ensures_name _).seq (fun _ => hconstants.seq (fun _ => ?_)))
  refine hcomma.seq (fun _ => (ensures_optionalField _ hcategories).seq (fun _ => ?_))
  refine (ensures_optionalField _ hpredicates).seq (fun _ => ?_)
  refine (ensures_optionalField _ hfilters).seq (fun _ => ?_)
  refine (ensures_optionalField _ ensures_localSignature).seq (fun _ => ?_)
  exact (ensures_optionalField _ ensures_inputSignature).seq (fun _ => Ensures.lit skip _)

end Actions

/-! ## Whole plans -/

lemma setContextID_entered {n : ℤ} {s s' : Semantics} {b : Unit} (hs : EnteredState s)
    (h : setContextID n s = some (s', b)) : AtContext (toSizeT n) s' := by
  rw [← (Prod.mk.inj (Option.some.inj h)).1]
  refine ⟨⟨hs.parsed, fun qp hqp => ?_⟩, ⟨_, rfl, rfl⟩⟩
  rw [← Option.mem_some_iff.1 hqp]
  constructor
  · exact fun t ht => absurd ht (Option.not_mem_none t)
  · exact fun t ht => absurd ht (Option.not_mem_none t)

lemma EnteredMap.mapInsert {plan : List (ℕ × ContextQueryPlan)} (h : EnteredMap plan)
    {qp : ContextQueryPlan} (hqp : EnteredPlan qp) :
    EnteredMap (mapInsert plan (qp.ctx, qp)) := by
  unfold QueryPlanGrammar.mapInsert
  split
  · exact h
  · rename_i hnew
    refine ⟨fun e he => ?_, fun e he => ?_, ?_⟩
    · rcases List.mem_append.1 he with he | he
      · exact h.entered e he
      · rw [List.mem_singleton.1 he]
        exact hqp
    · rcases List.mem_append.1 he with he | he
      · exact h.key e he
      · rw [List.mem_singleton.1 he]
    · rw [List.map_append, List.map_singleton, ← List.concat_eq_append]
      exact h.nodup.concat hnew

lemma ensures_contextQueryPlan : Ensures EnteredState contextQueryPlan (fun _ => True) := by
  have hid : Ensures EnteredState (action (int skip) setContextID) (fun _ => True) :=
    (Ensures.int skip).action (fun n s s' _ hs _ h =>
      ⟨(setContextID_entered hs h).entered, trivial⟩)
  have hat : ∀ inp s a rest s', EnteredState s →
      action (int skip) setContextID inp s = .success a rest s' → ∃ ctx, AtContext ctx s' := by
    intro inp s a rest s' hs h
    have hint := Ensures.int skip inp s hs
    unfold action at h
    cases hrun : int skip inp s with
    | success n rest' u =>
        rw [hrun] at h hint
        obtain ⟨hu, hrest, rfl⟩ := Outcome.success.inj h
        exact ⟨toSizeT n, setContextID_entered hint.1 rfl⟩
    | failure rest' u =>
        rw [hrun] at h
        cases h
    | abort =>
        rw [hrun] at h
        cases h
  refine Ensures.action (Q := fun _ => True) ?_ (fun _ s s' _ hs _ h => ?_)
  · refine (Ensures.lit skip _).seq (fun _ => (ensures_name _).seq (fun _ => ?_))
    exact hid.bind_exists hat (fun _ _ h => h.entered) (fun _ _ => ensures_fields)
  · obtain ⟨qp, hqp, h⟩ := Option.bind_eq_some_iff.1 h
    rw [← (Prod.mk.inj (Option.some.inj h)).1]
    have hentered : EnteredPlan qp := hs.current qp hqp
    refine ⟨⟨hs.parsed.mapInsert hentered, fun q hq => ?_⟩, trivial⟩
    rw [← Option.mem_some_iff.1 hq]
    exact hentered

/-- Every belief of an accepted query plan was entered for the context of its signature. -/
lemma entered_of_parseStream {text : Text} {plan : List (ℕ × ContextQueryPlan)}
    (h : parseStream text = .ok plan) : EnteredMap plan := by
  have hstart : Ensures EnteredState start (fun _ => True) := by
    refine (Ensures.lit skip _).seq (fun _ => ?_)
    exact (ensures_contextQueryPlan.closedList skip ']').seq (fun _ => Ensures.pure trivial)
  have hinit : EnteredState Semantics.init := by
    refine ⟨⟨?_, ?_, List.nodup_nil⟩, fun qp hqp => absurd hqp (Option.not_mem_none qp)⟩
    · exact fun e he => absurd he List.not_mem_nil
    · exact fun e he => absurd he List.not_mem_nil
  unfold parseStream parseString at h
  cases hparse : phraseParse skip start (text ++ ['\n']) Semantics.init with
  | error e =>
      rw [hparse] at h
      cases h
  | ok mgr =>
      rw [hparse] at h
      rw [← Except.ok.inj h]
      exact (phraseParse_ensures hstart hinit hparse).parsed

end QueryPlanGrammar

end Dmcs
