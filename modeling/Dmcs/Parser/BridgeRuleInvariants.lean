import Dmcs.Lib.QiInvariants
import Dmcs.Parser.BridgeRuleReuse

/-!
# What an accepted file of bridge rules holds

Every id in a parsed rule was looked up by a semantic action: the head in the local signature of
the context, the beliefs of the body by `getBridgeAtom`, with the mark of the literal put on them.
-/

namespace Dmcs

namespace BridgeRuleGrammar

open Qi BaseParser
open QueryPlanGrammar (ContextQueryPlan)

variable {plan : List (ℕ × ContextQueryPlan)} {ctxID : ℕ}

/-- `getBridgeAtom` gives `id` to the atom `(c:text)`. -/
def IsAtom (plan : List (ℕ × ContextQueryPlan)) (ctxID c : ℕ) (text : Text) (id : ID) : Prop :=
  ∃ mgr mgr', getBridgeAtom plan ctxID (c, text) mgr = some (mgr', id)

def IsLiteral (plan : List (ℕ × ContextQueryPlan)) (ctxID c : ℕ) (l : ID) : Prop :=
  ∃ text id naf, IsAtom plan ctxID c text id ∧ ID.literalFromBelief id naf = some l

def IsHead (plan : List (ℕ × ContextQueryPlan)) (ctxID : ℕ) (id : ID) : Prop :=
  ∃ qp table text, plan.lookup ctxID = some qp ∧ qp.localSignature = some table ∧
    id = table.getIDByString text

/-- The ids of a rule were looked up. -/
structure LookedUp (plan : List (ℕ × ContextQueryPlan)) (ctxID : ℕ) (r : StoredBridgeRule) :
    Prop where
  head : IsHead plan ctxID r.head
  body : ∀ l ∈ r.body, ∃ c, IsLiteral plan ctxID c l

def LookedUpState (plan : List (ℕ × ContextQueryPlan)) (ctxID : ℕ) (mgr : Semantics) : Prop :=
  ∀ r ∈ mgr.bridgeRules.rules, LookedUp plan ctxID r

lemma ensures_ident {I : Semantics → Prop} : Ensures I ident (fun _ => True) := by
  apply Ensures.alt
  · exact (Ensures.charIf skip isAlnum).many1.imp (fun _ _ => trivial)
  · refine (Ensures.lit skip _).seq (fun _ => ?_)
    refine ((Ensures.charIf id _).many.lexeme skip).seq (fun name => ?_)
    exact (Ensures.lit skip _).seq (fun _ => Ensures.pure trivial)

lemma ensures_belief {I : Semantics → Prop} : Ensures I belief (fun _ => True) := by
  have hterms : Ensures I terms (fun _ => True) :=
    (ensures_ident.sepBy (Ensures.lit skip _)).imp (fun _ _ => trivial)
  have hpredicate : Ensures I predicate (fun _ => True) := by
    refine ensures_ident.seq (fun name => (Ensures.lit skip _).seq (fun _ => ?_))
    exact hterms.seq (fun ts => (Ensures.lit skip _).seq (fun _ => Ensures.pure trivial))
  apply Ensures.alt
  · intro inp s hs
    rw [map_apply]
    exact (hpredicate inp s hs).map
  · exact ensures_ident

/-- Looking up an atom does not touch the rules. -/
lemma getBridgeAtom_bridgeRules {source : ℕ × Text} {s s' : Semantics} {id : ID}
    (h : getBridgeAtom plan ctxID source s = some (s', id)) : s'.bridgeRules = s.bridgeRules := by
  obtain ⟨qp, table, -, -, -, rfl⟩ := getBridgeAtom_eq_some.1 h
  exact meet_bridgeRules source.1 qp s

lemma ensures_bridgeAtom : Ensures (LookedUpState plan ctxID) (bridgeAtom plan ctxID)
    (fun id => ∃ c text, IsAtom plan ctxID c text id) := by
  refine Ensures.action (Q := fun _ => True) ?_ (fun source s s' id hs _ h => ?_)
  · refine (Ensures.lit skip _).seq (fun _ => (Ensures.uint skip).seq (fun c => ?_))
    refine (Ensures.lit skip _).seq (fun _ => ensures_belief.seq (fun text => ?_))
    exact (Ensures.lit skip _).seq (fun _ => Ensures.pure trivial)
  · refine ⟨?_, source.1, source.2, s, s', h⟩
    unfold LookedUpState
    rw [getBridgeAtom_bridgeRules h]
    exact hs

lemma ensures_bridgeLiteral : Ensures (LookedUpState plan ctxID) (bridgeLiteral plan ctxID)
    (fun l => ∃ c, IsLiteral plan ctxID c l) := by
  refine Ensures.action (Q := fun source => ∃ c text, IsAtom plan ctxID c text source.2) ?_
    (fun source s s' l hs hsource h => ?_)
  · refine (Ensures.lit skip _).opt.seq (fun naf => ?_)
    exact ensures_bridgeAtom.bind (fun id hid => Ensures.pure hid)
  · obtain ⟨l', hl', heq⟩ := Option.bind_eq_some_iff.1 h
    obtain ⟨rfl, rfl⟩ := Prod.mk.inj (Option.some.inj heq)
    obtain ⟨c, text, hatom⟩ := hsource
    exact ⟨hs, c, text, source.2, source.1.isSome, hatom, hl'⟩

lemma ensures_bridgeRule :
    Ensures (LookedUpState plan ctxID) (bridgeRule plan ctxID) (fun _ => True) := by
  refine Ensures.action (Q := fun source => ∀ l ∈ source.2, ∃ c, IsLiteral plan ctxID c l) ?_
    (fun source s s' _ hs hsource h => ?_)
  · refine ensures_belief.seq (fun head => (Ensures.lit skip _).seq (fun _ => ?_))
    refine (ensures_bridgeLiteral.sepBy (Ensures.charIf skip _)).bind (fun body hbody => ?_)
    exact (Ensures.lit skip _).seq (fun _ => Ensures.pure hbody.2)
  · obtain ⟨qp, table, rules, hqp, htable, hrules, rfl⟩ := getBridgeRule_eq_some h
    refine ⟨fun r hr => ?_, trivial⟩
    have hmem : r ∈ rules.rules := hr
    rw [hrules] at hmem
    rcases List.mem_append.1 hmem with hr | hr
    · exact hs r hr
    · rw [List.mem_singleton.1 hr]
      exact ⟨⟨qp, table, source.1, hqp, htable, rfl⟩, hsource⟩

/-- The rules of an accepted file. -/
lemma lookedUp_of_parseStream {text : Text} {brtab : BridgeRuleTable} {neighbors : List NewNeighbor}
    (h : parseStream plan ctxID text = .ok (brtab, neighbors)) :
    ∀ r ∈ brtab.rules, LookedUp plan ctxID r := by
  have hstart : Ensures (LookedUpState plan ctxID) (start plan ctxID) (fun _ => True) :=
    ensures_bridgeRule.many.imp (fun _ _ => trivial)
  have hinit : LookedUpState plan ctxID Semantics.init := fun r hr => absurd hr List.not_mem_nil
  unfold parseStream parseString at h
  cases hparse : phraseParse skip (start plan ctxID) (text ++ ['\n']) Semantics.init with
  | error e =>
      rw [hparse] at h
      cases h
  | ok mgr =>
      rw [hparse] at h
      rw [← (Prod.mk.inj (Except.ok.inj h)).1]
      exact phraseParse_ensures hstart hinit hparse

end BridgeRuleGrammar

end Dmcs
