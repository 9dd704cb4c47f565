import Dmcs.Lib.QiRelations
import Dmcs.Lib.Reuse
import Dmcs.Parser.BridgeRuleGrammar

/-!
# Parsers of bridge rules that are called again

A parser of bridge rules keeps one table of rules and one list of neighbors for all its calls.  The
rules of a second file are added to those of the first; a rule that both hold fails the assertion of
`storeAndGetID`.  `ActionsAgree` says what is to be shown of two runs over one text, from different
states or against different plans.
-/

namespace Dmcs

open Qi BaseParser Reuse

namespace BridgeRuleGrammar

open QueryPlanGrammar (ContextQueryPlan)

/-- A `BridgeRuleParser_t`. -/
def parser (plan : List (ℕ × ContextQueryPlan)) (ctxID : ℕ) :
    Reusable Text Semantics (BridgeRuleTable × List NewNeighbor) ParseError where
  init := Semantics.init
  call str := phraseParse skip (start plan ctxID) str
  result mgr := (mgr.bridgeRules, mgr.neighbors)

section Tokens

variable {g : Prop} {P : Semantics → Semantics → Prop}

lemma follows_ident : Follows g ident ident P P P Eq := by
  apply Follows.alt
  · exact (Follows.charIf skip isAlnum).many1.list
  · apply (Follows.lit skip _).seq
    intro _
    apply ((Follows.charIf id _).many.list.lexeme skip).seq
    intro name
    exact (Follows.lit skip _).seq (fun _ => Follows.pure rfl)

lemma follows_belief : Follows g belief belief P P P Eq := by
  apply Follows.alt
  · refine Follows.map (F := P) (Q := Eq) ?_ (fun p p' h => by rw [h])
    apply follows_ident.seq
    intro name
    apply (Follows.lit skip _).seq
    intro _
    apply (follows_ident.sepBy (Follows.lit skip _)).list.seq
    intro ts
    exact (Follows.lit skip _).seq (fun _ => Follows.pure rfl)
  · exact follows_ident

end Tokens

section Actions

variable {plan plan' : List (ℕ × ContextQueryPlan)} {ctxID : ℕ}
  {P : Semantics → Semantics → Prop} {Q : ID → ID → Prop}

/-- The context of an atom becomes a neighbour when it is met for the first time. -/
def meet (ctxID c : ℕ) (qp : ContextQueryPlan) (s : Semantics) : Semantics :=
  if c = ctxID ∨ c ∈ s.neighborIDs then s
  else { s with
    neighbors := s.neighbors ++ [⟨c, s.neighborOffset, qp.hostname, portText qp.port⟩]
    neighborOffset := s.neighborOffset + 1
    neighborIDs := s.neighborIDs ++ [c] }

/-- Looking up an atom: the table of the plan gives the id, whatever the state. -/
lemma getBridgeAtom_eq_some {source : ℕ × Text} {s s' : Semantics} {c : ID} :
    getBridgeAtom plan ctxID source s = some (s', c) ↔
      ∃ qp table, plan.lookup source.1 = some qp ∧
        (if source.1 = ctxID then qp.localSignature else qp.groundInputSignature) = some table ∧
        c = table.getIDByString source.2 ∧ s' = meet ctxID source.1 qp s := by
  unfold getBridgeAtom
  constructor
  · intro h
    obtain ⟨qp, hqp, h⟩ := Option.bind_eq_some_iff.1 h
    by_cases hown : source.1 = ctxID
    · rw [if_pos hown] at h
      obtain ⟨table, htable, heq⟩ := Option.bind_eq_some_iff.1 h
      cases heq
      refine ⟨qp, table, hqp, ?_, rfl, ?_⟩
      · rwa [if_pos hown]
      · exact (if_pos (Or.inl hown)).symm
    · rw [if_neg hown] at h
      obtain ⟨table, htable, h⟩ := Option.bind_eq_some_iff.1 h
      refine ⟨qp, table, hqp, ?_, ?_⟩
      · rwa [if_neg hown]
      · unfold meet
        by_cases hmet : source.1 ∈ s.neighborIDs
        · rw [if_pos hmet] at h
          cases h
          exact ⟨rfl, (if_pos (Or.inr hmet)).symm⟩
        · rw [if_neg hmet] at h
          cases h
          exact ⟨rfl, (if_neg (by simp [hown, hmet])).symm⟩
  · rintro ⟨qp, table, hqp, htable, rfl, rfl⟩
    rw [hqp, Option.bind_eq_bind, Option.bind_some]
    unfold meet
    by_cases hown : source.1 = ctxID
    · rw [if_pos hown] at htable
      rw [if_pos hown, htable, if_pos (Or.inl hown)]
      rfl
    · rw [if_neg hown] at htable
      rw [if_neg hown, htable, Option.bind_eq_bind, Option.bind_some]
      by_cases hmet : source.1 ∈ s.neighborIDs
      · rw [if_pos hmet, if_pos (Or.inr hmet)]
      · rw [if_neg hmet, if_neg (by simp [hown, hmet])]

@[simp] lemma meet_bridgeRules (c : ℕ) (qp : ContextQueryPlan) (s : Semantics) :
    (meet ctxID c qp s).bridgeRules = s.bridgeRules := by
  unfold meet
  split
  · rfl
  · rfl

lemma getBridgeRule_eq_some {source : Text × List ID} {s s' : Semantics} {u : Unit}
    (h : getBridgeRule plan ctxID source s = some (s', u)) :
    ∃ qp table rules, plan.lookup ctxID = some qp ∧ qp.localSignature = some table ∧
      rules.rules = s.bridgeRules.rules ++ [⟨table.getIDByString source.1, source.2⟩] ∧
      s' = { s with bridgeRules := rules } := by
  unfold getBridgeRule at h
  obtain ⟨qp, hqp, h⟩ := Option.bind_eq_some_iff.1 h
  obtain ⟨table, htable, h⟩ := Option.bind_eq_some_iff.1 h
  obtain ⟨rules, hrules, h⟩ := Option.bind_eq_some_iff.1 h
  cases h
  refine ⟨qp, table, rules, hqp, htable, ?_, rfl⟩
  unfold BridgeRuleTable.storeAndGetID at hrules
  split at hrules
  · cases hrules
    rfl
  · cases hrules

/-- What the actions of two runs over the same text have to keep, where both come back. -/
structure ActionsAgree (plan plan' : List (ℕ × ContextQueryPlan)) (ctxID : ℕ)
    (P : Semantics → Semantics → Prop) (Q : ID → ID → Prop) : Prop where
  atom : ∀ source s t s' t' c d, P s t → getBridgeAtom plan ctxID source s = some (s', c) →
    getBridgeAtom plan' ctxID source t = some (t', d) → P s' t' ∧ Q c d
  literal : ∀ naf c d c' d', Q c d → ID.literalFromBelief c naf = some c' →
    ID.literalFromBelief d naf = some d' → Q c' d'
  rule : ∀ head body body' s t s' t' u u', P s t → List.Forall₂ Q body body' →
    getBridgeRule plan ctxID (head, body) s = some (s', u) →
    getBridgeRule plan' ctxID (head, body') t = some (t', u') → P s' t'

namespace ActionsAgree

lemma bridgeAtom (h : ActionsAgree plan plan' ctxID P Q) :
    Follows True (bridgeAtom plan ctxID) (bridgeAtom plan' ctxID) P P P Q := by
  refine Follows.action_of_both (R := P) (Q := Eq) trivial ?_ ?_
  · apply (Follows.lit skip _).seq
    intro _
    apply (Follows.uint skip).seq
    intro ctx_id
    apply (Follows.lit skip _).seq
    intro _
    apply follows_belief.seq
    intro b
    exact (Follows.lit skip _).seq (fun _ => Follows.pure rfl)
  · rintro source _ s t s' t' c d hst rfl hs ht
    exact h.atom source s t s' t' c d hst hs ht

lemma bridgeLiteral (h : ActionsAgree plan plan' ctxID P Q) :
    Follows True (bridgeLiteral plan ctxID) (bridgeLiteral plan' ctxID) P P P Q := by
  refine Follows.action_of_both (R := P) (Q := fun a b => a.1 = b.1 ∧ Q a.2 b.2) trivial ?_ ?_
  · apply (Follows.lit skip _).opt.option.seq
    intro naf
    apply h.bridgeAtom.bind
    intro c d hcd
    exact Follows.pure ⟨rfl, hcd⟩
  · rintro ⟨naf, c⟩ ⟨_, d⟩ s t s' t' c' d' hst ⟨rfl, hcd⟩ hs ht
    obtain ⟨_, hc, heq⟩ := Option.bind_eq_some_iff.1 hs
    obtain ⟨_, hd, heq'⟩ := Option.bind_eq_some_iff.1 ht
    cases heq
    cases heq'
    exact ⟨hst, h.literal _ c d _ _ hcd hc hd⟩

lemma bridgeRule (h : ActionsAgree plan plan' ctxID P Q) :
    Follows True (bridgeRule plan ctxID) (bridgeRule plan' ctxID) P P P Eq := by
  refine Follows.action_of_both (R := P) (Q := fun a b => a.1 = b.1 ∧ List.Forall₂ Q a.2 b.2)
    trivial ?_ ?_
  · apply follows_belief.seq
    intro head
    apply (Follows.lit skip _).seq
    intro _
    apply (h.bridgeLiteral.sepBy (Follows.charIf skip _)).bind
    intro body body' hbody
    exact (Follows.lit skip _).seq (fun _ => Follows.pure ⟨rfl, hbody⟩)
  · rintro ⟨head, body⟩ ⟨_, body'⟩ s t s' t' _ _ hst ⟨rfl, hbody⟩ hs ht
    exact ⟨h.rule head body body' s t s' t' _ _ hst hbody hs ht, rfl⟩

lemma start (h : ActionsAgree plan plan' ctxID P Q) :
    Follows True (start plan ctxID) (start plan' ctxID) P P P Eq := h.bridgeRule.many.list

end ActionsAgree

/-- The second table holds the rules that were there before and those of the first. -/
def Appended (old : List StoredBridgeRule) (s t : Semantics) : Prop :=
  t.bridgeRules.rules = old ++ s.bridgeRules.rules

lemma appended_actionsAgree (plan : List (ℕ × ContextQueryPlan)) (ctxID : ℕ)
    (old : List StoredBridgeRule) : ActionsAgree plan plan ctxID (Appended old) Eq where
  atom source s t s' t' c d hst hs ht := by
    obtain ⟨qp, table, hqp, htable, rfl, rfl⟩ := getBridgeAtom_eq_some.1 hs
    obtain ⟨qp', table', hqp', htable', rfl, rfl⟩ := getBridgeAtom_eq_some.1 ht
    rw [hqp, Option.some_inj] at hqp'
    subst hqp'
    rw [htable, Option.some_inj] at htable'
    subst htable'
    refine ⟨?_, rfl⟩
    unfold Appended
    rwa [meet_bridgeRules, meet_bridgeRules]
  literal naf c d c' d' hcd hc hd := by
    rw [hcd, hd] at hc
    exact (Option.some_inj.1 hc).symm
  rule head body body' s t s' t' u u' hst hbody hs ht := by
    obtain ⟨qp, table, rules, hqp, htable, hrules, rfl⟩ := getBridgeRule_eq_some hs
    obtain ⟨qp', table', rules', hqp', htable', hrules', rfl⟩ := getBridgeRule_eq_some ht
    rw [hqp, Option.some_inj] at hqp'
    subst hqp'
    rw [htable, Option.some_inj] at htable'
    subst htable'
    rw [List.forall₂_eq_eq_eq] at hbody
    subst hbody
    show rules'.rules = old ++ rules.rules
    rw [hrules, hrules', hst, List.append_assoc]

/-- The same run, and there are rules. -/
def HasRules (s t : Semantics) : Prop := s = t ∧ s.bridgeRules.rules ≠ []

lemma hasRules_actionsAgree (plan : List (ℕ × ContextQueryPlan)) (ctxID : ℕ) :
    ActionsAgree plan plan ctxID HasRules Eq where
  atom source s t s' t' c d hst hs ht := by
    obtain ⟨rfl, hrules⟩ := hst
    rw [hs] at ht
    cases ht
    obtain ⟨qp, table, -, -, -, rfl⟩ := getBridgeAtom_eq_some.1 hs
    refine ⟨⟨rfl, ?_⟩, rfl⟩
    rwa [meet_bridgeRules]
  literal naf c d c' d' hcd hc hd := by
    rw [hcd, hd] at hc
    exact (Option.some_inj.1 hc).symm
  rule head body body' s t s' t' u u' hst hbody hs ht := by
    obtain ⟨rfl, -⟩ := hst
    rw [List.forall₂_eq_eq_eq] at hbody
    subst hbody
    rw [hs] at ht
    cases ht
    obtain ⟨qp, table, rules, -, -, hrules, rfl⟩ := getBridgeRule_eq_some hs
    refine ⟨rfl, ?_⟩
    show rules.rules ≠ []
    rw [hrules]
    simp

end Actions

section Files

variable {plan : List (ℕ × ContextQueryPlan)} {ctxID : ℕ} {str : Text} {s s' : Semantics}

lemma call_of_skip (hstr : skip str = []) : (parser plan ctxID).call str s = .ok s := by
  have hrun : start plan ctxID str s = .success [] str s :=
    many_of_failure (bridgeRule_of_skip plan ctxID hstr s)
  show phraseParse skip (start plan ctxID) str s = .ok s
  unfold phraseParse
  rw [hrun]
  exact if_pos hstr

/-- A rule that is read is in the table. -/
lemma bridgeRule_hasRules {u : Unit} {r : Text}
    (h : bridgeRule plan ctxID str s = .success u r s') : s'.bridgeRules.rules ≠ [] := by
  unfold bridgeRule action at h
  split at h
  · split at h
    · rename_i hact
      cases h
      obtain ⟨qp, table, rules, -, -, hrules, rfl⟩ := getBridgeRule_eq_some hact
      show rules.rules ≠ []
      rw [hrules]
      simp
    · cases h
  · cases h
  · cases h

lemma bridgeRule_failure {u : Semantics} {r : Text}
    (h : bridgeRule plan ctxID str s = .failure r u) : r = str := by
  unfold bridgeRule action at h
  split at h
  · split at h
    · cases h
    · cases h
  · rename_i hbody
    cases h
    exact rest_of_bind_failure hbody
  · cases h

/-- Rules that are there stay. -/
lemma manyLoop_hasRules {n : ℕ} {us : List Unit} {r : Text}
    (h : manyLoop (bridgeRule plan ctxID) n str s = .success us r s')
    (hs : s.bridgeRules.rules ≠ []) : s'.bridgeRules.rules ≠ [] := by
  have hfollows := (hasRules_actionsAgree plan ctxID).bridgeRule.manyLoop (F := HasRules) n str s s
    ⟨rfl, hs⟩
  rw [h] at hfollows
  cases hfollows with
  | success rest hR hQ => exact hR.2

/-- A file without a rule consists of blanks and comments. -/
lemma skip_of_no_rules (h : (parser plan ctxID).call str s = .ok s')
    (hrules : s'.bridgeRules.rules = []) : skip str = [] := by
  change phraseParse skip (start plan ctxID) str s = .ok s' at h
  unfold phraseParse start many at h
  cases hrule : bridgeRule plan ctxID str s with
  | success u r s₁ =>
      simp only [manyLoop, hrule] at h
      by_cases hlen : r.length < str.length
      · simp only [hlen, if_true] at h
        cases hrest : manyLoop (bridgeRule plan ctxID) str.length r s₁ with
        | success us r' s₂ =>
            rw [hrest] at h
            simp only [Outcome.map] at h
            split at h
            · cases h
              exact absurd hrules (manyLoop_hasRules hrest (bridgeRule_hasRules hrule))
            · cases h
        | failure r' s₂ =>
            rw [hrest] at h
            cases h
        | abort =>
            rw [hrest] at h
            cases h
      · simp only [hlen, if_false] at h
        cases h
  | failure r u =>
      obtain rfl := bridgeRule_failure hrule
      simp only [manyLoop, hrule] at h
      split at h
      · assumption
      · cases h
  | abort =>
      simp only [manyLoop, hrule] at h
      cases h

lemma rules_of_result_eq (h : (parser plan ctxID).result s = (parser plan ctxID).result s') :
    s.bridgeRules.rules = s'.bridgeRules.rules := congrArg (fun v => v.1.rules) h

/-- A file is read into the table that is there. -/
lemma call_appends {f : Semantics} (hf : (parser plan ctxID).call str Semantics.init = .ok f)
    (hs : (parser plan ctxID).call str s = .ok s') :
    s'.bridgeRules.rules = s.bridgeRules.rules ++ f.bridgeRules.rules := by
  have hinit : Appended s.bridgeRules.rules Semantics.init s := by
    unfold Appended
    simp [Semantics.init, BridgeRuleTable.empty]
  change phraseParse skip (start plan ctxID) str s = .ok s' at hs
  rcases phraseParse_follows (appended_actionsAgree plan ctxID s.bridgeRules.rules).start hinit hf
    with ⟨-, habort⟩ | ⟨t, ht, happ⟩
  · rw [hs] at habort
    cases habort
  · rw [hs] at ht
    cases ht
    exact happ

/-- Two files are read apart only where neither holds a rule. -/
lemma noMemory_iff {inputs : List Text} (hin : (parser plan ctxID).Accepts inputs) :
    (parser plan ctxID).NoMemory Eq inputs ↔
      inputs.length ≤ 1 ∨ ∀ str ∈ inputs, skip str = [] := by
  constructor
  · intro h
    by_contra hnot
    rw [not_or] at hnot
    obtain ⟨hlen, hblank⟩ := hnot
    have halike := h.allAlike eq_equivalence
    obtain ⟨after, hafter, hvalues, -⟩ := h
    match inputs with
    | [] => simp at hlen
    | [_] => simp at hlen
    | first :: second :: rest =>
        obtain ⟨s₁, _, hs₁, hrest, rfl⟩ := Reusable.calls_cons_eq_ok.1 hafter
        obtain ⟨s₂, _, hs₂, -, rfl⟩ := Reusable.calls_cons_eq_ok.1 hrest
        cases hvalues with
        | cons h₁ hvalues =>
        cases hvalues with
        | cons h₂ _ =>
        obtain ⟨v₂, hv₂, hsame₂⟩ := h₂
        obtain ⟨f₂, hf₂, rfl⟩ := Reusable.alone_eq_ok.1 hv₂
        -- the second file returned what it returns alone, so the first has left no rule
        have hnone : s₁.bridgeRules.rules = [] := by
          have heq := rules_of_result_eq hsame₂
          rw [call_appends hf₂ hs₂] at heq
          simpa using heq
        apply hblank
        intro str hstr
        obtain ⟨v, hv⟩ := hin str hstr
        obtain ⟨f, hf, rfl⟩ := Reusable.alone_eq_ok.1 hv
        apply skip_of_no_rules hf
        have hfirst := Reusable.alone_eq_ok.2 ⟨s₁, hs₁, rfl⟩
        rw [← rules_of_result_eq (halike first List.mem_cons_self str hstr _ _ hfirst hv)]
        exact hnone
  · rintro (hlen | hblank)
    · match inputs with
      | [] => exact Reusable.noMemory_of_unchanged (fun _ => rfl) (fun _ h => by cases h)
      | [i] => exact Reusable.noMemory_singleton (fun _ => rfl) hin
      | _ :: _ :: _ => simp at hlen
    · exact Reusable.noMemory_of_unchanged (fun _ => rfl)
        (fun str hstr => call_of_skip (hblank str hstr))

end Files

end BridgeRuleGrammar

end Dmcs
