import Dmcs.Parser.BridgeRuleGrammar
import Dmcs.Parser.QueryPlanInvariants

/-!
# Belief names in the three grammars

A belief gets its text in the signature of a query plan, and the same text stands in bridge rules
and in answer sets.  In a signature and in an answer set an identifier is a lower case letter with
letters, digits and underscores behind it.  In a bridge rule it consists of letters and digits only,
so a name with an underscore is read up to the underscore, and what must follow the name does not
follow.

The three grammars are compared on the text of one belief.  Up to the first character that is no
part of an identifier they do the same; an underscore is such a character for bridge rules only, and
what follows an identifier there is a comma, a bracket or a dot.
-/

namespace Dmcs

namespace BeliefNames

open Qi BaseParser DLVResultGrammar

/-! ## The texts of accepted query plans -/

/-- An atom over identifiers of signatures. -/
def IsAtomText (t : Text) : Prop :=
  ∃ p as, (∀ x ∈ p :: as, IsPlain x) ∧ t = QueryPlanGrammar.atomText (p :: as)

def PlainTable (table : BeliefTable) : Prop := ∀ b ∈ table.beliefs, IsAtomText b.text

/-- The signatures of a query plan hold atoms only. -/
structure PlainPlan (qp : QueryPlanGrammar.ContextQueryPlan) : Prop where
  localSignature : ∀ t ∈ qp.localSignature, PlainTable t
  groundInputSignature : ∀ t ∈ qp.groundInputSignature, PlainTable t

structure PlainState (mgr : QueryPlanGrammar.Semantics) : Prop where
  parsed : ∀ e ∈ mgr.parsedResult, PlainPlan e.2
  current : ∀ qp ∈ mgr.currentQueryPlan, PlainPlan qp

section QueryPlan

open QueryPlanGrammar

lemma isAtomText_of_entered {ctx : ℕ} {b : Belief} (h : Entered ctx b) : IsAtomText b.text := by
  obtain ⟨address, p, as, hplain, rfl⟩ := h
  exact ⟨p, as, hplain, rfl⟩

lemma plainPlan_of_entered {qp : ContextQueryPlan} (h : EnteredPlan qp) : PlainPlan qp :=
  ⟨fun t ht b hb => isAtomText_of_entered (h.localSignature t ht b hb),
    fun t ht b hb => isAtomText_of_entered (h.groundInputSignature t ht b hb)⟩

/-- The invariant of the grammar, as far as it is about the texts. -/
lemma plainState_of_entered {mgr : QueryPlanGrammar.Semantics} (h : EnteredState mgr) :
    PlainState mgr :=
  ⟨fun e he => plainPlan_of_entered (h.parsed.entered e he),
    fun qp hqp => plainPlan_of_entered (h.current qp hqp)⟩

/-- The signatures of an accepted query plan hold atoms only. -/
lemma plain_of_parseStream {text : Text} {plan : List (ℕ × ContextQueryPlan)}
    (h : QueryPlanGrammar.parseStream text = .ok plan) : ∀ e ∈ plan, PlainPlan e.2 :=
  (plainState_of_entered ⟨entered_of_parseStream h, fun qp hqp =>
    absurd hqp (Option.not_mem_none qp)⟩ : PlainState ⟨plan, none⟩).parsed

end QueryPlan

/-! ## Writing a belief's name -/

open BridgeRuleGrammar (IsName belief bridgeAtom)

/-- `belief >> lit(":-")`, with which a bridge rule begins. -/
def ruleHead : Parser BridgeRuleGrammar.Semantics Text := do
  let head ← belief
  let _ ← lit skip ":-".toList
  pure head

lemma bridgeRule_eq (plan : List (ℕ × QueryPlanGrammar.ContextQueryPlan)) (ctxID : ℕ) :
    BridgeRuleGrammar.bridgeRule plan ctxID =
      action (do
          let head ← ruleHead
          let body ← sepBy (BridgeRuleGrammar.bridgeLiteral plan ctxID)
            (charIf skip (fun c => c = ','))
          let _ ← lit skip ['.']
          pure (head, body))
        (BridgeRuleGrammar.getBridgeRule plan ctxID) := by
  unfold BridgeRuleGrammar.bridgeRule ruleHead
  rw [bind_bind]
  congr 2
  funext head
  rw [bind_bind]
  congr 1
  funext _ inp s
  exact restore_bind.symm

/-- A literal of an answer set with the character after it, before its action. -/
def signedFact {σ : Type} (skip : Skipper) (stop : Char) : Parser σ (Option Char × Text) := do
  let strong_neg ← opt (charIf skip (fun c => c = '-'))
  let belief_text ← fact skip
  let _ ← lit skip [stop]
  pure (strong_neg, belief_text)

lemma literal_eq (bso : BeliefStateOffset) (btab : BeliefTable) (ctx : ℕ) (skip : Skipper)
    (stop : Char) : literal bso btab ctx skip stop =
      action (signedFact skip stop) (handleLiteral bso btab ctx) := rfl

/-- The two signatures of a query plan. -/
inductive Signature where
  | localSignature
  | groundInputSignature
  deriving DecidableEq

def Signature.table (qp : QueryPlanGrammar.ContextQueryPlan) : Signature → Option BeliefTable
  | localSignature => qp.localSignature
  | groundInputSignature => qp.groundInputSignature

/-- A belief entered in a signature through the grammar of query plans. -/
structure EnteredBelief where
  text : Text
  plan : List (ℕ × QueryPlanGrammar.ContextQueryPlan)
  accepted : QueryPlanGrammar.parseStream text = .ok plan
  ctx : ℕ
  qp : QueryPlanGrammar.ContextQueryPlan
  lookup_ctx : plan.lookup ctx = some qp
  signature : Signature
  table : BeliefTable
  table_eq : signature.table qp = some table
  entry : Belief
  entry_mem : entry ∈ table.beliefs

/-- The name of the belief is read by the other two grammars, and looking it up gives its ID: as
the head of a rule of its own context, as the atom `(c:t)` in the rules of the context whose query
plan looks it up in this signature, and as a literal of an answer set. -/
structure Agree (e : EnteredBelief) : Prop where
  lookup : e.table.getIDByString e.entry.text = e.entry.id
  head : e.signature = .localSignature → ∀ rest s,
    ruleHead (e.entry.text ++ ":-".toList ++ rest) s = .success e.entry.text rest s
  atom : ∀ ctxID, (e.signature = .localSignature ↔ ctxID = e.ctx) → ∀ rest s, ∃ s',
    bridgeAtom e.plan ctxID ('(' :: (decimal e.ctx ++ ':' :: (e.entry.text ++ ')' :: rest))) s =
      .success e.entry.id rest s'
  answer : ∀ comment, IsComment comment → ∀ stop, stop = ',' ∨ stop = '}' →
    ∀ (negated : Bool) {σ : Type} (rest : Text) (s : σ),
      signedFact (skipper comment) stop
        ((if negated then ['-'] else []) ++ (e.entry.text ++ stop :: rest)) s =
        .success (if negated then some '-' else none, e.entry.text) rest s

section Names

variable {p x r : Text} {as : List Text}

lemma isName_of_isPlain (hx : IsPlain x) (h : '_' ∉ x) : IsName x := by
  obtain ⟨c, cs, rfl, hc, hcs⟩ := hx
  refine ⟨List.cons_ne_nil c cs, fun d hd => ?_⟩
  have hident : isIdentChar d = true := by
    rcases List.mem_cons.1 hd with rfl | hd'
    · exact isIdentChar_of_isLower hc
    · exact hcs d hd'
  have hne : d ≠ '_' := fun heq => h (heq ▸ hd)
  simpa [isIdentChar, hne] using hident

lemma underscore_mem_atomText_iff :
    '_' ∈ QueryPlanGrammar.atomText (p :: as) ↔ ∃ x ∈ p :: as, '_' ∈ x := by
  cases as with
  | nil => simp [QueryPlanGrammar.atomText]
  | cons a as => simp [QueryPlanGrammar.atomText]

/-- A name with an underscore is cut before the first one. -/
lemma exists_underscore (hx : IsPlain x) (h : '_' ∈ x) :
    ∃ a b, x = a ++ '_' :: b ∧ IsName a := by
  have hcut : ∀ l : Text, (∀ d ∈ l, isIdentChar d = true) → '_' ∈ l →
      ∃ a b, l = a ++ '_' :: b ∧ ∀ d ∈ a, isAlnum d = true := by
    intro l hl hmem
    induction l with
    | nil => exact absurd hmem List.not_mem_nil
    | cons d l ih =>
        by_cases hd : d = '_'
        · exact ⟨[], l, by rw [hd]; rfl, fun e he => absurd he List.not_mem_nil⟩
        · obtain ⟨a, b, hab, ha⟩ := ih (fun e he => hl e (List.mem_cons_of_mem d he))
            ((List.mem_cons.1 hmem).resolve_left (Ne.symm hd))
          refine ⟨d :: a, b, by rw [hab]; rfl, List.forall_mem_cons.2 ⟨?_, ha⟩⟩
          simpa [isIdentChar, hd] using hl d List.mem_cons_self
  obtain ⟨c, cs, rfl, hc, hcs⟩ := hx
  have hne : '_' ≠ c := by
    rintro rfl
    revert hc
    decide
  obtain ⟨a, b, rfl, ha⟩ := hcut cs hcs ((List.mem_cons.1 h).resolve_left hne)
  have halnum : isAlnum c = true := by simp [isAlnum, hc]
  exact ⟨c :: a, b, rfl, List.cons_ne_nil c a, List.forall_mem_cons.2 ⟨halnum, ha⟩⟩

/-- An atom whose names have no underscore is a belief of the bridge rule grammar; any other one is
read up to an underscore or up to its arguments. -/
lemma belief_of_underscore (hplain : ∀ x ∈ p :: as, IsPlain x)
    (h : '_' ∈ QueryPlanGrammar.atomText (p :: as)) (r : Text) (s : BridgeRuleGrammar.Semantics) :
    ∃ name c rest, belief (QueryPlanGrammar.atomText (p :: as) ++ r) s =
      .success name (c :: rest) s ∧ (c = '_' ∨ c = '(') := by
  by_cases hp : '_' ∈ p
  · obtain ⟨a, b, rfl, ha⟩ := exists_underscore (hplain p List.mem_cons_self) hp
    have hcut : ∀ tail : Text, ∃ rest,
        belief (a ++ '_' :: tail) s = .success a ('_' :: rest) s := fun tail =>
      ⟨tail, BridgeRuleGrammar.belief_name (w := []) (by decide) ha (by decide) (by decide)⟩
    cases as with
    | nil =>
        obtain ⟨rest, hrest⟩ := hcut (b ++ r)
        refine ⟨a, '_', rest, ?_, Or.inl rfl⟩
        rw [← hrest]
        simp [QueryPlanGrammar.atomText]
    | cons x as =>
        obtain ⟨rest, hrest⟩ :=
          hcut (b ++ '(' :: (x ++ (as.flatMap (fun x => ',' :: x) ++ ')' :: r)))
        refine ⟨a, '_', rest, ?_, Or.inl rfl⟩
        rw [← hrest]
        simp [QueryPlanGrammar.atomText]
  · have hname : IsName p := isName_of_isPlain (hplain p List.mem_cons_self) hp
    have hbad : ¬ ∀ x ∈ as, '_' ∉ x := by
      intro hall
      obtain ⟨x, hx, hmem⟩ := underscore_mem_atomText_iff.1 h
      rcases List.mem_cons.1 hx with rfl | hx
      · exact hp hmem
      · exact hall x hx hmem
    obtain ⟨good, x, bad, rfl, hgood, hx⟩ := exists_first_bad hbad
    obtain ⟨a, b, rfl, ha⟩ := exists_underscore
      (hplain x (List.mem_cons_of_mem p (List.mem_append_right good List.mem_cons_self)))
      (not_not.1 hx)
    -- the arguments in front of the underscore, the last one cut
    obtain ⟨y, ys, rest, hnames, htext⟩ : ∃ y ys rest, (∀ z ∈ y :: ys, IsName z) ∧
        QueryPlanGrammar.atomText (p :: (good ++ (a ++ '_' :: b) :: bad)) ++ r =
          p ++ '(' :: (y ++ (ys.flatMap (fun x => ',' :: x) ++ '_' :: rest)) := by
      cases good with
      | nil =>
          refine ⟨a, [], b ++ (bad.flatMap (fun x => ',' :: x) ++ ')' :: r), ?_, ?_⟩
          · intro z hz
            rw [List.mem_singleton.1 hz]
            exact ha
          · simp [QueryPlanGrammar.atomText]
      | cons y good =>
          refine ⟨y, good ++ [a], b ++ (bad.flatMap (fun x => ',' :: x) ++ ')' :: r), ?_, ?_⟩
          · intro z hz
            rw [← List.cons_append] at hz
            rcases List.mem_append.1 hz with hz | hz
            · exact isName_of_isPlain
                (hplain z (List.mem_cons_of_mem p (List.mem_append_left _ hz))) (hgood z hz)
            · rw [List.mem_singleton.1 hz]
              exact ha
          · simp [QueryPlanGrammar.atomText]
    rw [htext]
    have hident : BridgeRuleGrammar.ident
        (p ++ '(' :: (y ++ (ys.flatMap (fun x => ',' :: x) ++ '_' :: rest))) s = _ :=
      BridgeRuleGrammar.ident_append (w := []) (by decide) hname
        (BridgeRuleGrammar.nameEnds_cons (by decide))
    have hpred : BridgeRuleGrammar.predicate
        (p ++ '(' :: (y ++ (ys.flatMap (fun x => ',' :: x) ++ '_' :: rest))) s =
        .failure (p ++ '(' :: (y ++ (ys.flatMap (fun x => ',' :: x) ++ '_' :: rest))) s := by
      unfold BridgeRuleGrammar.predicate
      rw [bind_of_success hident, bind_of_success (lit_visible (by decide)),
        bind_of_success (BridgeRuleGrammar.terms_append hnames (by decide) (by decide)),
        bind_of_failure (BridgeRuleGrammar.lit_of_head_ne (by decide) (by decide) [])]
      rfl
    exact ⟨p, '(', _, (BridgeRuleGrammar.belief_of_predicate_failure hpred).trans hident,
      Or.inr rfl⟩

end Names

/-! ## When the grammars agree -/

section Agreement

variable {e : EnteredBelief}

lemma EnteredBelief.isAtomText (e : EnteredBelief) : IsAtomText e.entry.text := by
  have hmem : ∀ {plan : List (ℕ × QueryPlanGrammar.ContextQueryPlan)} {qp},
      plan.lookup e.ctx = some qp → ∃ c, (c, qp) ∈ plan := by
    intro plan qp h
    induction plan with
    | nil => cases h
    | cons entry plan ih =>
        rw [List.lookup_cons] at h
        split at h
        · obtain ⟨c, q⟩ := entry
          rw [← Option.some.inj h]
          exact ⟨c, List.mem_cons_self⟩
        · obtain ⟨c, hc⟩ := ih h
          exact ⟨c, List.mem_cons_of_mem _ hc⟩
  obtain ⟨c, hc⟩ := hmem e.lookup_ctx
  have hplain : PlainPlan e.qp := plain_of_parseStream e.accepted _ hc
  have htable : PlainTable e.table := by
    have heq := e.table_eq
    cases hs : e.signature with
    | localSignature =>
        rw [hs] at heq
        exact hplain.localSignature _ heq
    | groundInputSignature =>
        rw [hs] at heq
        exact hplain.groundInputSignature _ heq
  exact htable e.entry e.entry_mem

lemma EnteredBelief.belief_append (h : '_' ∉ e.entry.text) {c : Char}
    (hc : isAlnum c = false ∧ isSpace c = false ∧ c ≠ '#') (hparen : '(' ≠ c) (rest : Text)
    (s : BridgeRuleGrammar.Semantics) :
    belief (e.entry.text ++ c :: rest) s = .success e.entry.text (c :: rest) s := by
  obtain ⟨p, as, hplain, htext⟩ := e.isAtomText
  rw [htext] at h ⊢
  have hnames : ∀ x ∈ p :: as, IsName x := fun x hx =>
    isName_of_isPlain (hplain x hx) (fun hmem => h (underscore_mem_atomText_iff.2 ⟨x, hx, hmem⟩))
  exact BridgeRuleGrammar.belief_atomText (w := []) (by decide) hnames hc hparen

lemma EnteredBelief.isFact (e : EnteredBelief) : IsFact e.entry.text := by
  obtain ⟨p, as, hplain, htext⟩ := e.isAtomText
  rw [htext]
  refine ⟨p, Or.inr (hplain p List.mem_cons_self), ?_⟩
  cases as with
  | nil => exact Or.inl rfl
  | cons a as =>
      exact Or.inr ⟨a, as, fun x hx => Or.inl (Or.inr (hplain x (List.mem_cons_of_mem p hx))),
        rfl⟩

/-- The atom is looked up in the signature that the belief is entered in. -/
lemma EnteredBelief.exists_getBridgeAtom {ctxID : ℕ}
    (hside : e.signature = .localSignature ↔ ctxID = e.ctx) (s : BridgeRuleGrammar.Semantics) :
    ∃ s', BridgeRuleGrammar.getBridgeAtom e.plan ctxID (e.ctx, e.entry.text) s =
      some (s', e.entry.id) := by
  have hlookup : e.table.getIDByString e.entry.text = e.entry.id :=
    BeliefTable.getIDByString_of_mem e.entry_mem
  have heq := e.table_eq
  unfold BridgeRuleGrammar.getBridgeAtom
  simp only [e.lookup_ctx, Option.bind_eq_bind, Option.bind_some]
  cases hs : e.signature with
  | localSignature =>
      have htable : e.qp.localSignature = some e.table := by rw [← heq, hs]; rfl
      rw [if_pos (hside.1 hs).symm, htable, Option.bind_some, hlookup]
      exact ⟨s, rfl⟩
  | groundInputSignature =>
      have htable : e.qp.groundInputSignature = some e.table := by rw [← heq, hs]; rfl
      have hne : e.ctx ≠ ctxID := by
        intro hctx
        have hlocal := hside.2 hctx.symm
        rw [hs] at hlocal
        cases hlocal
      rw [if_neg hne, htable, Option.bind_some, hlookup]
      split
      · exact ⟨s, rfl⟩
      · exact ⟨_, rfl⟩

lemma signedFact_append {comment : Char} {stop : Char} {t rest : Text} {σ : Type}
    (hcom : IsComment comment) (hstop : stop = ',' ∨ stop = '}') (hfact : IsFact t)
    (negated : Bool) (s : σ) :
    signedFact (skipper comment) stop ((if negated then ['-'] else []) ++ (t ++ stop :: rest)) s =
      .success (if negated then some '-' else none, t) rest s := by
  have hstops : Stops (stop :: rest) ∧ stop ≠ '(' := by
    rcases hstop with rfl | rfl
    · exact ⟨stops_cons (by decide), by decide⟩
    · exact ⟨stops_cons (by decide), by decide⟩
  obtain ⟨c, cs, hc, hvisible, hminus, -⟩ := hfact.visible
  have hread : fact (skipper comment) (t ++ stop :: rest) s = _ :=
    fact_append hcom hfact hstops.1 (by simpa using hstops.2)
  have hlast : (lit (skipper comment) [stop] : Parser σ Unit) (stop :: rest) s =
      .success () rest s := lit_singleton (hstops.1.skipper hcom)
  have hsign : opt (charIf (skipper comment) (fun c => c = '-'))
      ((if negated then ['-'] else []) ++ (t ++ stop :: rest)) s =
        .success (if negated then some '-' else none) (t ++ stop :: rest) s := by
    cases negated with
    | true =>
        apply opt_of_success
        exact charIf_of_test (skipper_of_isVisible hcom (by decide)) (by simp)
    | false =>
        have hskip : skipper comment (t ++ stop :: rest) = t ++ stop :: rest := by
          rw [hc]
          exact skipper_of_isVisible hcom hvisible
        apply opt_of_failure
        rw [if_neg Bool.false_ne_true, List.nil_append, charIf_of_not_test, hskip]
        rw [hskip, hc]
        simpa using hminus
  unfold signedFact
  rw [bind_of_success hsign, bind_of_success hread, bind_of_success hlast]
  rfl

lemma agree_of_no_underscore (hctx : e.ctx < 2 ^ 32) (h : '_' ∉ e.entry.text) : Agree e := by
  refine ⟨BeliefTable.getIDByString_of_mem e.entry_mem, ?_, ?_, ?_⟩
  · intro _ rest s
    have hneck : (lit skip ":-".toList : Parser BridgeRuleGrammar.Semantics Unit)
        (':' :: '-' :: rest) s = .success () rest s :=
      lit_of_skip (t := ":-".toList) (skipper_of_visible (r := '-' :: rest) (by decide) (by decide))
    unfold ruleHead
    rw [List.append_assoc]
    show (belief >>= _) (e.entry.text ++ ':' :: '-' :: rest) s = _
    rw [bind_of_success (e.belief_append h (by decide) (by decide) _ s), bind_of_success hneck]
    rfl
  · intro ctxID hside rest s
    have hnumber : uint skip (decimal e.ctx ++ ':' :: (e.entry.text ++ ')' :: rest)) s = _ :=
      uint_decimal (w := []) (by decide) hctx ((noDigit_cons _ _).2 (by decide))
    obtain ⟨s', hs'⟩ := e.exists_getBridgeAtom hside s
    refine ⟨s', ?_⟩
    unfold bridgeAtom
    rw [action_of_success (a := (e.ctx, e.entry.text)) (r := rest) (u := s), hs']
    rw [bind_of_success (lit_visible (by decide)), bind_of_success hnumber,
      bind_of_success (lit_visible (by decide)),
      bind_of_success (e.belief_append h (by decide) (by decide) _ s),
      bind_of_success (lit_visible (by decide))]
    rfl
  · intro comment hcom stop hstop negated σ rest s
    exact signedFact_append hcom hstop e.isFact negated s

/-- What the atom `(c:t)` needs: a context that `uint_` reads, and a name without underscores. -/
lemma no_underscore_of_agree (h : Agree e) : e.ctx < 2 ^ 32 ∧ '_' ∉ e.entry.text := by
  obtain ⟨ctxID, hside⟩ : ∃ ctxID, e.signature = .localSignature ↔ ctxID = e.ctx := by
    cases hs : e.signature with
    | localSignature => exact ⟨e.ctx, by simp⟩
    | groundInputSignature => exact ⟨e.ctx + 1, by simp⟩
  obtain ⟨s', hs'⟩ := h.atom ctxID hside [] BridgeRuleGrammar.Semantics.init
  generalize hs : BridgeRuleGrammar.Semantics.init = s at hs'
  have hfail : ∀ r, bridgeAtom e.plan ctxID
      ('(' :: (decimal e.ctx ++ ':' :: (e.entry.text ++ ')' :: []))) s ≠ .failure r s := by
    intro r hr
    rw [hs'] at hr
    cases hr
  have hctx : e.ctx < 2 ^ 32 := by
    by_contra hlarge
    have hnumber : uint skip (decimal e.ctx ++ ':' :: (e.entry.text ++ ')' :: [])) s = _ :=
      uint_of_large (w := []) (by decide) (Nat.le_of_not_lt hlarge)
        ((noDigit_cons _ _).2 (by decide))
    apply hfail
    unfold bridgeAtom
    apply action_of_failure
    rw [bind_of_success (lit_visible (by decide)), bind_of_failure hnumber]
    rfl
  refine ⟨hctx, fun hunderscore => ?_⟩
  obtain ⟨p, as, hplain, htext⟩ := e.isAtomText
  rw [htext] at hunderscore
  obtain ⟨name, c, rest, hread, hc⟩ := belief_of_underscore hplain hunderscore [')'] s
  rw [← htext] at hread
  have hnumber : uint skip (decimal e.ctx ++ ':' :: (e.entry.text ++ ')' :: [])) s = _ :=
    uint_decimal (w := []) (by decide) hctx ((noDigit_cons _ _).2 (by decide))
  have hclose : (lit skip [')'] : Parser BridgeRuleGrammar.Semantics Unit) (c :: rest) s =
      .failure (c :: rest) s := by
    rcases hc with rfl | rfl
    · exact BridgeRuleGrammar.lit_of_head_ne (by decide) (by decide) []
    · exact BridgeRuleGrammar.lit_of_head_ne (by decide) (by decide) []
  apply hfail
  unfold bridgeAtom
  apply action_of_failure
  rw [bind_of_success (lit_visible (by decide)), bind_of_success hnumber,
    bind_of_success (lit_visible (by decide)), bind_of_success hread, bind_of_failure hclose]
  rfl

end Agreement

/-- The grammars agree on exactly the names without underscores, in contexts that `uint_` reads.
Without underscores both read the same identifier to its end; with one, only the plan's grammar
does. -/
theorem agree_iff_no_underscore (e : EnteredBelief) :
    Agree e ↔ e.ctx < 2 ^ 32 ∧ '_' ∉ e.entry.text :=
  ⟨no_underscore_of_agree, fun h => agree_of_no_underscore h.1 h.2⟩

/-- A query plan with the belief `a_b` in the local signature of its only context. -/
def underscorePlan : Text :=
  "[\x7bContextId:0,HostName:\"h\",Port:1,Constants:[a],LocalSignature:\x7b1:[a_b]\x7d,\x7d]".toList

/-- What is entered under a name, if the text is accepted and has it. -/
def findEntered (text : Text) (ctx : ℕ) (signature : Signature) (name : Text) :
    Option EnteredBelief :=
  match haccepted : QueryPlanGrammar.parseStream text with
  | .error _ => none
  | .ok plan =>
      match hlookup : plan.lookup ctx with
      | none => none
      | some qp =>
          match htable : signature.table qp with
          | none => none
          | some table =>
              match hentry : table.beliefs.find? (fun b => b.text = name) with
              | none => none
              | some entry =>
                  some ⟨text, plan, haccepted, ctx, qp, hlookup, signature, table, htable, entry,
                    List.mem_of_find?_eq_some hentry⟩

/-- The belief `a_b` is entered, and its name is not accepted in a bridge rule. -/
theorem grammars_disagree_on_underscore :
    ∃ e : EnteredBelief, e.text = underscorePlan ∧ e.entry.text = "a_b".toList ∧ ¬ Agree e := by
  have hfound : (findEntered underscorePlan 0 .localSignature "a_b".toList).map
      (fun e => (e.text, e.entry.text)) = some (underscorePlan, "a_b".toList) := by decide +kernel
  obtain ⟨e, -, heq⟩ := Option.map_eq_some_iff.1 hfound
  obtain ⟨htext, hname⟩ := Prod.mk.inj heq
  refine ⟨e, htext, hname, fun h => (no_underscore_of_agree h).2 ?_⟩
  rw [hname]
  decide

end BeliefNames

end Dmcs
