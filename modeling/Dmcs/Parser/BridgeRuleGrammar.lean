import Dmcs.Parser.QueryPlanGrammar

/-!
# Bridge rules and their parser (`BridgeRuleGrammar`)

A file of bridge rules is parsed against a query plan: the head of a rule is looked up in the local
signature of the context, an atom `(c:p)` in the local signature where `c` is the context itself and
in the input signature of `c` otherwise.  Every other context named in a body becomes a neighbour,
in the order of first occurrence.

The rules are kept in a table whose index over kind, head and body is unique (`hashed_unique`);
`storeAndGetID` asserts that the insertion succeeded.
-/

namespace Dmcs

/-- `BridgeRule` as the table stores it, with the packed ids; all rules the parser builds have the
kind of a bridge rule. -/
structure StoredBridgeRule where
  head : ID
  body : List ID
  deriving DecidableEq

/-- The rules in the order of their addresses. -/
structure BridgeRuleTable where
  rules : List StoredBridgeRule
  nodup : rules.Nodup

namespace BridgeRuleTable

def empty : BridgeRuleTable := ⟨[], List.nodup_nil⟩

lemma nodup_append {l : List StoredBridgeRule} {r : StoredBridgeRule} (hl : l.Nodup) (hr : r ∉ l) :
    (l ++ [r]).Nodup := by
  rw [← List.concat_eq_append]
  exact hl.concat hr

/-- `storeAndGetID`: the body must not be empty, and the insertion must succeed. -/
def storeAndGetID (t : BridgeRuleTable) (r : StoredBridgeRule) : Option BridgeRuleTable :=
  if h : r.body ≠ [] ∧ r ∉ t.rules then some ⟨t.rules ++ [r], nodup_append t.nodup h.2⟩ else none

end BridgeRuleTable

/-- `NewNeighbor`; the port is kept as a text. -/
structure NewNeighbor where
  neighbor_id : ℕ
  neighbor_offset : ℕ
  hostname : Text
  port : Text
  deriving DecidableEq

namespace BridgeRuleGrammar

open Qi BaseParser QueryPlanGrammar

/-! ## Semantic actions -/

/-- The part of `BridgeRuleGrammarSemantics` that changes. -/
structure Semantics where
  bridgeRules : BridgeRuleTable
  neighbors : List NewNeighbor
  neighborOffset : ℕ
  neighborIDs : List ℕ

def Semantics.init : Semantics := ⟨BridgeRuleTable.empty, [], 0, []⟩

/-- The port as a string stream prints it. -/
def portText (port : ℤ) : Text :=
  if 0 ≤ port then decimal port.toNat else '-' :: decimal (-port).toNat

/-- `passPredToBelief`. -/
def passPredToBelief (pred_name : Text) (terms : List Text) : Text := atomText (pred_name :: terms)

section Actions

variable (plan : List (ℕ × ContextQueryPlan)) (ctxID : ℕ)

/-- `getBridgeAtom`; the context must be in the plan and have the signature that is looked into. -/
def getBridgeAtom (source : ℕ × Text) (mgr : Semantics) : Option (Semantics × ID) := do
  let qp ← plan.lookup source.1
  if source.1 = ctxID then
    let table ← qp.localSignature
    some (mgr, table.getIDByString source.2)
  else
    let table ← qp.groundInputSignature
    let target := table.getIDByString source.2
    if source.1 ∈ mgr.neighborIDs then some (mgr, target)
    else
      some ({ mgr with
        neighbors := mgr.neighbors ++
          [⟨source.1, mgr.neighborOffset, qp.hostname, portText qp.port⟩]
        neighborOffset := mgr.neighborOffset + 1
        neighborIDs := mgr.neighborIDs ++ [source.1] }, target)

def getBridgeLiteral (source : Option Unit × ID) (mgr : Semantics) : Option (Semantics × ID) := do
  let target ← ID.literalFromBelief source.2 source.1.isSome
  some (mgr, target)

def getBridgeRule (source : Text × List ID) (mgr : Semantics) : Option (Semantics × Unit) := do
  let qp ← plan.lookup ctxID
  let table ← qp.localSignature
  let rules ← mgr.bridgeRules.storeAndGetID ⟨table.getIDByString source.1, source.2⟩
  some ({ mgr with bridgeRules := rules }, ())

end Actions

/-! ## The grammar -/

section Grammar

def ident : Parser Semantics Text :=
  alt (many1 (charIf skip isAlnum))
    (do
      let _ ← lit skip ['"']
      let name ← lexeme skip (many (charIf id (fun c => c.toNat < 128 && c ≠ '"')))
      let _ ← lit skip ['"']
      pure name)

def terms : Parser Semantics (List Text) := sepBy ident (lit skip [','])

def predicate : Parser Semantics (Text × List Text) := do
  let name ← ident
  let _ ← lit skip ['(']
  let ts ← terms
  let _ ← lit skip [')']
  pure (name, ts)

def belief : Parser Semantics Text :=
  alt ((fun p => passPredToBelief p.1 p.2) <$> predicate) ident

variable (plan : List (ℕ × ContextQueryPlan)) (ctxID : ℕ)

def bridgeAtom : Parser Semantics ID :=
  action (do
      let _ ← lit skip ['(']
      let ctx_id ← uint skip
      let _ ← lit skip [':']
      let b ← belief
      let _ ← lit skip [')']
      pure (ctx_id, b))
    (getBridgeAtom plan ctxID)

def bridgeLiteral : Parser Semantics ID :=
  action (do
      let naf ← opt (lit skip "not".toList)
      let atom ← bridgeAtom plan ctxID
      pure (naf, atom))
    getBridgeLiteral

def bridgeRule : Parser Semantics Unit :=
  action (do
      let head ← belief
      let _ ← lit skip ":-".toList
      let body ← sepBy (bridgeLiteral plan ctxID) (charIf skip (fun c => c = ','))
      let _ ← lit skip ['.']
      pure (head, body))
    (getBridgeRule plan ctxID)

def start : Parser Semantics (List Unit) := many (bridgeRule plan ctxID)

/-- `Parser::parseString` for bridge rules. -/
def parseString (str : Text) : Except ParseError (BridgeRuleTable × List NewNeighbor) :=
  (phraseParse skip (start plan ctxID) str Semantics.init).map
    (fun mgr => (mgr.bridgeRules, mgr.neighbors))

/-- `Parser::parseStream`. -/
def parseStream (input : Text) : Except ParseError (BridgeRuleTable × List NewNeighbor) :=
  parseString plan ctxID (input ++ ['\n'])

end Grammar

/-! ## Reading beliefs -/

/-- A name without quotes. -/
def IsName (t : Text) : Prop := t ≠ [] ∧ ∀ c ∈ t, isAlnum c = true

/-- The next character ends a name and is not skipped. -/
def NameEnds (r : Text) : Prop :=
  ∃ c cs, r = c :: cs ∧ isAlnum c = false ∧ isSpace c = false ∧ c ≠ '#'

section Reading

variable {s : Semantics} {t r w : Text}

lemma nameEnds_cons {c : Char} (hc : isAlnum c = false ∧ isSpace c = false ∧ c ≠ '#') :
    NameEnds (c :: r) := ⟨c, r, rfl, hc⟩

lemma NameEnds.skip_eq (hr : NameEnds r) : skip r = r := by
  obtain ⟨c, cs, rfl, -, hspace, hhash⟩ := hr
  exact skipper_of_visible hspace hhash

lemma skip_of_isAlnum {c : Char} (hc : isAlnum c = true) : skip (c :: r) = c :: r := by
  apply skipper_of_visible (isSpace_of_isAlnum hc)
  rintro rfl
  revert hc
  decide

/-- A name is read up to the character that ends it. -/
lemma ident_append (hw : IsBlank w) (ht : IsName t) (hr : NameEnds r) :
    ident (w ++ (t ++ r)) s = .success t r s := by
  obtain ⟨hne, halnum⟩ := ht
  obtain ⟨c, cs, rfl⟩ := List.exists_cons_of_ne_nil hne
  have hc : isAlnum c = true := halnum c List.mem_cons_self
  have hfirst : charIf skip isAlnum (w ++ (c :: cs ++ r)) s = .success c (cs ++ r) s :=
    charIf_of_test ((skipper_blanks hw).trans (skip_of_isAlnum hc)) hc
  have hmany : many (charIf skip isAlnum) (cs ++ r) s = .success cs r s := by
    have hstop : ∀ d ∈ (skip r).head?, isAlnum d = false := by
      rw [hr.skip_eq]
      obtain ⟨d, ds, rfl, hd, -⟩ := hr
      intro e he
      rw [List.head?_cons, Option.mem_some_iff] at he
      rw [← he]
      exact hd
    have h : many (charIf skip isAlnum) (cs ++ r) s = .success cs (skip r) s :=
      many_charIf (fun d r hd => skip_of_isAlnum hd)
        (fun d hd => halnum d (List.mem_cons_of_mem c hd)) hstop s
    rwa [hr.skip_eq] at h
  unfold ident
  apply alt_of_success
  unfold many1
  rw [bind_of_success hfirst, bind_of_success hmany]
  rfl

lemma lit_of_head_ne {c d : Char} (hd : isSpace d = false ∧ d ≠ '#') (hne : c ≠ d) (cs : Text) :
    lit skip (c :: cs) (d :: r) s = .failure (d :: r) s := by
  have hskip : skip (d :: r) = d :: r := skipper_of_visible hd.1 hd.2
  rw [lit_of_none (by rw [hskip]; exact if_neg hne), hskip]

/-- Arguments are read up to what is no further argument. -/
lemma terms_append {a : Text} {as : List Text} (has : ∀ x ∈ a :: as, IsName x) {c : Char}
    (hc : isAlnum c = false ∧ isSpace c = false ∧ c ≠ '#') (hcomma : ',' ≠ c) :
    terms (a ++ (as.flatMap (fun x => ',' :: x) ++ c :: r)) s =
      .success (a :: as) (c :: r) s := by
  have h : sepBy (ident : Parser Semantics Text) (lit skip [','])
      (id a ++ (as.flatMap (fun x => [','] ++ id x) ++ c :: r)) s =
      ofAction ((a :: as).map (fun x => x)) (c :: r)
        (((a :: as).foldlM (fun s _ => some s) s).map (fun s => s)) := by
    apply sepBy_texts NameEnds
    · intro x hx r s hr
      exact ident_append (w := []) (by decide) (has x hx) hr
    · exact fun r s => ⟨(), lit_comma r s⟩
    · exact List.cons_ne_nil _ _
    · exact fun r => nameEnds_cons (by decide)
    · exact nameEnds_cons hc
    · exact fun s => bind_of_failure (lit_of_head_ne hc.2 hcomma [])
  rw [foldlM_const, List.map_id'] at h
  exact h

lemma belief_of_predicate_failure {r' : Text} (h : predicate r s = .failure r' s) :
    belief r s = ident r' s := by
  unfold belief
  apply alt_of_failure
  rw [map_apply, h]
  rfl

/-- A name that no arguments follow is a belief. -/
lemma belief_name (hw : IsBlank w) (ht : IsName t) {c : Char}
    (hc : isAlnum c = false ∧ isSpace c = false ∧ c ≠ '#') (hparen : '(' ≠ c) :
    belief (w ++ (t ++ c :: r)) s = .success t (c :: r) s := by
  have hident := ident_append (s := s) hw ht (nameEnds_cons (r := r) hc)
  have hfail : predicate (w ++ (t ++ c :: r)) s = .failure (w ++ (t ++ c :: r)) s := by
    unfold predicate
    rw [bind_of_success hident, bind_of_failure (lit_of_head_ne hc.2 hparen [])]
    rfl
  rw [belief_of_predicate_failure hfail, hident]

/-- The text of an atom is read back. -/
lemma belief_atomText {p : Text} {as : List Text} (hw : IsBlank w)
    (hnames : ∀ x ∈ p :: as, IsName x) {c : Char}
    (hc : isAlnum c = false ∧ isSpace c = false ∧ c ≠ '#') (hparen : '(' ≠ c) :
    belief (w ++ (atomText (p :: as) ++ c :: r)) s = .success (atomText (p :: as)) (c :: r) s := by
  cases as with
  | nil => exact belief_name hw (hnames p List.mem_cons_self) hc hparen
  | cons a as =>
      have hpred : predicate (w ++ (p ++ '(' :: (a ++ (as.flatMap (fun x => ',' :: x) ++
          ')' :: (c :: r))))) s = .success (p, a :: as) (c :: r) s := by
        unfold predicate
        rw [bind_of_success (ident_append hw (hnames p List.mem_cons_self)
            (nameEnds_cons (by decide))),
          bind_of_success (lit_visible (by decide)),
          bind_of_success (terms_append (fun x hx => hnames x (List.mem_cons_of_mem p hx))
            (by decide) (by decide)),
          bind_of_success (lit_visible (by decide))]
        rfl
      have htext : w ++ (atomText (p :: a :: as) ++ c :: r) = w ++ (p ++ '(' :: (a ++
          (as.flatMap (fun x => ',' :: x) ++ ')' :: (c :: r)))) := by
        simp [atomText]
      rw [htext]
      unfold belief
      apply alt_of_success
      rw [map_apply, hpred]
      rfl

/-- No rule begins where only blanks and comments are left. -/
lemma bridgeRule_of_skip (plan : List (ℕ × ContextQueryPlan)) (ctxID : ℕ) (hw : skip w = [])
    (s : Semantics) : bridgeRule plan ctxID w s = .failure w s := by
  have hfirst : many1 (charIf skip isAlnum) w s = .failure w s :=
    bind_of_failure (charIf_of_not_test (by simp [hw]))
  have hident : ident w s = .failure w s := by
    unfold ident
    rw [alt_of_failure hfirst, bind_of_failure (lit_of_none (by rw [hw]; rfl))]
  have hbelief : belief w s = .failure w s := by
    have hpred : predicate w s = .failure w s := bind_of_failure hident
    rw [belief_of_predicate_failure hpred, hident]
  unfold bridgeRule
  exact action_of_failure (bind_of_failure hbelief)

end Reading

end BridgeRuleGrammar

end Dmcs
