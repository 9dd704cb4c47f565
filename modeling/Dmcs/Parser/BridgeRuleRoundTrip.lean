import Dmcs.Generator.ContextGenerator
import Dmcs.Parser.BridgeRuleGrammar

/-!
# Printing bridge rules and parsing them again

The rules the generator draws for a context are printed one per line and parsed against a query
plan in which the beliefs they mention stand.  `parseStream_written` says what comes out for
contexts that fit into the 16 bits an `ID` has for them: every rule is stored, every body context
other than the own one becomes a neighbour, and a rule that is drawn twice ends in the assertion of
`BridgeRuleTable::storeAndGetID`, because the index of the table is unique.

A body atom of the context itself (a ring with one context, or an additional edge of
`RingEdgeTopoGenerator`, which may lead back) is looked up in the local signature and gives no
neighbour.

## The argument

What the parser does with a rule that was written is a function on its state (`readRule`): it looks
up the head and the atoms of the body, adds a neighbour for each context that is new, and stores the
rule, unless it is there.  `parseStream_written` is the fold of this function over the rules; from
then on no text is involved.

A rule is told apart from the other rules of a context by what it denotes, so the table refuses a
rule exactly when it was drawn before (`denoteGenerated_injective`).
-/

namespace Dmcs

namespace BridgeRuleGrammar

open Qi BaseParser QueryPlanGrammar ContextGenerator ContextGeneratorBase

/-! ## What rules denote -/

/-- Head, positive body and negated body of a rule. -/
abbrev Denotation : Type := List BridgeAtom × List BridgeAtom × List BridgeAtom

/-- The context and the address an id names. -/
def atomOf (id : ID) : BridgeAtom := (id.contextID.toNat, id.address)

def denoteStored (r : StoredBridgeRule) : Denotation :=
  ([atomOf r.head], (r.body.filter (fun l => !l.isNaf)).map atomOf,
    (r.body.filter ID.isNaf).map atomOf)

def denoteGenerated (id : ℕ) (r : GenBridgeRule) : Denotation :=
  (r.head.map (fun h => (id, h)), r.positiveBody, r.negativeBody)

/-- The contexts of the bodies of rules, as they are printed. -/
def bodyContexts (rules : List GenBridgeRule) : List ℕ :=
  rules.flatMap (fun r => r.bodyAtoms.map Prod.fst)

/-- A query plan in which the beliefs of the rules stand: those of the context in its local
signature, those of another context in its input signature. -/
structure MatchingPlan (id : ℕ) (rules : List GenBridgeRule) where
  plan : List (ℕ × ContextQueryPlan)
  own : ContextQueryPlan
  localSignature : BeliefTable
  lookup_own : plan.lookup id = some own
  own_signature : own.localSignature = some localSignature
  head_mem : ∀ r ∈ rules, ∀ h ∈ r.head,
    Belief.ofContext id h (beliefName id h) ∈ localSignature.beliefs
  own_mem : ∀ r ∈ rules, ∀ a ∈ r.bodyAtoms, a.1 = id →
    Belief.ofContext a.1 a.2 (beliefName a.1 a.2) ∈ localSignature.beliefs
  neighbor_mem : ∀ r ∈ rules, ∀ a ∈ r.bodyAtoms, a.1 ≠ id → ∃ qp table,
    plan.lookup a.1 = some qp ∧ qp.groundInputSignature = some table ∧
      Belief.ofContext a.1 a.2 (beliefName a.1 a.2) ∈ table.beliefs

/-- The text written for the rules is parsed without a failing assertion; the rules stored denote
the rules written, and the neighbours are the body contexts with their numbers. -/
def RoundTrip (g : ContextGeneratorBase) (id : ℕ) (rules : List GenBridgeRule)
    (plan : List (ℕ × ContextQueryPlan)) : Prop :=
  ∃ text table neighbors, g.writeBridgeRules id rules = some text ∧
    parseStream plan id text = .ok (table, neighbors) ∧
    (∀ d, d ∈ table.rules.map denoteStored ↔ d ∈ rules.map (denoteGenerated id)) ∧
    neighbors.map NewNeighbor.neighbor_id = (bodyContexts rules).eraseDups ∧
    neighbors.map NewNeighbor.neighbor_offset = List.range neighbors.length

/-! ## Names of beliefs -/

lemma isAlnum_of_isDigit {c : Char} (hc : c.isDigit = true) : isAlnum c = true := by
  simp [isAlnum, hc]

lemma isAlnum_decimal (n : ℕ) : ∀ c ∈ decimal n, isAlnum c = true := by
  intro c hc
  exact isAlnum_of_isDigit (Nat.isDigit_of_mem_toDigits (by decide) (by decide) hc)

lemma isName_beliefName (i j : ℕ) : IsName (beliefName i j) := by
  refine ⟨beliefName_ne_nil i j, ?_⟩
  cases j with
  | zero => exact List.all_eq_true.1 (by decide : "epsilon".toList.all isAlnum = true)
  | succ j =>
      intro c hc
      unfold beliefName at hc
      simp only [List.mem_cons, List.mem_append] at hc
      rcases hc with rfl | hc | rfl | hc
      · decide
      · exact isAlnum_decimal i c hc
      · decide
      · exact isAlnum_decimal (j + 1) c hc

/-! ## Reading one rule -/

section Rule

variable {id : ℕ} {rules : List GenBridgeRule} (P : MatchingPlan id rules)

/-- A body context that is not known yet becomes a neighbour. -/
def readContext (s : Semantics) (c : ℕ) : Semantics :=
  if c = id ∨ c ∈ s.neighborIDs then s
  else
    match P.plan.lookup c with
    | none => s
    | some qp =>
        { s with
          neighbors := s.neighbors ++ [⟨c, s.neighborOffset, qp.hostname, portText qp.port⟩]
          neighborOffset := s.neighborOffset + 1
          neighborIDs := s.neighborIDs ++ [c] }

def storedLiteral (l : Bool × BridgeAtom) : ID := Belief.literal l.2.1 l.2.2 l.1

def storedRule (id : ℕ) (r : GenBridgeRule) : StoredBridgeRule :=
  ⟨⟨Belief.kindOf id, r.head.headD 0⟩, r.literals.map storedLiteral⟩

def readBody (s : Semantics) (r : GenBridgeRule) : Semantics :=
  r.literals.foldl (fun s l => readContext P s l.2.1) s

/-- What a rule does to the state; none when it cannot be stored. -/
def readRule (s : Semantics) (r : GenBridgeRule) : Option Semantics :=
  ((readBody P s r).bridgeRules.storeAndGetID (storedRule id r)).map
    (fun table => { readBody P s r with bridgeRules := table })

variable {P}

lemma getBridgeAtom_eq {r : GenBridgeRule} (hr : r ∈ rules) {a : BridgeAtom} (ha : a ∈ r.bodyAtoms)
    (s : Semantics) :
    getBridgeAtom P.plan id (a.1, beliefName a.1 a.2) s =
      some (readContext P s a.1, ⟨Belief.kindOf a.1, a.2⟩) := by
  unfold getBridgeAtom readContext
  by_cases hown : a.1 = id
  · have hid := BeliefTable.getIDByString_of_mem (P.own_mem r hr a ha hown)
    rw [if_pos (Or.inl hown)]
    rw [hown] at hid
    simp only [hown, P.lookup_own, P.own_signature, Option.bind_eq_bind, Option.bind_some, if_true]
    exact congrArg (fun i => some (s, i)) hid
  · obtain ⟨qp, table, hlookup, htable, hmem⟩ := P.neighbor_mem r hr a ha hown
    have hid : table.getIDByString (beliefName a.1 a.2) = ⟨Belief.kindOf a.1, a.2⟩ :=
      BeliefTable.getIDByString_of_mem hmem
    simp only [hlookup, htable, Option.bind_eq_bind, Option.bind_some, hown, if_false, false_or,
      hid]
    split
    · rfl
    · rfl

lemma bridgeAtom_append {r : GenBridgeRule} (hr : r ∈ rules) {a : BridgeAtom}
    (ha : a ∈ r.bodyAtoms) (hsmall : a.1 < 2 ^ 16) {w : Text} (hw : IsBlank w) (rest : Text)
    (s : Semantics) :
    bridgeAtom P.plan id
        (w ++ '(' :: (decimal a.1 ++ ':' :: (beliefName a.1 a.2 ++ ')' :: rest))) s =
      .success ⟨Belief.kindOf a.1, a.2⟩ rest (readContext P s a.1) := by
  have hctx : uint skip (decimal a.1 ++ ':' :: (beliefName a.1 a.2 ++ ')' :: rest)) s =
      .success a.1 (':' :: (beliefName a.1 a.2 ++ ')' :: rest)) s :=
    uint_decimal (w := []) (by decide) (by omega) ((noDigit_cons _ _).2 (by decide))
  have hname : belief (beliefName a.1 a.2 ++ ')' :: rest) s =
      .success (beliefName a.1 a.2) (')' :: rest) s :=
    belief_name (w := []) (by decide) (isName_beliefName a.1 a.2) (by decide) (by decide)
  unfold bridgeAtom
  rw [action_of_success (a := (a.1, beliefName a.1 a.2)) (r := rest) (u := s),
    getBridgeAtom_eq hr ha]
  rw [bind_of_success (lit_blank hw (by decide)), bind_of_success hctx,
    bind_of_success (lit_visible (by decide)), bind_of_success hname,
    bind_of_success (lit_visible (by decide))]
  rfl

lemma mem_bodyAtoms_of_mem_literals {r : GenBridgeRule} {l : Bool × BridgeAtom}
    (hl : l ∈ r.literals) : l.2 ∈ r.bodyAtoms := by
  unfold GenBridgeRule.literals at hl
  unfold GenBridgeRule.bodyAtoms
  rcases List.mem_append.1 hl with h | h
  · obtain ⟨a, ha, rfl⟩ := List.mem_map.1 h
    exact List.mem_append_left _ ha
  · obtain ⟨a, ha, rfl⟩ := List.mem_map.1 h
    exact List.mem_append_right _ ha

lemma bridgeLiteral_append {r : GenBridgeRule} (hr : r ∈ rules) {l : Bool × BridgeAtom}
    (hl : l ∈ r.literals) (hsmall : l.2.1 < 2 ^ 16) (rest : Text) (s : Semantics) :
    bridgeLiteral P.plan id (' ' :: literalText l.1 l.2 ++ rest) s =
      .success (storedLiteral l) rest (readContext P s l.2.1) := by
  have hatom : ∀ {w}, IsBlank w → bridgeAtom P.plan id
      (w ++ '(' :: (decimal l.2.1 ++ ':' :: (beliefName l.2.1 l.2.2 ++ ')' :: rest))) s =
      .success ⟨Belief.kindOf l.2.1, l.2.2⟩ rest (readContext P s l.2.1) :=
    fun hw => bridgeAtom_append hr (mem_bodyAtoms_of_mem_literals hl) hsmall hw rest s
  have haction : ∀ naf : Option Unit, naf.isSome = l.1 →
      getBridgeLiteral (naf, ⟨Belief.kindOf l.2.1, l.2.2⟩) (readContext P s l.2.1) =
        some (readContext P s l.2.1, storedLiteral l) := by
    intro naf hnaf
    unfold getBridgeLiteral
    rw [hnaf, Belief.literalFromBelief_kindOf]
    rfl
  obtain ⟨naf, a⟩ := l
  unfold bridgeLiteral
  cases naf with
  | true =>
      have hnot : opt (lit skip "not".toList) (' ' :: literalText true a ++ rest) s =
          .success (some ()) (" ".toList ++ '(' :: (decimal a.1 ++ ':' :: (beliefName a.1 a.2 ++
            ')' :: rest))) s := by
        apply opt_of_success
        apply lit_of_skip
        unfold literalText
        simp only [if_true, List.cons_append, List.append_assoc, List.nil_append]
        rfl
      rw [action_of_success (a := (some (), ⟨Belief.kindOf a.1, a.2⟩)) (r := rest)
        (u := readContext P s a.1), haction (some ()) rfl]
      rw [bind_of_success hnot, bind_of_success (hatom (by decide))]
      rfl
  | false =>
      have hnot : opt (lit skip "not".toList) (' ' :: literalText false a ++ rest) s =
          .success none ('(' :: (decimal a.1 ++ ':' :: (beliefName a.1 a.2 ++ ')' :: rest))) s := by
        apply opt_of_failure
        unfold literalText
        simp only [Bool.false_eq_true, if_false, List.cons_append, List.append_assoc,
          List.nil_append]
        exact lit_of_none rfl
      rw [action_of_success (a := (none, ⟨Belief.kindOf a.1, a.2⟩)) (r := rest)
        (u := readContext P s a.1), haction none rfl]
      have hatom' : bridgeAtom P.plan id
          ('(' :: (decimal a.1 ++ ':' :: (beliefName a.1 a.2 ++ ')' :: rest))) s = _ :=
        hatom (w := []) (by decide)
      rw [bind_of_success hnot, bind_of_success hatom']
      rfl

/-- The literals of a body, with the dot after them. -/
lemma body_append {r : GenBridgeRule} (hr : r ∈ rules) (hne : r.bodyAtoms ≠ [])
    (hsmall : ∀ a ∈ r.bodyAtoms, a.1 < 2 ^ 16) (rest : Text) (s : Semantics) :
    sepBy (bridgeLiteral P.plan id) (charIf skip (fun c => c = ','))
      (' ' :: joined ", ".toList (r.literals.map (fun l => literalText l.1 l.2)) ++ '.' :: rest) s =
      .success (r.literals.map storedLiteral) ('.' :: rest) (readBody P s r) := by
  have hliterals : r.literals ≠ [] := by
    intro hnil
    apply hne
    unfold GenBridgeRule.literals at hnil
    unfold GenBridgeRule.bodyAtoms
    rw [List.append_eq_nil_iff, List.map_eq_nil_iff, List.map_eq_nil_iff] at hnil
    rw [hnil.1, hnil.2, List.append_nil]
  have hread : ∀ l ∈ r.literals, ∀ rest s, True →
      bridgeLiteral P.plan id (' ' :: literalText l.1 l.2 ++ rest) s =
        ofAction (storedLiteral l) rest (some (readContext P s l.2.1)) := by
    intro l hl rest s _
    exact bridgeLiteral_append hr hl (hsmall _ (mem_bodyAtoms_of_mem_literals hl)) rest s
  unfold readBody
  obtain ⟨l, ls, hcons⟩ := List.exists_cons_of_ne_nil hliterals
  rw [hcons] at hread ⊢
  have htext : ' ' :: joined ", ".toList ((l :: ls).map (fun l => literalText l.1 l.2)) ++
      '.' :: rest = (' ' :: literalText l.1 l.2) ++
        (ls.flatMap (fun l => [','] ++ (' ' :: literalText l.1 l.2)) ++ '.' :: rest) := by
    rw [List.map_cons, joined, List.flatMap_map]
    simp only [List.cons_append, List.append_assoc, List.nil_append]
    rfl
  have hsep : sepBy (bridgeLiteral P.plan id) (charIf skip (fun c => c = ','))
      ((' ' :: literalText l.1 l.2) ++
        (ls.flatMap (fun l => [','] ++ (' ' :: literalText l.1 l.2)) ++ '.' :: rest)) s =
      ofAction ((l :: ls).map storedLiteral) ('.' :: rest)
        (((l :: ls).foldlM (fun s l => some (readContext P s l.2.1)) s).map (fun s => s)) := by
    apply sepBy_texts (fun _ => True) l ls hread
    · exact fun r s => ⟨',', charIf_of_test (skipper_of_visible (by decide) (by decide)) (by simp)⟩
    · exact List.cons_ne_nil _ _
    · exact fun _ => trivial
    · trivial
    · intro s
      have hskip : skip ('.' :: rest) = '.' :: rest := skipper_of_visible (by decide) (by decide)
      exact bind_of_failure (charIf_of_not_test (by simp [hskip]))
  rw [htext, hsep, Option.map_id', foldlM_some]
  rfl

lemma bridgeRule_append {g : ContextGeneratorBase} {r : GenBridgeRule} (hr : r ∈ rules)
    (hgen : g.IsGenerated id r) (hsmall : ∀ a ∈ r.bodyAtoms, a.1 < 2 ^ 16) {w : Text}
    (hw : IsBlank w) (rest : Text) (s : Semantics) :
    bridgeRule P.plan id (w ++ ruleText id r ++ rest) s = ofAction () rest (readRule P s r) := by
  obtain ⟨h, -, hhead⟩ := hgen.head
  have htext : w ++ ruleText id r ++ rest = w ++ (beliefName id h ++ ':' :: '-' ::
      (' ' :: joined ", ".toList (r.literals.map (fun l => literalText l.1 l.2)) ++
        '.' :: rest)) := by
    unfold ruleText
    rw [hhead]
    simp only [List.map_cons, List.map_nil, joined, List.flatMap_nil, List.append_nil,
      List.append_assoc]
    rfl
  have hname : belief (w ++ (beliefName id h ++ ':' :: '-' ::
      (' ' :: joined ", ".toList (r.literals.map (fun l => literalText l.1 l.2)) ++
        '.' :: rest))) s = _ :=
    belief_name hw (isName_beliefName id h) (by decide) (by decide)
  have hid : P.localSignature.getIDByString (beliefName id h) = ⟨Belief.kindOf id, h⟩ :=
    BeliefTable.getIDByString_of_mem
      (P.head_mem r hr h (by rw [hhead]; exact List.mem_singleton_self h))
  rw [htext]
  unfold bridgeRule
  rw [action_of_success (a := (beliefName id h, r.literals.map storedLiteral)) (r := rest)
    (u := readBody P s r)]
  · unfold getBridgeRule readRule storedRule
    simp only [P.lookup_own, P.own_signature, Option.bind_eq_bind, Option.bind_some, hid, hhead,
      List.headD_cons]
    cases (readBody P s r).bridgeRules.storeAndGetID
      ⟨⟨Belief.kindOf id, h⟩, r.literals.map storedLiteral⟩ with
    | none => rfl
    | some table => rfl
  · have hneck : ∀ rest s, (lit skip ":-".toList : Parser Semantics Unit) (':' :: '-' :: rest) s =
        .success () rest s :=
      fun rest s => lit_of_skip (t := ":-".toList)
        (skipper_of_visible (r := '-' :: rest) (by decide) (by decide))
    rw [bind_of_success hname, bind_of_success (hneck _ s),
      bind_of_success (body_append hr hgen.body_ne hsmall rest s),
      bind_of_success (lit_visible (by decide))]
    rfl

/-! ## Reading the file -/

lemma bridgeRule_of_blank (s : Semantics) {w : Text} (hw : IsBlank w) :
    bridgeRule P.plan id w s = .failure w s := by
  apply bridgeRule_of_skip
  rw [← List.append_nil w]
  exact skipper_blanks hw

/-- The rules of a file are read one after the other, each but the first after the end of the line
before it. -/
lemma start_append {g : ContextGeneratorBase} {rs : List GenBridgeRule} (hsub : ∀ r ∈ rs, r ∈ rules)
    (hgen : ∀ r ∈ rs, g.IsGenerated id r)
    (hsmall : ∀ r ∈ rs, ∀ a ∈ r.bodyAtoms, a.1 < 2 ^ 16) (s : Semantics) :
    ∃ attrs rest, start P.plan id (rs.flatMap (fun r => ruleText id r ++ ['\n']) ++ ['\n']) s =
      ofAction attrs rest (rs.foldlM (readRule P) s) ∧ skip rest = [] := by
  have hline : IsBlank ['\n'] := by decide
  cases rs with
  | nil => exact ⟨[], ['\n'], many_of_failure (bridgeRule_of_blank s hline), rfl⟩
  | cons r rs =>
      -- a line end is read with the rule after it
      let lines : List (Text × GenBridgeRule) := ([], r) :: rs.map (fun r => (['\n'], r))
      have htext : (r :: rs).flatMap (fun r => ruleText id r ++ ['\n']) ++ ['\n'] =
          lines.flatMap (fun x => x.1 ++ ruleText id x.2) ++ ['\n', '\n'] := by
        have hshift : ∀ rs : List GenBridgeRule,
            '\n' :: rs.flatMap (fun r => ruleText id r ++ ['\n']) =
              rs.flatMap (fun r => '\n' :: ruleText id r) ++ ['\n'] := by
          intro rs
          induction rs with
          | nil => rfl
          | cons r rs ih =>
              simp only [List.flatMap_cons, List.append_assoc, List.cons_append, List.nil_append]
              rw [ih]
        simp only [lines, List.flatMap_cons, List.flatMap_map, List.nil_append, List.append_assoc,
          List.cons_append]
        rw [← List.cons_append, hshift rs, List.append_assoc]
        rfl
      have hlines : ∀ x ∈ lines, IsBlank x.1 ∧ x.2 ∈ r :: rs := by
        intro x hx
        rcases List.mem_cons.1 hx with rfl | hx
        · exact ⟨fun c hc => absurd hc List.not_mem_nil, List.mem_cons_self⟩
        · obtain ⟨r', hr', rfl⟩ := List.mem_map.1 hx
          exact ⟨hline, List.mem_cons_of_mem r hr'⟩
      have hmany : start P.plan id (lines.flatMap (fun x => x.1 ++ ruleText id x.2) ++
          ['\n', '\n']) s = ofAction (lines.map (fun _ => ())) ['\n', '\n']
            (lines.foldlM (fun s x => readRule P s x.2) s) := by
        apply many_texts (fun _ => True)
        · intro x hx rest s _
          obtain ⟨hblank, hmem⟩ := hlines x hx
          exact bridgeRule_append (hsub _ hmem) (hgen _ hmem) (hsmall _ hmem) hblank rest s
        · intro x _
          refine ⟨?_, fun _ => trivial⟩
          unfold ruleText
          simp
        · trivial
        · exact fun s => bridgeRule_of_blank s (by decide)
      have hfold : lines.foldlM (fun s x => readRule P s x.2) s =
          (r :: rs).foldlM (readRule P) s := by
        simp only [lines, List.foldlM_cons, List.foldlM_map]
      rw [hfold] at hmany
      exact ⟨_, _, by rw [htext, hmany], rfl⟩

/-! ## What the state holds afterwards -/

/-- The neighbours of a state are the contexts read so far, without the own one. -/
structure NeighborsOf (id : ℕ) (ctxs : List ℕ) (s : Semantics) : Prop where
  ids : s.neighborIDs = (ctxs.filter (fun c => c ≠ id)).eraseDups
  neighbor_id : s.neighbors.map NewNeighbor.neighbor_id = s.neighborIDs
  neighbor_offset : s.neighbors.map NewNeighbor.neighbor_offset = List.range s.neighborOffset
  offset_eq : s.neighborOffset = s.neighbors.length

lemma neighborsOf_init (id : ℕ) : NeighborsOf id [] Semantics.init := ⟨rfl, rfl, rfl, rfl⟩

/-- Appending to a list without repetitions. -/
lemma eraseDups_concat (l : List ℕ) (c : ℕ) :
    (l ++ [c]).eraseDups = if c ∈ l then l.eraseDups else l.eraseDups ++ [c] := by
  rw [List.eraseDups_append]
  by_cases hc : c ∈ l
  · simp [List.removeAll, hc]
  · simp [List.removeAll, hc, List.eraseDups_cons]

lemma NeighborsOf.readContext {ctxs : List ℕ} {s : Semantics} {c : ℕ} (h : NeighborsOf id ctxs s)
    (hc : c ≠ id → (P.plan.lookup c).isSome = true) :
    NeighborsOf id (ctxs ++ [c]) (readContext P s c) := by
  unfold BridgeRuleGrammar.readContext
  have hmem : c ∈ s.neighborIDs ↔ c ∈ ctxs.filter (fun c => c ≠ id) := by
    rw [h.ids, List.mem_eraseDups]
  by_cases hown : c = id
  · rw [if_pos (Or.inl hown)]
    refine ⟨?_, h.neighbor_id, h.neighbor_offset, h.offset_eq⟩
    have hnone : [c].filter (fun c => c ≠ id) = [] := by simp [hown]
    rw [h.ids, List.filter_append, hnone, List.append_nil]
  · have hids : ((ctxs ++ [c]).filter (fun c => c ≠ id)).eraseDups =
        if c ∈ s.neighborIDs then s.neighborIDs else s.neighborIDs ++ [c] := by
      have hone : [c].filter (fun c => c ≠ id) = [c] := by simp [hown]
      rw [List.filter_append, hone, eraseDups_concat, ← h.ids]
      exact if_congr hmem.symm rfl rfl
    by_cases hknown : c ∈ s.neighborIDs
    · rw [if_pos (Or.inr hknown)]
      rw [if_pos hknown] at hids
      exact ⟨hids.symm, h.neighbor_id, h.neighbor_offset, h.offset_eq⟩
    · rw [if_neg (not_or.2 ⟨hown, hknown⟩)]
      rw [if_neg hknown] at hids
      obtain ⟨qp, hqp⟩ := Option.isSome_iff_exists.1 (hc hown)
      rw [hqp]
      refine ⟨hids.symm, ?_, ?_, ?_⟩
      · rw [List.map_append, h.neighbor_id]
        rfl
      · rw [List.map_append, h.neighbor_offset, List.range_succ]
        rfl
      · rw [List.length_append, h.offset_eq]
        rfl

lemma map_literals_fst (r : GenBridgeRule) :
    r.literals.map (fun l => l.2.1) = r.bodyAtoms.map Prod.fst := by
  unfold GenBridgeRule.literals GenBridgeRule.bodyAtoms
  rw [List.map_append, List.map_map, List.map_map, List.map_append]
  rfl

/-- A body adds its contexts and leaves the rules alone. -/
lemma NeighborsOf.readBody {ctxs : List ℕ} {s : Semantics} {r : GenBridgeRule} (hr : r ∈ rules)
    (h : NeighborsOf id ctxs s) :
    NeighborsOf id (ctxs ++ r.bodyAtoms.map Prod.fst) (readBody P s r) ∧
      (readBody P s r).bridgeRules = s.bridgeRules := by
  have hlookup : ∀ l ∈ r.literals, l.2.1 ≠ id → (P.plan.lookup l.2.1).isSome = true := by
    intro l hl hne
    obtain ⟨qp, -, hqp, -⟩ := P.neighbor_mem r hr l.2 (mem_bodyAtoms_of_mem_literals hl) hne
    rw [hqp]
    rfl
  rw [← map_literals_fst]
  unfold BridgeRuleGrammar.readBody
  generalize r.literals = ls at hlookup
  induction ls generalizing ctxs s with
  | nil =>
      rw [List.map_nil, List.append_nil]
      exact ⟨h, rfl⟩
  | cons l ls ih =>
      have hstep := h.readContext (P := P) (hlookup l List.mem_cons_self)
      obtain ⟨hneighbors, hrules⟩ := ih hstep (fun x hx => hlookup x (List.mem_cons_of_mem l hx))
      rw [List.append_assoc] at hneighbors
      refine ⟨hneighbors, hrules.trans ?_⟩
      unfold BridgeRuleGrammar.readContext
      split
      · rfl
      · split
        · rfl
        · rfl

/-- Rules that are not stored twice are all stored; otherwise the assertion fails. -/
lemma foldlM_readRule {rs : List GenBridgeRule} (hsub : ∀ r ∈ rs, r ∈ rules)
    (hne : ∀ r ∈ rs, r.bodyAtoms ≠ []) {ctxs : List ℕ} {s : Semantics} (h : NeighborsOf id ctxs s) :
    if (s.bridgeRules.rules ++ rs.map (storedRule id)).Nodup then
      ∃ s', rs.foldlM (readRule P) s = some s' ∧ NeighborsOf id (ctxs ++ bodyContexts rs) s' ∧
        s'.bridgeRules.rules = s.bridgeRules.rules ++ rs.map (storedRule id)
    else rs.foldlM (readRule P) s = none := by
  induction rs generalizing ctxs s with
  | nil =>
      rw [List.map_nil, List.append_nil, if_pos s.bridgeRules.nodup]
      exact ⟨s, rfl, by simpa [bodyContexts] using h, rfl⟩
  | cons r rs ih =>
      obtain ⟨hneighbors, hrules⟩ := h.readBody (P := P) (hsub r List.mem_cons_self)
      have hbody : (storedRule id r).body ≠ [] := by
        have hlen := congrArg List.length (map_literals_fst r)
        rw [List.length_map, List.length_map] at hlen
        intro hnil
        have hnil' := List.map_eq_nil_iff.1 hnil
        rw [hnil', List.length_nil] at hlen
        exact hne r List.mem_cons_self (List.length_eq_zero_iff.1 hlen.symm)
      rw [List.foldlM_cons]
      by_cases hstored : storedRule id r ∈ s.bridgeRules.rules
      · have hfail : readRule P s r = none := by
          unfold readRule BridgeRuleTable.storeAndGetID
          rw [hrules, dif_neg (fun hcon => hcon.2 hstored)]
          rfl
        have hdup : ¬ (s.bridgeRules.rules ++ (r :: rs).map (storedRule id)).Nodup := by
          intro hnodup
          exact (List.nodup_append.1 hnodup).2.2 _ hstored _
            (by rw [List.map_cons]; exact List.mem_cons_self) rfl
        rw [if_neg hdup, hfail]
        rfl
      · obtain ⟨s', hs', hs'rules, hs'neighbors⟩ : ∃ s', readRule P s r = some s' ∧
            s'.bridgeRules.rules = s.bridgeRules.rules ++ [storedRule id r] ∧
            NeighborsOf id (ctxs ++ r.bodyAtoms.map Prod.fst) s' := by
          unfold readRule BridgeRuleTable.storeAndGetID
          rw [hrules, dif_pos ⟨hbody, hstored⟩]
          exact ⟨_, rfl, rfl, hneighbors.ids, hneighbors.neighbor_id, hneighbors.neighbor_offset,
            hneighbors.offset_eq⟩
        have hrest := ih (fun x hx => hsub x (List.mem_cons_of_mem r hx))
          (fun x hx => hne x (List.mem_cons_of_mem r hx)) hs'neighbors
        rw [hs'rules, List.append_assoc] at hrest
        rw [hs']
        unfold bodyContexts at hrest ⊢
        rw [List.append_assoc] at hrest
        exact hrest

/-- What the parser makes of the rules that are written for contexts that fit into an id. -/
lemma parseStream_written {g : ContextGeneratorBase} (hgen : ∀ r ∈ rules, g.IsGenerated id r)
    (hsmall : ∀ r ∈ rules, ∀ a ∈ r.bodyAtoms, a.1 < 2 ^ 16) :
    if (rules.map (storedRule id)).Nodup then
      ∃ table neighbors, parseStream P.plan id (rules.flatMap (fun r => ruleText id r ++ ['\n'])) =
          .ok (table, neighbors) ∧ table.rules = rules.map (storedRule id) ∧
        neighbors.map NewNeighbor.neighbor_id =
          ((bodyContexts rules).filter (fun c => c ≠ id)).eraseDups ∧
        neighbors.map NewNeighbor.neighbor_offset = List.range neighbors.length
    else parseStream P.plan id (rules.flatMap (fun r => ruleText id r ++ ['\n'])) =
      .error .aborted := by
  obtain ⟨attrs, rest, hstart, hrest⟩ :=
    start_append (P := P) (fun r hr => hr) hgen hsmall Semantics.init
  have hfold := foldlM_readRule (P := P) (fun r hr => hr) (fun r hr => (hgen r hr).body_ne)
    (neighborsOf_init id)
  have hinit : Semantics.init.bridgeRules.rules = [] := rfl
  unfold parseStream parseString phraseParse
  rw [hstart]
  rw [hinit, List.nil_append] at hfold
  by_cases hnodup : (rules.map (storedRule id)).Nodup
  · rw [if_pos hnodup] at hfold ⊢
    obtain ⟨s', hs', hneighbors, hrules⟩ := hfold
    rw [List.nil_append] at hneighbors
    refine ⟨s'.bridgeRules, s'.neighbors, ?_, hrules,
      hneighbors.neighbor_id.trans hneighbors.ids, ?_⟩
    · rw [hs', ofAction_some]
      show Except.map _
        (if skip rest = [] then Except.ok s' else Except.error ParseError.failed) = _
      rw [if_pos hrest]
      rfl
    · rw [hneighbors.neighbor_offset, hneighbors.offset_eq]
  · rw [if_neg hnodup] at hfold ⊢
    rw [hfold]
    rfl

end Rule

/-! ## The round trip -/

section RoundTrip

variable {id : ℕ} {rules : List GenBridgeRule}

lemma denoteStored_storedRule {g : ContextGeneratorBase} {r : GenBridgeRule}
    (hr : g.IsGenerated id r) (hid : id < 2 ^ 16) (hsmall : ∀ a ∈ r.bodyAtoms, a.1 < 2 ^ 16) :
    denoteStored (storedRule id r) = denoteGenerated id r := by
  obtain ⟨h, -, hhead⟩ := hr.head
  have hatom : ∀ a : BridgeAtom, a.1 < 2 ^ 16 → ∀ naf, atomOf (Belief.literal a.1 a.2 naf) = a :=
    fun a ha naf => Prod.ext (Belief.contextID_literal ha a.2 naf) rfl
  have hheadID : atomOf ⟨Belief.kindOf id, h⟩ = (id, h) := by
    have hfalse := hatom (id, h) hid false
    unfold Belief.literal at hfalse
    rwa [if_neg Bool.false_ne_true, BitVec.or_zero] at hfalse
  -- the literals of one sign are kept, those of the other dropped
  have hkeep : ∀ (naf : Bool) (p : ID → Bool) (body : List BridgeAtom),
      (∀ a : BridgeAtom, p (Belief.literal a.1 a.2 naf) = true) →
      (body.map (fun a => Belief.literal a.1 a.2 naf)).filter p =
        body.map (fun a => Belief.literal a.1 a.2 naf) := by
    intro naf p body hp
    apply List.filter_eq_self.2
    intro l hl
    obtain ⟨a, -, rfl⟩ := List.mem_map.1 hl
    exact hp a
  have hdrop : ∀ (naf : Bool) (p : ID → Bool) (body : List BridgeAtom),
      (∀ a : BridgeAtom, p (Belief.literal a.1 a.2 naf) = false) →
      (body.map (fun a => Belief.literal a.1 a.2 naf)).filter p = [] := by
    intro naf p body hp
    apply List.filter_eq_nil_iff.2
    intro l hl
    obtain ⟨a, -, rfl⟩ := List.mem_map.1 hl
    rw [hp a]
    exact Bool.false_ne_true
  have hback : ∀ (naf : Bool) (body : List BridgeAtom), (∀ a ∈ body, a.1 < 2 ^ 16) →
      (body.map (fun a => Belief.literal a.1 a.2 naf)).map atomOf = body := by
    intro naf body hbody
    rw [List.map_map]
    exact (List.map_congr_left (fun a ha => hatom a (hbody a ha) naf)).trans (List.map_id _)
  have hliterals : r.literals.map storedLiteral =
      r.positiveBody.map (fun a => Belief.literal a.1 a.2 false) ++
        r.negativeBody.map (fun a => Belief.literal a.1 a.2 true) := by
    unfold GenBridgeRule.literals
    rw [List.map_append, List.map_map, List.map_map]
    rfl
  have hnaf : ∀ naf (a : BridgeAtom), (Belief.literal a.1 a.2 naf).isNaf = naf :=
    fun naf a => Belief.isNaf_literal a.2 naf
  unfold denoteStored storedRule denoteGenerated
  simp only [hliterals, List.filter_append, hhead, List.headD_cons, hheadID, List.map_cons,
    List.map_nil]
  rw [hkeep false _ _ (fun a => by rw [hnaf]; rfl), hdrop true _ _ (fun a => by rw [hnaf]; rfl),
    hkeep true _ _ (hnaf true), hdrop false _ _ (hnaf false), List.append_nil, List.nil_append,
    hback false _ (fun a ha => hsmall a (List.mem_append_left _ ha)),
    hback true _ (fun a ha => hsmall a (List.mem_append_right _ ha))]

/-- Rules of one context are told apart by what they denote. -/
lemma denoteGenerated_injective (id : ℕ) : Function.Injective (denoteGenerated id) := by
  rintro ⟨head, pos, neg⟩ ⟨head', pos', neg'⟩ h
  obtain ⟨hhead, hbody⟩ := Prod.mk.inj h
  obtain ⟨hpos, hneg⟩ := Prod.mk.inj hbody
  have hinj : Function.Injective (fun h : ℕ => (id, h)) := fun a b hab => (Prod.mk.inj hab).2
  have hhead' : head = head' := List.map_injective_iff.2 hinj hhead
  rw [hhead', show pos = pos' from hpos, show neg = neg' from hneg]

/-- What the parser needs of the rules: none is repeated, the contexts fit into the 16 bits of an
id, and no body mentions the context itself, which is no neighbour. -/
structure Readable (id : ℕ) (rules : List GenBridgeRule) : Prop where
  nodup : rules.Nodup
  fits : ∀ r ∈ rules, id < 2 ^ 16 ∧ ∀ a ∈ r.bodyAtoms, a.1 < 2 ^ 16
  no_own : ∀ r ∈ rules, ∀ a ∈ r.bodyAtoms, a.1 ≠ id

/-- An id has no room for a larger context, so what was stored cannot denote the rule. -/
lemma fits_of_roundTrip {g : ContextGeneratorBase} {plan : List (ℕ × ContextQueryPlan)}
    (hgen : ∀ r ∈ rules, g.IsGenerated id r) (h : RoundTrip g id rules plan) :
    ∀ r ∈ rules, id < 2 ^ 16 ∧ ∀ a ∈ r.bodyAtoms, a.1 < 2 ^ 16 := by
  obtain ⟨-, table, -, -, -, hdenote, -⟩ := h
  intro r hr
  obtain ⟨stored, -, heq⟩ := List.mem_map.1 ((hdenote _).2 (List.mem_map_of_mem hr))
  obtain ⟨hhead, hbody⟩ := Prod.mk.inj heq
  obtain ⟨hpos, hneg⟩ := Prod.mk.inj hbody
  have hmem : ∀ {ids : List ID} {atoms : List BridgeAtom}, ids.map atomOf = atoms →
      ∀ a ∈ atoms, a.1 < 2 ^ 16 := by
    rintro ids atoms rfl a ha
    obtain ⟨i, -, rfl⟩ := List.mem_map.1 ha
    exact ID.contextID_lt i
  constructor
  · obtain ⟨x, -, hx⟩ := (hgen r hr).head
    rw [hx] at hhead
    have hone : [stored.head].map atomOf = [(id, x)] := hhead
    exact hmem hone (id, x) (List.mem_singleton_self _)
  · intro a ha
    rcases List.mem_append.1 ha with ha | ha
    · exact hmem hpos a ha
    · exact hmem hneg a ha

variable {g : ContextGeneratorBase} {P : MatchingPlan id rules}

lemma readable_of_roundTrip (hid : id < g.noContexts) (hgen : ∀ r ∈ rules, g.IsGenerated id r)
    (h : RoundTrip g id rules P.plan) : Readable id rules := by
  have hfits := fits_of_roundTrip hgen h
  have hparse := parseStream_written (P := P) hgen (fun r hr => (hfits r hr).2)
  obtain ⟨text, table, neighbors, hwrite, hread, -, hids, -⟩ := h
  rw [writeBridgeRules_eq hgen hid hfits] at hwrite
  rw [← Option.some.inj hwrite] at hread
  by_cases hnodup : (rules.map (storedRule id)).Nodup
  · rw [if_pos hnodup] at hparse
    obtain ⟨table', neighbors', hread', -, hids', -⟩ := hparse
    rw [hread] at hread'
    obtain ⟨-, hneighbors⟩ := Prod.mk.inj (Except.ok.inj hread')
    refine ⟨List.Nodup.of_map _ hnodup, hfits, ?_⟩
    intro r hr a ha hown
    have hmem : id ∈ (bodyContexts rules).eraseDups := by
      rw [List.mem_eraseDups]
      exact List.mem_flatMap.2 ⟨r, hr, List.mem_map.2 ⟨a, ha, hown⟩⟩
    rw [← hids, hneighbors, hids', List.mem_eraseDups] at hmem
    simp at hmem
  · rw [if_neg hnodup, hread] at hparse
    cases hparse

lemma roundTrip_of_readable (hid : id < g.noContexts) (hgen : ∀ r ∈ rules, g.IsGenerated id r)
    (h : Readable id rules) : RoundTrip g id rules P.plan := by
  have hparse := parseStream_written (P := P) hgen (fun r hr => (h.fits r hr).2)
  have hdenote : ∀ r ∈ rules, denoteStored (storedRule id r) = denoteGenerated id r :=
    fun r hr => denoteStored_storedRule (hgen r hr) (h.fits r hr).1 (h.fits r hr).2
  have hnodup : (rules.map (storedRule id)).Nodup := by
    apply h.nodup.map_on
    intro r hr r' hr' heq
    apply denoteGenerated_injective id
    rw [← hdenote r hr, ← hdenote r' hr', heq]
  rw [if_pos hnodup] at hparse
  obtain ⟨table, neighbors, hread, hrules, hids, hoffsets⟩ := hparse
  refine ⟨_, table, neighbors, writeBridgeRules_eq hgen hid h.fits, hread, ?_, ?_, hoffsets⟩
  · intro d
    rw [hrules, List.map_map]
    exact iff_of_eq (congrArg (d ∈ ·) (List.map_congr_left hdenote))
  · have hfilter : (bodyContexts rules).filter (fun c => c ≠ id) = bodyContexts rules := by
      apply List.filter_eq_self.2
      intro c hc
      obtain ⟨r, hr, hc⟩ := List.mem_flatMap.1 hc
      obtain ⟨a, ha, rfl⟩ := List.mem_map.1 hc
      simpa using h.no_own r hr a ha
    rw [hids, hfilter]

end RoundTrip

/-- The round trip succeeds exactly for lists without repetitions, over contexts that fit into an id
and differ from the own one.  `g.Produces` says of a list that it comes from the random generator,
whatever it draws. -/
theorem bridgeRules_roundTrip_iff (g : ContextGeneratorBase) (id : Fin g.noContexts)
    (rules : {rules : List GenBridgeRule // g.Produces id rules})
    (P : MatchingPlan (id : ℕ) rules.1) :
    RoundTrip g id rules.1 P.plan ↔ Readable id rules.1 :=
  ⟨readable_of_roundTrip id.2 rules.2.isGenerated, roundTrip_of_readable id.2 rules.2.isGenerated⟩

/-- A ring of two contexts with one atom each. -/
def twoContexts : ContextGeneratorBase where
  noContexts := 2
  noAtoms := 1
  noBridgeRules := 2
  origTopo id := [1 - id]
  contextInterfaces _ := [1]
  noAtoms_pos := Nat.one_pos
  topo_lt id c hc := by
    rw [List.mem_singleton.1 hc]
    omega
  interface_le _ a ha := (List.mem_singleton.1 ha).le

/-- The rule `c0a1 :- (1:c1a1)`. -/
def onlyRule : GenBridgeRule := ⟨[1], [(1, 1)], []⟩

lemma twoContexts_produces : twoContexts.Produces 0 [onlyRule, onlyRule] :=
  ⟨2, [1, 0, 0, 0, 0, 1, 1, 0, 0, 0, 0, 1], [], rfl⟩

def signatureOf (ctx : ℕ) : BeliefTable where
  beliefs := [Belief.ofContext ctx 1 (beliefName ctx 1)]
  nextAddress := 0
  address_nodup := List.nodup_singleton _
  text_nodup := List.nodup_singleton _
  isBelief_of_mem b hb := by
    rw [List.mem_singleton.1 hb]
    exact Belief.isBelief_kindOf ctx 1

def planOf (ctx : ℕ) : ContextQueryPlan :=
  ⟨ctx, "localhost".toList, 5000, none, none, none, none, some (signatureOf ctx),
    some (signatureOf ctx)⟩

/-- The plan of the context 0, whose only neighbour is the context 1. -/
def twoContextsPlan : MatchingPlan 0 [onlyRule, onlyRule] where
  plan := [(0, planOf 0), (1, planOf 1)]
  own := planOf 0
  localSignature := signatureOf 0
  lookup_own := rfl
  own_signature := rfl
  head_mem r hr h hh := by
    have hrule : r = onlyRule := by simpa using hr
    rw [hrule] at hh
    rw [List.mem_singleton.1 hh]
    exact List.mem_singleton_self _
  own_mem r hr a ha hown := by
    have hrule : r = onlyRule := by simpa using hr
    rw [hrule] at ha
    rw [List.mem_singleton.1 ha] at hown
    exact absurd hown Nat.one_ne_zero
  neighbor_mem r hr a ha _ := by
    have hrule : r = onlyRule := by simpa using hr
    rw [hrule] at ha
    rw [List.mem_singleton.1 ha]
    exact ⟨planOf 1, signatureOf 1, rfl, rfl, List.mem_singleton_self _⟩

/-- Drawing the same rule twice makes the assertion fail when the file is read. -/
theorem roundTrip_fails_on_repeatedRule :
    twoContexts.Produces 0 [onlyRule, onlyRule] ∧
      (∃ text, twoContexts.writeBridgeRules 0 [onlyRule, onlyRule] = some text ∧
        parseStream twoContextsPlan.plan 0 text = .error .aborted) ∧
      ¬ RoundTrip twoContexts 0 [onlyRule, onlyRule] twoContextsPlan.plan := by
  have hgen := twoContexts_produces.isGenerated
  have hsmall : ∀ r ∈ [onlyRule, onlyRule], 0 < 2 ^ 16 ∧ ∀ a ∈ r.bodyAtoms, a.1 < 2 ^ 16 := by
    decide
  have hdup : ¬ ([onlyRule, onlyRule].map (storedRule 0)).Nodup := by decide
  have habort := parseStream_written (P := twoContextsPlan) hgen (fun r hr => (hsmall r hr).2)
  rw [if_neg hdup] at habort
  refine ⟨twoContexts_produces, ⟨_, writeBridgeRules_eq hgen (by decide) hsmall, habort⟩, ?_⟩
  intro h
  have hnodup := (readable_of_roundTrip (by decide) hgen h).nodup
  revert hnodup
  decide

end BridgeRuleGrammar

end Dmcs
