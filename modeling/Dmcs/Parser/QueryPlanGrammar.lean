import Dmcs.Parser.BaseParser
import Dmcs.Generator.NewStaticGen

/-!
# Query plans and their parser (`QueryPlanGrammar`)

A query plan tells a context where the other contexts run, and which beliefs have which addresses:
its own ones in `LocalSignature`, those of a neighbour in `InputSignature`.  The grammar also reads
constants, categories of constants, predicates and filters.

All fields but the first four are optional.  The fourth is `Constants`, which the generator does not
write.

## The argument

The grammar is modelled with all its fields and actions.  For the round trip it is enough to follow
the first context of a plan: the writer prints its id, host, port and then the signature, where the
grammar wants the constants (`contextQueryPlan_of_no_constants`).
-/

namespace Dmcs

namespace QueryPlanGrammar

open Qi BaseParser

/-! ## Query plans -/

abbrev ConstantList : Type := List Text

structure ConstantCategory where
  name : Text
  constants : ConstantList

structure Filter where
  name : Text
  predicate : Text
  arguments : List (ℕ × ConstantList)

/-- `ContextQueryPlan`; a table or list is `none` where the pointer is null. -/
structure ContextQueryPlan where
  ctx : ℕ
  hostname : Text
  port : ℤ
  constants : Option ConstantList
  constCats : Option (List ConstantCategory)
  preds : Option (List (Text × ℕ))
  filters : Option (List Filter)
  localSignature : Option BeliefTable
  groundInputSignature : Option BeliefTable

/-- `std::map::insert`: a key that is there already keeps its value. -/
def mapInsert {κ β : Type} [DecidableEq κ] (m : List (κ × β)) (e : κ × β) : List (κ × β) :=
  if e.1 ∈ m.map Prod.fst then m else m ++ [e]

/-- `QueryPlanGrammarSemantics`. -/
structure Semantics where
  parsedResult : List (ℕ × ContextQueryPlan)
  currentQueryPlan : Option ContextQueryPlan

def Semantics.init : Semantics := ⟨[], none⟩

/-! ## Semantic actions -/

/-- A number of type `int` as one of type `std::size_t`. -/
def toSizeT (n : ℤ) : ℕ := (n % 2 ^ 64).toNat

def setContextID (source : ℤ) (mgr : Semantics) : Option (Semantics × Unit) :=
  some (⟨mgr.parsedResult,
    some ⟨toSizeT source, [], 0, none, none, none, none, none, none⟩⟩, ())

/-- An action that changes the current query plan; the pointer to it must not be null. -/
def onCurrent {α : Type} (change : α → ContextQueryPlan → Option ContextQueryPlan) (source : α)
    (mgr : Semantics) : Option (Semantics × Unit) := do
  let currentQP ← mgr.currentQueryPlan
  let currentQP ← change source currentQP
  some (⟨mgr.parsedResult, some currentQP⟩, ())

def setHostName : Text → Semantics → Option (Semantics × Unit) :=
  onCurrent (fun source qp => some { qp with hostname := source })

def setPort : ℤ → Semantics → Option (Semantics × Unit) :=
  onCurrent (fun source qp => some { qp with port := source })

def setConstantList : ConstantList → Semantics → Option (Semantics × Unit) :=
  onCurrent (fun source qp => some { qp with constants := some source })

def setConstantCategories : List (Text × ConstantList) → Semantics → Option (Semantics × Unit) :=
  onCurrent (fun source qp => some { qp with
    constCats := some (qp.constCats.getD [] ++ source.map (fun c => ⟨c.1, c.2⟩)) })

def setPredicates : List (Text × ℕ) → Semantics → Option (Semantics × Unit) :=
  onCurrent (fun source qp => some { qp with
    preds := some (source.foldl mapInsert (qp.preds.getD [])) })

def setFilters :
    List (Text × Text × List (ℕ × ConstantList)) → Semantics → Option (Semantics × Unit) :=
  onCurrent (fun source qp => some { qp with
    filters := some (qp.filters.getD [] ++
      source.map (fun f => ⟨f.1, f.2.1, f.2.2.foldl mapInsert []⟩)) })

def setLocalSignature : BeliefTable → Semantics → Option (Semantics × Unit) :=
  onCurrent (fun source qp => some { qp with localSignature := some source })

def setInputSignature : BeliefTable → Semantics → Option (Semantics × Unit) :=
  onCurrent (fun source qp => some { qp with groundInputSignature := some source })

/-- `checkConstantCategory`: a single name may be the name of a category. -/
def checkConstantCategory (source : ConstantList) (mgr : Semantics) :
    Option (Semantics × ConstantList) :=
  if source.length > 1 then some (mgr, source)
  else do
    let currentQP ← mgr.currentQueryPlan
    let constCats ← currentQP.constCats
    let name ← source.head?
    some (mgr, ((constCats.find? (fun c => c.name = name)).map ConstantCategory.constants).getD
      source)

/-- The text of an atom: the predicate, and the arguments in parentheses. -/
def atomText : List Text → Text
  | [] => []
  | p :: [] => p
  | p :: a :: as => p ++ '(' :: (a ++ (as.flatMap (fun x => ',' :: x) ++ [')']))

/-- `registerAndInsertIntoBeliefSet`; storing a belief asserts that it is new. -/
def registerAndInsertIntoBeliefSet (source : List (ℕ × List Text)) (mgr : Semantics) :
    Option (Semantics × BeliefTable) := do
  let table ← source.foldlM (fun target input => do
      let currentQP ← mgr.currentQueryPlan
      let bel := Belief.ofContext currentQP.ctx input.1 (atomText input.2)
      target.storeWithID bel bel.id)
    BeliefTable.empty
  some (mgr, table)

def insertIntoMap (_ : Unit) (mgr : Semantics) : Option (Semantics × Unit) := do
  let currentQP ← mgr.currentQueryPlan
  some (⟨mapInsert mgr.parsedResult (currentQP.ctx, currentQP), some currentQP⟩, ())

/-! ## The grammar -/

section Grammar

def ident : Parser Semantics Text :=
  lexeme skip (do
    let c ← charIf id isLower
    let cs ← many (alt (charIf id isAlnum) (charIf id (fun c => c = '_')))
    pure (c :: cs))

/-- `catSymbol`, `predSymbol` and `filterName`. -/
def symbol : Parser Semantics Text := many1 (charIf skip isAlnum)

def hostName : Parser Semantics Text := do
  let _ ← lit skip ['"']
  let name ← lexeme skip (many (charIf id (fun c => c.toNat < 128 && c ≠ '"')))
  let _ ← lit skip ['"']
  pure name

def constants : Parser Semantics ConstantList := do
  let _ ← lit skip ['[']
  let cs ← sepBy ident (lit skip [','])
  let _ ← lit skip [']']
  pure cs

def category : Parser Semantics (Text × ConstantList) := do
  let _ ← lit skip ['{']
  let _ ← field "Category".toList
  let name ← symbol
  let _ ← lit skip [',']
  let _ ← field "Constants".toList
  let cs ← constants
  let _ ← lit skip ['}']
  pure (name, cs)

def constantCategories : Parser Semantics (List (Text × ConstantList)) := do
  let _ ← lit skip ['[']
  closedList skip category ']'

def predicate : Parser Semantics (Text × ℕ) := do
  let _ ← lit skip ['{']
  let _ ← field "Pred".toList
  let name ← symbol
  let _ ← lit skip [',']
  let _ ← field "Arity".toList
  let arity ← uint skip
  let _ ← lit skip ['}']
  pure (name, arity)

def predicates : Parser Semantics (List (Text × ℕ)) := do
  let _ ← lit skip ['[']
  closedList skip predicate ']'

def constantsForArguments : Parser Semantics ConstantList := action constants checkConstantCategory

def argument : Parser Semantics (ℕ × ConstantList) := do
  let _ ← lit skip ['{']
  let _ ← field "Position".toList
  let pos ← uint skip
  let _ ← lit skip [',']
  let _ ← field "Using".toList
  let cs ← constantsForArguments
  let _ ← lit skip ['}']
  pure (pos, cs)

def arguments : Parser Semantics (List (ℕ × ConstantList)) := do
  let _ ← lit skip ['[']
  closedList skip argument ']'

def filter : Parser Semantics (Text × Text × List (ℕ × ConstantList)) := do
  let _ ← lit skip ['{']
  let _ ← field "Name".toList
  let name ← symbol
  let _ ← lit skip [',']
  let _ ← field "Pred".toList
  let pred ← symbol
  let _ ← lit skip [',']
  let _ ← field "Arguments".toList
  let args ← arguments
  let _ ← lit skip ['}']
  pure (name, pred, args)

def filters : Parser Semantics (List (Text × Text × List (ℕ × ConstantList))) := do
  let _ ← lit skip ['[']
  closedList skip filter ']'

def idWithGroundTuple : Parser Semantics (ℕ × List Text) := do
  let address ← uint skip
  let _ ← lit skip [':']
  let _ ← lit skip ['[']
  let tuple ← sepBy ident (lit skip [','])
  let _ ← lit skip [']']
  pure (address, tuple)

def signature : Parser Semantics BeliefTable := do
  let _ ← lit skip ['{']
  let table ← action (sepBy idWithGroundTuple (lit skip [','])) registerAndInsertIntoBeliefSet
  let _ ← opt (lit skip [','])
  let _ ← lit skip ['}']
  pure table

/-- A field of a context that may be missing. -/
def optionalField {α : Type} (name : Text) (value : Parser Semantics α)
    (set : α → Semantics → Option (Semantics × Unit)) : Parser Semantics (Option Unit) :=
  opt (do
    let _ ← field name
    let _ ← action value set
    lit skip [','])

def contextQueryPlan : Parser Semantics Unit :=
  action (do
      let _ ← lit skip ['{']
      let _ ← field "ContextId".toList
      let _ ← action (int skip) setContextID
      let _ ← lit skip [',']
      let _ ← field "HostName".toList
      let _ ← action hostName setHostName
      let _ ← lit skip [',']
      let _ ← field "Port".toList
      let _ ← action (int skip) setPort
      let _ ← lit skip [',']
      let _ ← field "Constants".toList
      let _ ← action constants setConstantList
      let _ ← lit skip [',']
      let _ ← optionalField "ConstantCategories".toList constantCategories setConstantCategories
      let _ ← optionalField "Predicates".toList predicates setPredicates
      let _ ← optionalField "Filters".toList filters setFilters
      let _ ← optionalField "LocalSignature".toList signature setLocalSignature
      let _ ← optionalField "InputSignature".toList signature setInputSignature
      lit skip ['}'])
    insertIntoMap

def start : Parser Semantics Unit := do
  let _ ← lit skip ['[']
  let _ ← closedList skip contextQueryPlan ']'
  pure ()

end Grammar

/-- `Parser::parseString` for query plans. -/
def parseString (str : Text) : Except ParseError (List (ℕ × ContextQueryPlan)) :=
  (phraseParse skip start str Semantics.init).map Semantics.parsedResult

/-- `Parser::parseStream`. -/
def parseStream (input : Text) : Except ParseError (List (ℕ × ContextQueryPlan)) :=
  parseString (input ++ ['\n'])

/-! ## The generator's query plans -/

section Generated

open NewStaticGen

/-- Two tables hold the same beliefs, apart from the epsilon belief, which is not written. -/
def SameBeliefs (parsed written : BeliefTable) : Prop :=
  ∀ address text, (∃ b ∈ parsed.beliefs, b.address = address ∧ b.text = text) ↔
    address ≠ 0 ∧ ∃ b ∈ written.beliefs, b.address = address ∧ b.text = text

/-- A parsed entry has the id, host and port that were written for a context. -/
def WrittenFor (qp : ContextQueryPlan) (ctx : ℕ) : Prop :=
  qp.ctx = ctx ∧ qp.hostname = "localhost".toList ∧ qp.port = (BASE_PORT + ctx : ℕ)

/-- The text written for a context is accepted, and the parsed map has one entry for every written
context, with its host and port and its signature. -/
def RoundTrip (bso : BeliefStateOffset) (sigma : ℕ → BeliefTable) (ctx : ℕ)
    (interface : List ((ℕ × ℕ) × NewBeliefState bso.width)) : Prop :=
  ∃ text parsed, writeQueryPlan bso sigma ctx interface = some text ∧
    parseStream text = .ok parsed ∧
    (parsed.map Prod.fst).Perm
      (ctx :: (interface.filter (fun e => e.1.1 = ctx)).map (fun e => e.1.2)) ∧
    (∃ qp table, parsed.lookup ctx = some qp ∧ WrittenFor qp ctx ∧
      qp.localSignature = some table ∧ SameBeliefs table (sigma ctx)) ∧
    ∀ e ∈ interface, e.1.1 = ctx →
      ∃ qp table insig, parsed.lookup e.1.2 = some qp ∧ WrittenFor qp e.1.2 ∧
        qp.groundInputSignature = some table ∧
        inputSignatureFromBeliefState bso sigma e.1.2 e.2 = some insig ∧ SameBeliefs table insig

variable {s : Semantics} {r : Text}

lemma read_hostName :
    hostName (" ".toList ++ '"' :: ("localhost".toList ++ '"' :: r)) s =
      .success "localhost".toList r s := by
  have hname : many (charIf id (fun c => c.toNat < 128 && c ≠ '"'))
      ("localhost".toList ++ '"' :: r) s = .success "localhost".toList ('"' :: r) s :=
    many_charIf (fun _ _ _ => rfl) (List.all_eq_true.mp (by decide)) (by simp) s
  have hskip : skip ("localhost".toList ++ '"' :: r) = "localhost".toList ++ '"' :: r :=
    skip_of_startsVisible (by decide)
  unfold hostName
  rw [bind_of_success (lit_blank (by decide) (by decide)), bind_of_success (r := '"' :: r)
    (u := s), bind_of_success (lit_visible (by decide))]
  · rfl
  · rw [lexeme_apply, hskip]
    exact hname

lemma action_hostName (parsed : List (ℕ × ContextQueryPlan)) (qp : ContextQueryPlan) :
    action hostName setHostName (" ".toList ++ '"' :: ("localhost".toList ++ '"' :: r))
      ⟨parsed, some qp⟩ =
      .success () r ⟨parsed, some { qp with hostname := "localhost".toList }⟩ := by
  rw [action_of_success read_hostName]
  rfl

/-- The fields of a context up to its port, and what follows them. -/
def headText (ctx port : ℕ) (r : Text) : Text :=
  "\n  ".toList ++ '{' :: ("\n    ".toList ++ ("ContextId".toList ++ ':' ::
    ([' '] ++ decimal ctx ++ ',' :: ("\n    ".toList ++ ("HostName".toList ++ ':' ::
      (" ".toList ++ '"' :: ("localhost".toList ++ '"' :: ',' :: ("\n    ".toList ++
        ("Port".toList ++ ':' :: ([' '] ++ decimal port ++ ',' :: r))))))))))

/-- A number that fits is read. -/
lemma action_int_of_lt {n : ℕ} (hn : n < 2 ^ 31) {f : ℤ → Semantics → Option (Semantics × Unit)}
    {u : Semantics} (hr : NoDigit r) (hf : f n s = some (u, ())) :
    action (int skip) f ([' '] ++ decimal n ++ r) s = .success () r u := by
  rw [action_of_success ((int_decimal (by decide) hr).trans (if_pos hn)), hf]

lemma action_int_of_ge {n : ℕ} (hn : ¬ n < 2 ^ 31) {f : ℤ → Semantics → Option (Semantics × Unit)}
    (hr : NoDigit r) :
    action (int skip) f ([' '] ++ decimal n ++ r) s = .failure (decimal n ++ r) s :=
  action_of_failure ((int_decimal (by decide) hr).trans (if_neg hn))

/-- A context whose port is not followed by its constants is refused. -/
lemma contextQueryPlan_of_no_constants (ctx port : ℕ)
    (hr : ∀ s : Semantics, ∃ inp, field "Constants".toList r s = .failure inp s) :
    ∃ inp s', contextQueryPlan (headText ctx port r) s = .failure inp s' := by
  have hfield : ∀ {name : Text} (_ : startsVisible name = true) (r : Text) (s : Semantics),
      field name ("\n    ".toList ++ (name ++ ':' :: r)) s = .success () r s :=
    fun hname r s => field_blank (by decide) hname
  unfold contextQueryPlan headText
  suffices hseq : ∃ inp s', _ = Outcome.failure inp s' by
    obtain ⟨inp, s', h⟩ := hseq
    exact ⟨inp, s', action_of_failure h⟩
  rw [bind_of_success (lit_blank (by decide) (by decide)), bind_of_success (hfield (by decide) _ _)]
  by_cases hctx : ctx < 2 ^ 31
  · rw [bind_of_success (action_int_of_lt hctx (by simp) rfl), bind_of_success (lit_comma _ _),
      bind_of_success (hfield (by decide) _ _), bind_of_success (action_hostName _ _),
      bind_of_success (lit_comma _ _), bind_of_success (hfield (by decide) _ _)]
    by_cases hport : port < 2 ^ 31
    · rw [bind_of_success (action_int_of_lt hport (by simp) rfl), bind_of_success (lit_comma _ _)]
      obtain ⟨inp, hfail⟩ := hr ⟨s.parsedResult, some ⟨toSizeT ctx, "localhost".toList, port, none,
        none, none, none, none, none⟩⟩
      rw [bind_of_failure hfail]
      exact ⟨_, _, rfl⟩
    · rw [bind_of_failure (action_int_of_ge hport (by simp))]
      exact ⟨_, _, rfl⟩
  · rw [bind_of_failure (action_int_of_ge hctx (by simp))]
    exact ⟨_, _, rfl⟩

/-- Every written plan begins with its own context, whose port is followed by the signature. -/
lemma writeQueryPlan_eq {bso : BeliefStateOffset} {sigma : ℕ → BeliefTable} {ctx : ℕ}
    {interface : List ((ℕ × ℕ) × NewBeliefState bso.width)} {text : Text}
    (h : writeQueryPlan bso sigma ctx interface = some text) :
    ∃ r, text ++ ['\n'] =
      '[' :: headText ctx (BASE_PORT + ctx)
        ("\n    ".toList ++ ("LocalSignature".toList ++ r)) := by
  have hhead : '\n' :: "  \x7b\n    ContextId: ".toList = "\n  ".toList ++ '{' ::
      ("\n    ".toList ++ ("ContextId".toList ++ [':', ' '])) := by decide
  have hmiddle : ",\n    HostName: \"localhost\",\n    Port: ".toList = ',' ::
      ("\n    ".toList ++ ("HostName".toList ++ ':' :: (" ".toList ++ '"' ::
        ("localhost".toList ++ '"' :: ',' :: ("\n    ".toList ++
          ("Port".toList ++ [':', ' '])))))) := by decide
  have htail : ",\n    ".toList = ',' :: "\n    ".toList := by decide
  have hopen : "[\n".toList = ['[', '\n'] := by decide
  unfold writeQueryPlan at h
  simp only [Option.bind_eq_bind, Option.bind_eq_some_iff, Option.some.injEq] at h
  obtain ⟨own, hown, neighbors, -, rfl⟩ := h
  unfold writeBeliefTable at hown
  simp only [Option.bind_eq_bind, Option.bind_eq_some_iff, Option.some.injEq] at hown
  obtain ⟨table, -, rfl⟩ := hown
  refine ⟨":\n".toList ++ (table ++ ("  \x7d,\n".toList ++ (neighbors.flatten ++
    ("]\n".toList ++ ['\n'])))), ?_⟩
  unfold headText
  simp only [List.append_assoc, hopen, List.cons_append, List.nil_append]
  rw [← List.cons_append, hhead, hmiddle, htail]
  simp only [List.append_assoc, List.cons_append, List.nil_append]

/-- The grammar refuses every query plan the generator writes. -/
lemma parseStream_written {bso : BeliefStateOffset} {sigma : ℕ → BeliefTable} {ctx : ℕ}
    {interface : List ((ℕ × ℕ) × NewBeliefState bso.width)} {text : Text}
    (h : writeQueryPlan bso sigma ctx interface = some text) :
    parseStream text = .error .failed := by
  obtain ⟨r, hr⟩ := writeQueryPlan_eq h
  have hskip : skip ("\n    ".toList ++ ("LocalSignature".toList ++ r)) =
      "LocalSignature".toList ++ r :=
    (skipper_blanks (by decide)).trans (skip_of_startsVisible (by decide))
  have hfield : ∀ s : Semantics, ∃ inp, field "Constants".toList
      ("\n    ".toList ++ ("LocalSignature".toList ++ r)) s = .failure inp s := by
    intro s
    refine ⟨_, bind_of_failure (lit_of_none ?_)⟩
    rw [hskip]
    rfl
  obtain ⟨inp, s', hfail⟩ := contextQueryPlan_of_no_constants (s := Semantics.init) ctx
    (BASE_PORT + ctx) hfield
  unfold parseStream parseString phraseParse
  rw [hr]
  unfold start closedList sepBy
  rw [bind_of_success (lit_visible (by decide)),
    bind_of_failure (bind_of_failure (bind_of_failure hfail))]
  rfl

/-- The round trip fails for every generated query plan: whatever is written is refused.  The second
part says how: the parser does not come to an assertion, it fails on the input. -/
theorem not_roundTrip (bso : BeliefStateOffset) (sigma : ℕ → BeliefTable) (ctx : ℕ)
    (interface : List ((ℕ × ℕ) × NewBeliefState bso.width)) :
    ¬ RoundTrip bso sigma ctx interface ∧
      ∀ text, writeQueryPlan bso sigma ctx interface = some text →
        parseStream text = .error .failed := by
  refine ⟨?_, fun text => parseStream_written⟩
  rintro ⟨text, parsed, hwrite, hparse, -⟩
  rw [parseStream_written hwrite] at hparse
  cases hparse

/-- One context with one belief and no neighbour. -/
def singleContext : ℕ → BeliefTable := fun ctx =>
  (BeliefTable.storeAll [Belief.ofContext ctx 0 "epsilon".toList,
    Belief.ofContext ctx 0 "c0a1".toList]).getD BeliefTable.empty

/-- Its query plan is written, without constants, and refused. -/
theorem roundTrip_fails_on_singleContext :
    writeQueryPlan (BeliefStateOffset.ofSucc 0 0) singleContext 0 [] =
      some ("[\n  \x7b\n    ContextId: 0,\n    HostName: \"localhost\",\n    Port: 5000,\n" ++
        "    LocalSignature:\n      \x7b\n        1: [c0a1],\n      \x7d,\n  \x7d,\n]\n").toList ∧
      ¬ RoundTrip (BeliefStateOffset.ofSucc 0 0) singleContext 0 [] := by
  refine ⟨by decide +kernel, ?_⟩
  rintro ⟨text, parsed, hwrite, hparse, -⟩
  rw [parseStream_written hwrite] at hparse
  cases hparse

end Generated

end QueryPlanGrammar

end Dmcs
