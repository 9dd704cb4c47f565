import Dmcs.Lib.Qi
import Dmcs.Mcs.BeliefTable
import Dmcs.Mcs.Guess

/-!
# The parsers of DLV's answer sets (`DLVResultGrammar`)

DLV prints one answer set per line, `{a, -b, p(c,1)}`, with `Best model:` in front where it
optimises.  Two parsers read such a line into a belief state with the same grammar: the generic
`DLVResultParser_t`, which the evaluator uses, and `NewDLVResultParser`.  They differ in the
character that starts a comment, and in the state they begin with: `NewDLVResultParser` sets the
epsilon bit of the context and makes all its beliefs `FALSE` (`reset_current`), the generic one
begins with a state in which nothing is defined.

A literal writes the bit of its belief and nothing else, so the generic parser leaves every belief
that is not listed undefined, the epsilon bit included.

## The argument

A line of DLV is described by its tokens (`AnswerSetLine`), with any blanks between them.  Both
parsers read every such line to its end, whatever state they begin with, and apply its literals in
order (`phraseParse_text`); only an assertion of a literal can stop them.  After that the question
is about writes into a state: the last literal on a belief decides (`test_writes_literals`), and a
belief without a literal keeps what the parser began with.
-/

namespace Dmcs

namespace DLVResultGrammar

open Qi

/-! ## The grammar -/

section Grammar

variable {σ : Type} (skip : Skipper)

/-- The characters of an identifier after the first. -/
def isIdentChar (c : Char) : Bool := isAlnum c || c = '_'

def number : Parser σ Text :=
  alt (lexeme skip (do
      let c ← charIf id (fun c => c = '0')
      pure [c]))
    (lexeme skip (do
      let c ← charIf id (fun c => '1' ≤ c && c ≤ '9')
      let cs ← many (charIf id Char.isDigit)
      pure (c :: cs)))

def ident : Parser σ Text :=
  alt (lexeme skip (do
      let _ ← charIf id (fun c => c = '"')
      let cs ← many (charIf id (fun c => c ≠ '"'))
      let _ ← charIf id (fun c => c = '"')
      pure ('"' :: (cs ++ ['"']))))
    (do
      let c ← charIf skip isLower
      let cs ← many (alt (charIf skip isAlnum) (charIf skip (fun c => c = '_')))
      pure (c :: cs))

/-- `ident | number`, an argument of a fact. -/
def argument : Parser σ Text := alt (ident skip) (number skip)

def fact : Parser σ Text :=
  raw skip (do
    let _ ← ident skip
    opt (do
      let _ ← charIf skip (fun c => c = '(')
      let _ ← argument skip
      let _ ← many (do
        let _ ← charIf skip (fun c => c = ',')
        argument skip)
      let _ ← charIf skip (fun c => c = ')')
      pure ()))

end Grammar

section Semantics

variable (bso : BeliefStateOffset) (btab : BeliefTable) (ctx : ℕ)

/-- The semantic action of a literal; the lookup and `set` assert what they need. -/
def handleLiteral (source : Option Char × Text) (current : NewBeliefState bso.width) :
    Option (NewBeliefState bso.width × Unit) :=
  let belief_id := btab.getIDByString source.2
  let pos := bso.startingOffset ctx + belief_id.address
  if belief_id ≠ ID.ID_FAIL ∧ ctx < bso.noBlocks ∧ pos < bso.width then
    some (current.set pos (if source.1.isSome then .dmcsFalse else .dmcsTrue), ())
  else none

variable (skip : Skipper)

/-- A literal and the character after it. -/
def literal (stop : Char) : Parser (NewBeliefState bso.width) Unit :=
  action (do
      let strong_neg ← opt (charIf skip (fun c => c = '-'))
      let belief_text ← fact skip
      let _ ← lit skip [stop]
      pure (strong_neg, belief_text))
    (handleLiteral bso btab ctx)

def mlit : Parser (NewBeliefState bso.width) Unit := literal bso btab ctx skip ','

def flit : Parser (NewBeliefState bso.width) Unit := literal bso btab ctx skip '}'

def answerset : Parser (NewBeliefState bso.width) Unit :=
  alt (do
      let _ ← lit skip ['{']
      lit skip ['}'])
    (do
      let _ ← lit skip ['{']
      let _ ← many (mlit bso btab ctx skip)
      flit bso btab ctx skip)

def costline : Parser (NewBeliefState bso.width) Unit := do
  let _ ← lit skip "Cost".toList
  let _ ← many1 (alt (charIf skip isAlnum) (charIf skip (fun c => "[]<>():".toList.contains c)))
  pure ()

def dlvline : Parser (NewBeliefState bso.width) Unit :=
  alt (do
      let _ ← opt (lit skip "Best model:".toList)
      answerset bso btab ctx skip)
    (costline bso skip)

/-- `ParserState::reset_current`: the epsilon bit of the context, and all its beliefs `FALSE`. -/
def resetCurrent : NewBeliefState bso.width :=
  let start_bit := bso.startingOffset ctx + 1
  let end_bit := NewBeliefState.endBit bso ctx
  (List.range' start_bit (end_bit - start_bit)).foldl (fun current i => current.set i .dmcsFalse)
    ((NewBeliefState.empty bso.width).setEpsilon bso ctx)

/-- `DLVResultParser_t::parseString` of a fresh parser. -/
def parseString (instr : Text) : Except ParseError (NewBeliefState bso.width) :=
  phraseParse (skipper '#') (dlvline bso btab ctx (skipper '#')) instr
    (NewBeliefState.empty bso.width)

/-- `NewDLVResultParser::parseString`. -/
def newParseString (instr : Text) : Except ParseError (NewBeliefState bso.width) :=
  phraseParse (skipper '%') (dlvline bso btab ctx (skipper '%')) instr (resetCurrent bso ctx)

end Semantics

/-! ## Texts of facts -/

/-- The comment characters of the two skippers. -/
def IsComment (comment : Char) : Prop := comment = '#' ∨ comment = '%'

/-- A character no skipper goes over. -/
def isVisible (c : Char) : Bool := !isSpace c && c ≠ '#' && c ≠ '%'

/-- A lower case identifier. -/
def IsPlain (t : Text) : Prop :=
  ∃ c cs, t = c :: cs ∧ isLower c = true ∧ ∀ d ∈ cs, isIdentChar d = true

/-- A text in quotes. -/
def IsQuoted (t : Text) : Prop := ∃ cs, t = '"' :: (cs ++ ['"']) ∧ ∀ d ∈ cs, d ≠ '"'

def IsNumber (t : Text) : Prop :=
  t = ['0'] ∨ ∃ c cs, t = c :: cs ∧ ('1' ≤ c && c ≤ '9') = true ∧ ∀ d ∈ cs, d.isDigit = true

def IsArgument (t : Text) : Prop := (IsQuoted t ∨ IsPlain t) ∨ IsNumber t

/-- A fact as DLV prints it: an identifier, and arguments separated by commas. -/
def IsFact (t : Text) : Prop :=
  ∃ i, (IsQuoted i ∨ IsPlain i) ∧
    (t = i ∨ ∃ a as, (∀ x ∈ a :: as, IsArgument x) ∧
      t = i ++ '(' :: (a ++ (as.flatMap (fun x => ',' :: x) ++ [')'])))

section Texts

variable {σ : Type} {comment : Char} {t r : Text} {c : Char} {s : σ}

lemma isVisible_of_isIdentChar (hc : isIdentChar c = true) : isVisible c = true := by
  have hn : 48 ≤ c.toNat := by
    simp only [isIdentChar, Bool.or_eq_true, decide_eq_true_eq] at hc
    rcases hc with hc | rfl
    · exact (toNat_of_isAlnum hc).1
    · decide
  have hspace : isSpace c = false := by
    simp only [isSpace, Bool.or_eq_false_iff, decide_eq_false_iff_not, Bool.and_eq_false_iff]
    refine ⟨?_, Or.inr (by omega)⟩
    rintro rfl
    revert hn
    decide
  have hhash : c ≠ '#' := by
    rintro rfl
    revert hn
    decide
  have hpercent : c ≠ '%' := by
    rintro rfl
    revert hn
    decide
  simp [isVisible, hspace, hhash, hpercent]

lemma isIdentChar_of_isLower (hc : isLower c = true) : isIdentChar c = true := by
  simp [isIdentChar, isAlnum, hc]

lemma isIdentChar_of_isDigit (hc : c.isDigit = true) : isIdentChar c = true := by
  simp [isIdentChar, isAlnum, hc]

lemma skipper_of_isVisible (hcom : IsComment comment) (hc : isVisible c = true) :
    skipper comment (c :: r) = c :: r := by
  simp only [isVisible, Bool.and_eq_true, Bool.not_eq_true', decide_eq_true_eq] at hc
  apply skipper_of_visible hc.1.1
  rcases hcom with rfl | rfl
  · exact hc.1.2
  · exact hc.2

/-- What may follow an identifier: a character that neither belongs to it nor is skipped. -/
def Stops (r : Text) : Prop := ∀ c ∈ r.head?, isIdentChar c = false ∧ isVisible c = true

lemma Stops.skipper (hcom : IsComment comment) (hr : Stops r) : skipper comment r = r := by
  cases r with
  | nil => rfl
  | cons c r => exact skipper_of_isVisible hcom (hr c rfl).2

lemma stops_cons (h : isIdentChar c = false ∧ isVisible c = true) : Stops (c :: r) := by
  intro d hd
  rw [List.head?_cons, Option.mem_some_iff] at hd
  rw [← hd]
  exact h

lemma ident_plain (hcom : IsComment comment) (ht : IsPlain t) (hr : Stops r) :
    ident (skipper comment) (t ++ r) s = .success t r s := by
  obtain ⟨c, cs, rfl, hc, hcs⟩ := ht
  have hskip : skipper comment (c :: (cs ++ r)) = c :: (cs ++ r) :=
    skipper_of_isVisible hcom (isVisible_of_isIdentChar (isIdentChar_of_isLower hc))
  have hquote : c ≠ '"' := by
    rintro rfl
    revert hc
    decide
  have hmany : many (charIf (skipper comment) (fun c => isAlnum c || c = '_')) (cs ++ r) s =
      .success cs r s := by
    have hstop : many (charIf (skipper comment) isIdentChar) (cs ++ r) s =
        .success cs (skipper comment r) s := by
      apply many_charIf _ hcs
      · intro d hd
        rw [hr.skipper hcom] at hd
        exact (hr d hd).1
      · intro c r hc
        exact skipper_of_isVisible hcom (isVisible_of_isIdentChar hc)
    rwa [hr.skipper hcom] at hstop
  unfold ident
  rw [alt_of_failure (r := c :: (cs ++ r)) (u := s), bind_of_success (charIf_of_test hskip hc),
    alt_charIf (fun inp => skipper_skipper inp), bind_of_success hmany]
  · rfl
  · rw [lexeme_apply, List.cons_append, hskip]
    exact bind_of_failure (charIf_of_not_test (by simpa using hquote))

lemma ident_quoted (hcom : IsComment comment) (ht : IsQuoted t) :
    ident (skipper comment) (t ++ r) s = .success t r s := by
  obtain ⟨cs, rfl, hcs⟩ := ht
  have hskip : ∀ r, skipper comment ('"' :: r) = '"' :: r :=
    fun r => skipper_of_isVisible hcom (by decide)
  have hmany : many (charIf id (fun c => c ≠ '"')) (cs ++ '"' :: r) s =
      .success cs ('"' :: r) s :=
    many_charIf (fun _ _ _ => rfl) (fun c hc => by simpa using hcs c hc) (by simp) s
  unfold ident
  apply alt_of_success
  rw [lexeme_apply, List.cons_append, List.append_assoc, hskip,
    bind_of_success (charIf_id (by simp)), List.singleton_append, bind_of_success hmany,
    bind_of_success (charIf_id (by simp))]
  rfl

lemma ident_append (hcom : IsComment comment) (ht : IsQuoted t ∨ IsPlain t) (hr : Stops r) :
    ident (skipper comment) (t ++ r) s = .success t r s := by
  rcases ht with ht | ht
  · exact ident_quoted hcom ht
  · exact ident_plain hcom ht hr

lemma isDigit_of_range (hc : ('1' ≤ c && c ≤ '9') = true) : c.isDigit = true := by
  simp only [Bool.and_eq_true, decide_eq_true_eq] at hc
  simp only [Char.isDigit, Bool.and_eq_true, decide_eq_true_eq]
  have hone : '1'.val ≤ c.val := hc.1
  exact ⟨UInt32.le_trans (by decide : '0'.val ≤ '1'.val) hone, hc.2⟩

lemma number_append (hcom : IsComment comment) (ht : IsNumber t) (hr : Stops r) :
    number (skipper comment) (t ++ r) s = .success t r s := by
  rcases ht with rfl | ⟨c, cs, rfl, hc, hcs⟩
  · have hskip : skipper comment ('0' :: r) = '0' :: r := skipper_of_isVisible hcom (by decide)
    unfold number
    apply alt_of_success
    rw [lexeme_apply, List.singleton_append, hskip, bind_of_success (charIf_id (by simp))]
    rfl
  · have hdigit : c.isDigit = true := isDigit_of_range hc
    have hzero : c ≠ '0' := by
      rintro rfl
      revert hc
      decide
    have hskip : skipper comment (c :: (cs ++ r)) = c :: (cs ++ r) :=
      skipper_of_isVisible hcom (isVisible_of_isIdentChar (isIdentChar_of_isDigit hdigit))
    have hmany : many (charIf id Char.isDigit) (cs ++ r) s = .success cs r s := by
      apply many_charIf (fun _ _ _ => rfl) hcs
      intro d hd
      have hstop := (hr d hd).1
      simp only [isIdentChar, isAlnum, Bool.or_eq_false_iff] at hstop
      exact hstop.1.1.1
    unfold number
    rw [alt_of_failure (r := c :: (cs ++ r)) (u := s), lexeme_apply, hskip,
      bind_of_success (charIf_id hc), bind_of_success hmany]
    · rfl
    · rw [lexeme_apply, List.cons_append, hskip]
      exact bind_of_failure (charIf_of_not_test (by simpa using hzero))

lemma isDigit_of_isNumber (ht : IsNumber t) : ∃ c cs, t = c :: cs ∧ c.isDigit = true := by
  rcases ht with rfl | ⟨c, cs, rfl, hc, -⟩
  · exact ⟨'0', [], rfl, by decide⟩
  · exact ⟨c, cs, rfl, isDigit_of_range hc⟩

/-- No identifier begins with a digit. -/
lemma ident_of_isDigit (hcom : IsComment comment) (hc : c.isDigit = true) :
    ident (skipper comment) (c :: r) s = .failure (c :: r) s := by
  have hskip : skipper comment (c :: r) = c :: r :=
    skipper_of_isVisible hcom (isVisible_of_isIdentChar (isIdentChar_of_isDigit hc))
  have hquote : c ≠ '"' := by
    rintro rfl
    revert hc
    decide
  have hlower : isLower c = false := by
    simp only [Char.isDigit, Bool.and_eq_true, decide_eq_true_eq] at hc
    have hle : c.toNat ≤ 57 := hc.2
    simp only [isLower, Bool.and_eq_false_iff, decide_eq_false_iff_not]
    left
    show ¬ 97 ≤ c.toNat
    omega
  unfold ident
  rw [alt_of_failure (r := c :: r) (u := s)]
  · exact bind_of_failure (charIf_of_not_test (by simpa [hskip] using hlower))
  · rw [lexeme_apply, hskip]
    exact bind_of_failure (charIf_of_not_test (by simpa using hquote))

lemma argument_append (hcom : IsComment comment) (ht : IsArgument t) (hr : Stops r) :
    argument (skipper comment) (t ++ r) s = .success t r s := by
  rcases ht with ht | ht
  · exact alt_of_success (ident_append hcom ht hr)
  · obtain ⟨c, cs, rfl, hc⟩ := isDigit_of_isNumber ht
    unfold argument
    rw [List.cons_append, alt_of_failure (ident_of_isDigit hcom hc)]
    exact number_append hcom ht hr

/-- The further arguments of a fact. -/
lemma many_argument (hcom : IsComment comment) {as : List Text} (has : ∀ x ∈ as, IsArgument x) :
    many (do
      let _ ← charIf (skipper comment) (fun c => c = ',')
      argument (skipper comment)) (as.flatMap (fun x => ',' :: x) ++ ')' :: r) s =
      .success as (')' :: r) s := by
  have hcomma : ∀ r, skipper comment (',' :: r) = ',' :: r :=
    fun r => skipper_of_isVisible hcom (by decide)
  have hmany : many (do
      let _ ← charIf (skipper comment) (fun c => c = ',')
      argument (skipper comment)) (as.flatMap (fun x => ',' :: x) ++ ')' :: r) s =
      ofAction (as.map (fun x => x)) (')' :: r) (as.foldlM (fun s _ => some s) s) := by
    apply many_texts Stops
    · intro x hx r s hr
      rw [List.cons_append,
        bind_of_success (charIf_of_test (hcomma _) (by simp)), argument_append hcom (has x hx) hr]
      rfl
    · intro x _
      exact ⟨by simp, fun r => stops_cons (by decide)⟩
    · exact stops_cons (by decide)
    · intro s
      have hskip : skipper comment (')' :: r) = ')' :: r :=
        skipper_of_isVisible hcom (by decide)
      exact bind_of_failure (charIf_of_not_test (by simp [hskip]))
  rw [hmany, foldlM_const, List.map_id']
  rfl

/-- A fact is read as a whole; what follows it in an answer set stops it. -/
lemma fact_append (hcom : IsComment comment) (ht : IsFact t) (hr : Stops r)
    (hparen : ∀ c ∈ r.head?, c ≠ '(') :
    fact (skipper comment) (t ++ r) s = .success t r s := by
  obtain ⟨i, hi, ht⟩ := ht
  have hvisible : ∀ {i : Text} {r : Text}, IsQuoted i ∨ IsPlain i →
      skipper comment (i ++ r) = i ++ r := by
    rintro i r (⟨cs, rfl, -⟩ | ⟨c, cs, rfl, hc, -⟩)
    · exact skipper_of_isVisible hcom (by decide)
    · exact skipper_of_isVisible hcom (isVisible_of_isIdentChar (isIdentChar_of_isLower hc))
  unfold fact
  rcases ht with rfl | ⟨a, as, has, rfl⟩
  · apply raw_of_success (a := none) (hvisible hi)
    rw [bind_of_success (ident_append hcom hi hr), opt_of_failure (r := r) (u := s)]
    · rfl
    · refine bind_of_failure (charIf_of_not_test ?_)
      rw [hr.skipper hcom]
      intro c hc
      simpa using hparen c hc
  · have hopen : ∀ r, skipper comment ('(' :: r) = '(' :: r :=
      fun r => skipper_of_isVisible hcom (by decide)
    have hclose : skipper comment (')' :: r) = ')' :: r := skipper_of_isVisible hcom (by decide)
    have hfirst : Stops (as.flatMap (fun x => ',' :: x) ++ ')' :: r) := by
      cases as with
      | nil => exact stops_cons (by decide)
      | cons x as => exact stops_cons (by decide)
    apply raw_of_success (a := some ())
    · rw [List.append_assoc]
      exact hvisible hi
    · simp only [List.cons_append, List.append_assoc, List.nil_append]
      rw [bind_of_success (ident_append hcom hi (stops_cons (c := '(') (by decide))),
        opt_of_success (a := ()) (r := r) (u := s)]
      · rfl
      · rw [bind_of_success (charIf_of_test (hopen _) (by simp)),
          bind_of_success (argument_append hcom (has a List.mem_cons_self) hfirst),
          bind_of_success (many_argument hcom (fun x hx => has x (List.mem_cons_of_mem a hx))),
          bind_of_success (charIf_of_test hclose (by simp))]
        rfl

end Texts

/-! ## Answer-set lines -/

/-- Blanks between two tokens. -/
abbrev Blanks : Type := {w : Text // IsBlank w}

def noBlanks : Blanks := ⟨[], fun _ h => absurd h List.not_mem_nil⟩

/-- A literal over a belief of the table, with the blanks in front of it and after its sign. -/
structure Literal (btab : BeliefTable) where
  before : Blanks
  negated : Bool
  between : Blanks
  belief : Belief
  mem_beliefs : belief ∈ btab.beliefs
  isFact : IsFact belief.text

namespace Literal

variable {btab : BeliefTable} (l : Literal btab)

/-- The attribute of `-char_('-')`. -/
def sign : Option Char := if l.negated then some '-' else none

def text : Text := l.before.1 ++ (l.sign.toList ++ (l.between.1 ++ l.belief.text))

/-- What the semantic action does to the state. -/
def step (bso : BeliefStateOffset) (ctx : ℕ) (s : NewBeliefState bso.width) (l : Literal btab) :
    Option (NewBeliefState bso.width) :=
  (handleLiteral bso btab ctx (l.sign, l.belief.text) s).map Prod.fst

end Literal

/-- An answer-set line over the beliefs of a table, as DLV prints it: the literals, the last of them
apart, or the empty set. -/
structure AnswerSetLine (btab : BeliefTable) where
  lead : Blanks
  bestModel : Option Blanks
  answer : Option (List (Literal btab) × Literal btab)
  trail : Blanks

namespace AnswerSetLine

variable {btab : BeliefTable} (line : AnswerSetLine btab)

def literals : List (Literal btab) :=
  match line.answer with
  | none => []
  | some (ls, l) => ls ++ [l]

def answerText : Text :=
  match line.answer with
  | none => ['{', '}']
  | some (ls, l) => '{' :: (ls.flatMap (fun l => l.text ++ [',']) ++ (l.text ++ ['}']))

def text : Text :=
  line.lead.1 ++ ((match line.bestModel with
    | none => []
    | some w => "Best model:".toList ++ w.1) ++ (line.answerText ++ line.trail.1))

end AnswerSetLine

section Lines

variable {bso : BeliefStateOffset} {btab : BeliefTable} {ctx : ℕ} {comment : Char} {r : Text}
  {s : NewBeliefState bso.width}

lemma IsFact.visible {t : Text} (ht : IsFact t) :
    ∃ c cs, t = c :: cs ∧ isVisible c = true ∧ c ≠ '-' ∧ c ≠ '}' := by
  obtain ⟨i, hi, ht⟩ := ht
  have hi' : ∃ c cs, i = c :: cs ∧ isVisible c = true ∧ c ≠ '-' ∧ c ≠ '}' := by
    rcases hi with ⟨cs, rfl, -⟩ | ⟨c, cs, rfl, hc, -⟩
    · exact ⟨'"', _, rfl, by decide, by decide, by decide⟩
    · refine ⟨c, cs, rfl, isVisible_of_isIdentChar (isIdentChar_of_isLower hc), ?_, ?_⟩
      · rintro rfl
        revert hc
        decide
      · rintro rfl
        revert hc
        decide
  obtain ⟨c, cs, rfl, h⟩ := hi'
  rcases ht with rfl | ⟨a, as, -, rfl⟩
  · exact ⟨c, cs, rfl, h⟩
  · exact ⟨c, _, rfl, h⟩

/-- The sequence inside a literal, up to its stop. -/
lemma literal_append (hcom : IsComment comment) (l : Literal btab) {stop next : Char}
    (hnext : next = ',' ∨ next = '}') :
    literal bso btab ctx (skipper comment) stop (l.text ++ next :: r) s =
      if stop = next then ofAction () r (l.step bso ctx s)
      else .failure (l.text ++ next :: r) s := by
  have hstops : Stops (next :: r) ∧ next ≠ '(' := by
    rcases hnext with rfl | rfl
    · exact ⟨stops_cons (by decide), by decide⟩
    · exact ⟨stops_cons (by decide), by decide⟩
  obtain ⟨c, cs, hc, hvisible, hminus, -⟩ := l.isFact.visible
  have hfact : ∀ w : Blanks, fact (skipper comment) (w.1 ++ (l.belief.text ++ next :: r)) s =
      .success l.belief.text (next :: r) s := by
    intro w
    have h := fact_append (s := s) hcom l.isFact hstops.1 (by simpa using hstops.2)
    unfold fact at h ⊢
    unfold raw at h ⊢
    rwa [skipper_blanks w.2]
  have hsign : opt (charIf (skipper comment) (fun c => c = '-')) (l.text ++ next :: r) s =
      .success l.sign
        (if l.negated then l.between.1 ++ (l.belief.text ++ next :: r)
          else l.belief.text ++ next :: r) s := by
    unfold Literal.text Literal.sign
    cases l.negated with
    | true =>
        apply opt_of_success
        apply charIf_of_test _ (by simp)
        simp only [List.append_assoc]
        rw [skipper_blanks l.before.2]
        exact skipper_of_isVisible hcom (by decide)
    | false =>
        have hskip : skipper comment (l.before.1 ++ (l.between.1 ++ (l.belief.text ++ next :: r))) =
            l.belief.text ++ next :: r := by
          rw [skipper_blanks l.before.2, skipper_blanks l.between.2, hc]
          exact skipper_of_isVisible hcom hvisible
        apply opt_of_failure
        simp only [Bool.false_eq_true, if_false, Option.toList_none, List.nil_append,
          List.append_assoc]
        rw [charIf_of_not_test, hskip]
        rw [hskip, hc]
        simpa using hminus
  have hrest : fact (skipper comment)
      (if l.negated then l.between.1 ++ (l.belief.text ++ next :: r)
        else l.belief.text ++ next :: r) s = .success l.belief.text (next :: r) s := by
    cases l.negated with
    | true => exact hfact l.between
    | false => exact hfact noBlanks
  have hskip := hstops.1.skipper hcom
  unfold literal
  -- what follows the belief is the stop, or the sequence fails as a whole
  by_cases hstop : stop = next
  · rw [if_pos hstop, action_of_success (a := (l.sign, l.belief.text)) (r := r) (u := s)]
    · unfold Literal.step
      cases handleLiteral bso btab ctx (l.sign, l.belief.text) s with
      | none => rfl
      | some res => rfl
    · rw [bind_of_success hsign, bind_of_success hrest, bind_of_success (r := r) (u := s)]
      · rfl
      · exact lit_of_skip (by rw [hskip, hstop]; rfl)
  · rw [if_neg hstop]
    apply action_of_failure
    rw [bind_of_success hsign, bind_of_success hrest, bind_of_failure (r := next :: r) (u := s)]
    · rfl
    · rw [lit_of_none, hskip]
      rw [hskip]
      simp [afterText, hstop]

/-- The first visible character of a literal does not close the answer set. -/
lemma Literal.skipper_text (hcom : IsComment comment) (l : Literal btab) :
    ∃ c cs, skipper comment (l.text ++ r) = c :: cs ∧ c ≠ '}' := by
  obtain ⟨c, cs, hc, hvisible, -, hclose⟩ := l.isFact.visible
  unfold Literal.text Literal.sign
  simp only [List.append_assoc]
  rw [skipper_blanks l.before.2]
  cases l.negated with
  | true => exact ⟨'-', _, skipper_of_isVisible hcom (by decide), by decide⟩
  | false =>
      refine ⟨c, cs ++ r, ?_, hclose⟩
      show skipper comment (l.between.1 ++ (l.belief.text ++ r)) = _
      rw [skipper_blanks l.between.2, hc]
      exact skipper_of_isVisible hcom hvisible

lemma answerset_append (hcom : IsComment comment) (line : AnswerSetLine btab) (w : Blanks) :
    answerset bso btab ctx (skipper comment) (w.1 ++ (line.answerText ++ r)) s =
      ofAction () r (line.literals.foldlM (fun s l => l.step bso ctx s) s) := by
  have hopen : ∀ inp, lit (skipper comment) ['{'] (w.1 ++ '{' :: inp) s = .success () inp s := by
    intro inp
    apply lit_singleton
    rw [skipper_blanks w.2]
    exact skipper_of_isVisible hcom (by decide)
  have hclose : lit (skipper comment) ['}'] ('}' :: r) s = .success () r s :=
    lit_singleton (skipper_of_isVisible hcom (by decide))
  unfold answerset AnswerSetLine.answerText AnswerSetLine.literals
  cases line.answer with
  | none =>
      apply alt_of_success
      rw [List.cons_append, bind_of_success (hopen _), List.cons_append, List.nil_append, hclose]
      rfl
  | some answer =>
      obtain ⟨ls, l⟩ := answer
      simp only [List.cons_append, List.append_assoc, List.nil_append]
      -- the alternative `{}` has to fail here
      have hfirst : ∃ c cs, skipper comment
          (ls.flatMap (fun l => l.text ++ [',']) ++ (l.text ++ '}' :: r)) = c :: cs ∧ c ≠ '}' := by
        cases ls with
        | nil => exact l.skipper_text hcom
        | cons l' ls =>
            simp only [List.flatMap_cons, List.append_assoc]
            exact l'.skipper_text hcom
      -- the repetition takes all literals but the last, which has no comma behind it
      have hmany : many (mlit bso btab ctx (skipper comment))
          (ls.flatMap (fun l => l.text ++ [',']) ++ (l.text ++ '}' :: r)) s =
          ofAction (ls.map (fun _ => ())) (l.text ++ '}' :: r)
            (ls.foldlM (fun s l => l.step bso ctx s) s) := by
        apply many_texts (fun _ => True)
        · intro l _ r s _
          rw [List.append_assoc, List.singleton_append]
          exact (literal_append hcom l (Or.inl rfl)).trans (if_pos rfl)
        · intro l _
          exact ⟨by simp, fun _ => trivial⟩
        · trivial
        · intro s
          exact (literal_append hcom l (Or.inr rfl)).trans (if_neg (by decide))
      have hlast : ∀ s, flit bso btab ctx (skipper comment) (l.text ++ '}' :: r) s =
          ofAction () r (l.step bso ctx s) :=
        fun s => (literal_append hcom l (Or.inr rfl)).trans (if_pos rfl)
      rw [alt_of_failure (r := w.1 ++ '{' :: _) (u := s), bind_of_success (hopen _),
        List.foldlM_append]
      · cases hfold : ls.foldlM (fun s l => l.step bso ctx s) s with
        | none =>
            rw [hfold] at hmany
            rw [bind_of_abort hmany]
            rfl
        | some s' =>
            rw [hfold] at hmany
            rw [bind_of_success hmany, hlast]
            show _ = ofAction () r ((l.step bso ctx s').bind some)
            cases l.step bso ctx s' with
            | none => rfl
            | some s'' => rfl
      · obtain ⟨c, cs, hskip, hc⟩ := hfirst
        rw [bind_of_success (hopen _), lit_of_none]
        · rfl
        · rw [hskip]
          simp [afterText, Ne.symm hc]

/-- Both parsers, from whatever state they begin with, read every answer-set line to its end and
apply the literals in order; only an assertion of a literal can stop them. -/
lemma phraseParse_text (hcom : IsComment comment) (line : AnswerSetLine btab) :
    phraseParse (skipper comment) (dlvline bso btab ctx (skipper comment)) line.text s =
      match line.literals.foldlM (fun s l => l.step bso ctx s) s with
      | some s' => .ok s'
      | none => .error .aborted := by
  have hstart : ∃ cs, line.answerText = '{' :: cs := by
    unfold AnswerSetLine.answerText
    cases line.answer with
    | none => exact ⟨_, rfl⟩
    | some answer => exact ⟨_, rfl⟩
  have htrail : skipper comment line.trail.1 = [] := by
    rw [← List.append_nil line.trail.1, skipper_blanks line.trail.2, skipper_nil]
  have hbest : ∃ (found : Option Unit) (w : Blanks),
      opt (lit (skipper comment) "Best model:".toList) line.text s =
        .success found (w.1 ++ (line.answerText ++ line.trail.1)) s := by
    unfold AnswerSetLine.text
    cases line.bestModel with
    | some w =>
        refine ⟨some (), w, opt_of_success (lit_of_skip ?_)⟩
        rw [skipper_blanks line.lead.2, List.append_assoc]
        exact skipper_of_isVisible hcom (by decide)
    | none =>
        refine ⟨none, noBlanks, ?_⟩
        obtain ⟨cs, hcs⟩ := hstart
        have hskip : skipper comment (line.lead.1 ++ ([] ++ (line.answerText ++ line.trail.1))) =
            [] ++ (line.answerText ++ line.trail.1) := by
          rw [skipper_blanks line.lead.2, hcs]
          exact skipper_of_isVisible hcom (by decide)
        apply opt_of_failure
        rw [lit_of_none, hskip]
        · rfl
        · rw [hskip, hcs]
          rfl
  obtain ⟨found, w, hfound⟩ := hbest
  have hanswer : (do
      let _ ← opt (lit (skipper comment) "Best model:".toList)
      answerset bso btab ctx (skipper comment)) line.text s =
      ofAction () line.trail.1 (line.literals.foldlM (fun s l => l.step bso ctx s) s) := by
    rw [bind_of_success hfound, answerset_append hcom]
    cases line.literals.foldlM (fun s l => l.step bso ctx s) s with
    | none => rfl
    | some s' => rfl
  unfold phraseParse dlvline alt
  rw [hanswer]
  cases line.literals.foldlM (fun s l => l.step bso ctx s) s with
  | none => rfl
  | some s' => simp [htrail]

end Lines

/-! ## The states the parsers build -/

section States

variable {bso : BeliefStateOffset} {btab : BeliefTable} {ctx : ℕ}

/-- A run of writes into a state. -/
def writes {w : ℕ} (ps : List (ℕ × TruthVal)) (s : NewBeliefState w) : NewBeliefState w :=
  ps.foldl (fun s p => s.set p.1 p.2) s

/-- The last write to a position decides. -/
lemma test_writes {w i : ℕ} (hi : i < w) (ps : List (ℕ × TruthVal)) (s : NewBeliefState w) :
    (writes ps s).test i =
      match ps.reverse.find? (fun p => p.1 = i) with
      | some p => p.2
      | none => s.test i := by
  induction ps using List.reverseRecOn with
  | nil => rfl
  | append_singleton ps p ih =>
      have hstep : writes (ps ++ [p]) s = (writes ps s).set p.1 p.2 := by
        simp [writes, List.foldl_append]
      rw [hstep, List.reverse_append, List.reverse_singleton, List.singleton_append,
        List.find?_cons]
      by_cases hp : p.1 = i
      · subst hp
        simp only [decide_true]
        exact NewContext.test_set_self _ hi p.2
      · simp only [hp, decide_false]
        rw [NewContext.test_set_ne _ (Ne.symm hp), ih]

/-- Two states that agree wherever nothing is written are equal after the writes. -/
lemma writes_congr {w : ℕ} (ps : List (ℕ × TruthVal)) (s t : NewBeliefState w)
    (h : ∀ i, (∀ p ∈ ps, p.1 ≠ i) → s.status_bit.getLsbD i = t.status_bit.getLsbD i ∧
      s.value_bit.getLsbD i = t.value_bit.getLsbD i) : writes ps s = writes ps t := by
  induction ps generalizing s t with
  | nil =>
      exact NewBeliefState.ext_bits (fun i => (h i (by simp)).1) (fun i => (h i (by simp)).2)
  | cons p ps ih =>
      apply ih
      intro i hi
      rw [NewBeliefState.set_status, NewBeliefState.set_status, NewBeliefState.set_value,
        NewBeliefState.set_value]
      by_cases hp : i = p.1 ∧ i < w
      · rw [if_pos hp, if_pos hp, if_pos hp, if_pos hp]
        exact ⟨rfl, rfl⟩
      · rw [if_neg hp, if_neg hp, if_neg hp, if_neg hp]
        by_cases hw : i < w
        · apply h
          intro q hq
          rcases List.mem_cons.1 hq with rfl | hq
          · exact fun heq => hp ⟨heq.symm, hw⟩
          · exact hi q hq
        · simp [BitVec.getLsbD_of_ge _ _ (not_lt.mp hw)]

/-- The truth value a literal gives its belief. -/
def Literal.value (l : Literal btab) : TruthVal := if l.negated then .dmcsFalse else .dmcsTrue

/-- The write of a literal. -/
def Literal.write (bso : BeliefStateOffset) (ctx : ℕ) (l : Literal btab) : ℕ × TruthVal :=
  (bso.startingOffset ctx + l.belief.address, l.value)

lemma Literal.step_eq (hctx : ctx < bso.noBlocks) (s : NewBeliefState bso.width)
    (l : Literal btab) :
    l.step bso ctx s =
      if (l.write bso ctx).1 < bso.width then
        some (s.set (l.write bso ctx).1 (l.write bso ctx).2) else none := by
  have hid : btab.getIDByString l.belief.text = l.belief.id :=
    BeliefTable.getIDByString_of_mem l.mem_beliefs
  have hfail := BeliefTable.ne_ID_FAIL (btab.isBelief_of_mem _ l.mem_beliefs)
  have hvalue : (if l.sign.isSome then TruthVal.dmcsFalse else .dmcsTrue) = l.value := by
    unfold Literal.sign Literal.value
    cases l.negated with
    | true => rfl
    | false => rfl
  unfold Literal.step handleLiteral
  simp only [hid, hvalue]
  by_cases hlt : bso.startingOffset ctx + l.belief.address < bso.width
  · rw [if_pos ⟨hfail, hctx, hlt⟩]
    exact (if_pos hlt).symm
  · rw [if_neg (fun h => hlt h.2.2)]
    exact (if_neg hlt).symm

/-- The literals are written in order, unless one of them lies outside the vector. -/
lemma foldlM_step (hctx : ctx < bso.noBlocks) (ls : List (Literal btab))
    (s : NewBeliefState bso.width) :
    ls.foldlM (fun s l => l.step bso ctx s) s =
      if ∀ l ∈ ls, (l.write bso ctx).1 < bso.width then
        some (writes (ls.map (Literal.write bso ctx)) s) else none := by
  induction ls generalizing s with
  | nil => simp [writes]
  | cons l ls ih =>
      rw [List.foldlM_cons, Literal.step_eq hctx]
      by_cases hl : (l.write bso ctx).1 < bso.width
      · rw [if_pos hl]
        show ls.foldlM (fun s l => l.step bso ctx s) _ = _
        rw [ih]
        simp [hl, writes]
      · rw [if_neg hl, if_neg (fun h => hl (h l List.mem_cons_self))]
        rfl

/-- The last literal on a belief. -/
def lastLiteral (ls : List (Literal btab)) (address : ℕ) : Option (Literal btab) :=
  ls.reverse.find? (fun l => l.belief.address = address)

lemma test_writes_literals {address : ℕ} (h : bso.startingOffset ctx + address < bso.width)
    (ls : List (Literal btab)) (s : NewBeliefState bso.width) :
    (writes (ls.map (Literal.write bso ctx)) s).test (bso.startingOffset ctx + address) =
      match lastLiteral ls address with
      | some l => l.value
      | none => s.test (bso.startingOffset ctx + address) := by
  rw [test_writes h, ← List.map_reverse, List.find?_map]
  have hpred : (fun p : ℕ × TruthVal => decide (p.1 = bso.startingOffset ctx + address)) ∘
      Literal.write bso ctx = fun l : Literal btab => decide (l.belief.address = address) := by
    funext l
    simp [Literal.write]
  rw [hpred]
  unfold lastLiteral
  cases ls.reverse.find? (fun l => decide (l.belief.address = address)) with
  | none => rfl
  | some l => rfl

/-- `reset_current` differs from an empty state in the block of the context only. -/
lemma resetCurrent_outside (hctx : ctx < bso.noBlocks) {i : ℕ}
    (hi : ∀ address ≤ bso.sizeBs, bso.startingOffset ctx + address ≠ i) :
    (resetCurrent bso ctx).status_bit.getLsbD i = false ∧
      (resetCurrent bso ctx).value_bit.getLsbD i = false := by
  have hstart : i ≠ bso.startingOffset ctx := fun h => hi 0 (Nat.zero_le _) h.symm
  have hloop : ∀ (ps : List ℕ) (s : NewBeliefState bso.width), i ∉ ps →
      (ps.foldl (fun s p => s.set p .dmcsFalse) s).status_bit.getLsbD i =
          s.status_bit.getLsbD i ∧
        (ps.foldl (fun s p => s.set p .dmcsFalse) s).value_bit.getLsbD i =
          s.value_bit.getLsbD i := by
    intro ps
    induction ps with
    | nil => exact fun s _ => ⟨rfl, rfl⟩
    | cons p ps ih =>
        intro s hmem
        rw [List.mem_cons, not_or] at hmem
        obtain ⟨hs, hv⟩ := ih (s.set p .dmcsFalse) hmem.2
        rw [NewBeliefState.set_status, if_neg (fun h => hmem.1 h.1)] at hs
        rw [NewBeliefState.set_value, if_neg (fun h => hmem.1 h.1)] at hv
        exact ⟨hs, hv⟩
  have hrange : i ∉ List.range' (bso.startingOffset ctx + 1)
      (NewBeliefState.endBit bso ctx - (bso.startingOffset ctx + 1)) := by
    rw [List.mem_range'_1, NewBeliefState.endBit_eq hctx]
    rintro ⟨hlow, hhigh⟩
    exact hi (i - bso.startingOffset ctx) (by omega) (by omega)
  obtain ⟨hs, hv⟩ := hloop _ ((NewBeliefState.empty bso.width).setEpsilon bso ctx) hrange
  rw [NewBeliefState.setEpsilon_status, if_neg (fun h => hstart h.1)] at hs
  rw [NewBeliefState.setEpsilon_value, if_neg (fun h => hstart h.1)] at hv
  exact ⟨hs.trans (by simp), hv.trans (by simp)⟩

/-- The two parsers return the same state, in which the context's block is defined, the listed
positive beliefs are `TRUE` and all other beliefs of the block are `FALSE`. -/
def ParsersAgree (bso : BeliefStateOffset) (ctx : ℕ) (line : AnswerSetLine btab) : Prop :=
  ∃ bs, parseString bso btab ctx line.text = .ok bs ∧
    newParseString bso btab ctx line.text = .ok bs ∧
    bs.test (bso.startingOffset ctx) = .dmcsTrue ∧
    (∀ l ∈ line.literals, l.negated = false →
      bs.test (bso.startingOffset ctx + l.belief.address) = .dmcsTrue) ∧
    ∀ address, 1 ≤ address → address ≤ bso.sizeBs →
      (∀ l ∈ line.literals, l.belief.address = address → l.negated = true) →
      bs.test (bso.startingOffset ctx + address) = .dmcsFalse

/-- The line decides every bit of the context's block by itself. -/
structure DecidesBlock (bso : BeliefStateOffset) (ctx : ℕ) (line : AnswerSetLine btab) :
    Prop where
  /-- Every listed belief has a bit in the belief state. -/
  inside : ∀ l ∈ line.literals, bso.startingOffset ctx + l.belief.address < bso.width
  /-- The epsilon belief is listed, not negated. -/
  epsilon : ∃ l ∈ line.literals, l.belief.address = 0 ∧ l.negated = false
  /-- Every other belief of the block is listed, negated or not. -/
  covers : ∀ address, 1 ≤ address → address ≤ bso.sizeBs →
    ∃ l ∈ line.literals, l.belief.address = address
  /-- The last literal on a belief that is listed positively is positive. -/
  positive : ∀ l ∈ line.literals, l.negated = false →
    ∀ l' ∈ lastLiteral line.literals l.belief.address, l'.negated = false

lemma lastLiteral_eq_none {ls : List (Literal btab)} {address : ℕ} :
    lastLiteral ls address = none ↔ ∀ l ∈ ls, l.belief.address ≠ address := by
  unfold lastLiteral
  rw [List.find?_eq_none]
  simp

lemma mem_of_lastLiteral {ls : List (Literal btab)} {address : ℕ} {l : Literal btab}
    (h : lastLiteral ls address = some l) : l ∈ ls ∧ l.belief.address = address :=
  ⟨List.mem_reverse.1 (List.mem_of_find?_eq_some h), by simpa using List.find?_some h⟩

lemma Literal.value_eq_true {l : Literal btab} : l.value = .dmcsTrue ↔ l.negated = false := by
  unfold Literal.value
  cases l.negated with
  | true => simp
  | false => simp

lemma Literal.value_eq_false {l : Literal btab} : l.value = .dmcsFalse ↔ l.negated = true := by
  unfold Literal.value
  cases l.negated with
  | true => simp
  | false => simp

variable {line : AnswerSetLine btab}

lemma phraseParse_eq {comment : Char} (hcom : IsComment comment) (hctx : ctx < bso.noBlocks)
    (s : NewBeliefState bso.width) :
    phraseParse (skipper comment) (dlvline bso btab ctx (skipper comment)) line.text s =
      if ∀ l ∈ line.literals, bso.startingOffset ctx + l.belief.address < bso.width then
        .ok (writes (line.literals.map (Literal.write bso ctx)) s)
      else .error .aborted := by
  rw [phraseParse_text hcom, foldlM_step hctx]
  by_cases h : ∀ l ∈ line.literals, (l.write bso ctx).1 < bso.width
  · rw [if_pos h]
    exact (if_pos h).symm
  · rw [if_neg h]
    exact (if_neg h).symm

lemma parsersAgree_of_decidesBlock (hctx : ctx < bso.noBlocks) (h : DecidesBlock bso ctx line) :
    ParsersAgree bso ctx line := by
  have hlt : ∀ address, address ≤ bso.sizeBs → bso.startingOffset ctx + address < bso.width :=
    fun address haddress => bso.startingOffset_add_lt hctx haddress
  -- every bit of the block is written, so the two initial states make no difference
  have hsame : writes (line.literals.map (Literal.write bso ctx)) (resetCurrent bso ctx) =
      writes (line.literals.map (Literal.write bso ctx)) (NewBeliefState.empty bso.width) := by
    apply writes_congr
    intro i hi
    rw [NewBeliefState.empty_status, NewBeliefState.empty_value]
    apply resetCurrent_outside hctx
    rintro address haddress rfl
    have hlisted : ∃ l ∈ line.literals, l.belief.address = address := by
      rcases Nat.eq_zero_or_pos address with rfl | hpos
      · obtain ⟨l, hl, hzero, -⟩ := h.epsilon
        exact ⟨l, hl, hzero⟩
      · exact h.covers address hpos haddress
    obtain ⟨l, hl, rfl⟩ := hlisted
    exact hi _ (List.mem_map_of_mem hl) rfl
  have htest : ∀ l ∈ line.literals, l.negated = false →
      (writes (line.literals.map (Literal.write bso ctx)) (NewBeliefState.empty bso.width)).test
        (bso.startingOffset ctx + l.belief.address) = .dmcsTrue := by
    intro l hl hpos
    rw [test_writes_literals (h.inside l hl)]
    cases hlast : lastLiteral line.literals l.belief.address with
    | none => exact absurd rfl (lastLiteral_eq_none.1 hlast l hl)
    | some l' => exact Literal.value_eq_true.2 (h.positive l hl hpos l' hlast)
  refine ⟨_, (phraseParse_eq (Or.inl rfl) hctx _).trans (if_pos h.inside),
    (phraseParse_eq (Or.inr rfl) hctx _).trans ((if_pos h.inside).trans (by rw [hsame])), ?_, htest,
    ?_⟩
  · obtain ⟨l, hl, hzero, hpos⟩ := h.epsilon
    have hl' := htest l hl hpos
    rwa [hzero] at hl'
  · intro address hone hsize hneg
    rw [test_writes_literals (hlt address hsize)]
    cases hlast : lastLiteral line.literals address with
    | none =>
        obtain ⟨l, hl, hla⟩ := h.covers address hone hsize
        exact absurd hla (lastLiteral_eq_none.1 hlast l hl)
    | some l' =>
        obtain ⟨hmem, haddr⟩ := mem_of_lastLiteral hlast
        exact Literal.value_eq_false.2 (hneg l' hmem haddr)

lemma decidesBlock_of_parsersAgree (hctx : ctx < bso.noBlocks) (h : ParsersAgree bso ctx line) :
    DecidesBlock bso ctx line := by
  obtain ⟨bs, hold, -, hepsilon, hpositive, hother⟩ := h
  have hparse : parseString bso btab ctx line.text = _ :=
    phraseParse_eq (Or.inl rfl : IsComment '#') hctx (NewBeliefState.empty bso.width)
  have hinside : ∀ l ∈ line.literals, bso.startingOffset ctx + l.belief.address < bso.width := by
    by_contra hout
    rw [if_neg hout] at hparse
    exact absurd (hparse.symm.trans hold) (by simp)
  rw [if_pos hinside] at hparse
  have hbs : bs =
      writes (line.literals.map (Literal.write bso ctx)) (NewBeliefState.empty bso.width) :=
    Except.ok.inj (hold.symm.trans hparse)
  have htest : ∀ address, bso.startingOffset ctx + address < bso.width →
      bs.test (bso.startingOffset ctx + address) =
        match lastLiteral line.literals address with
        | some l => l.value
        | none => .dmcsUndef := by
    intro address haddress
    rw [hbs, test_writes_literals haddress]
    cases lastLiteral line.literals address with
    | none => simp [NewBeliefState.test]
    | some l => rfl
  refine ⟨hinside, ?_, ?_, ?_⟩
  · have hzero := htest 0 (bso.startingOffset_add_lt hctx (Nat.zero_le _))
    rw [Nat.add_zero, hepsilon] at hzero
    cases hlast : lastLiteral line.literals 0 with
    | none =>
        rw [hlast] at hzero
        cases hzero
    | some l =>
        rw [hlast] at hzero
        obtain ⟨hmem, haddr⟩ := mem_of_lastLiteral hlast
        exact ⟨l, hmem, haddr, Literal.value_eq_true.1 hzero.symm⟩
  · intro address hone hsize
    by_contra hnone
    have hunlisted : ∀ l ∈ line.literals, l.belief.address ≠ address :=
      fun l hl haddr => hnone ⟨l, hl, haddr⟩
    have hundef := htest address (bso.startingOffset_add_lt hctx hsize)
    rw [lastLiteral_eq_none.2 hunlisted,
      hother address hone hsize (fun l hl haddr => absurd haddr (hunlisted l hl))] at hundef
    cases hundef
  · intro l hl hpos l' hlast
    have htrue := htest l.belief.address (hinside l hl)
    rw [hpositive l hl hpos, Option.mem_def.1 hlast] at htrue
    exact Literal.value_eq_true.1 htrue.symm

end States

/-- The parsers agree on exactly the lines that list the whole block of the context, with the
epsilon belief: the generic parser defines nothing else.  Both parsers accept the line and fold its
literals into a state; they differ only in what they leave undefined. -/
theorem parsersAgree_iff (bso : BeliefStateOffset) (btab : BeliefTable) (ctx : Fin bso.noBlocks)
    (line : AnswerSetLine btab) : ParsersAgree bso ctx line ↔ DecidesBlock bso ctx line :=
  ⟨decidesBlock_of_parsersAgree ctx.2, parsersAgree_of_decidesBlock ctx.2⟩

/-- A context with the belief `a`, next to its epsilon belief. -/
def oneBelief : BeliefTable :=
  (BeliefTable.storeAll [Belief.ofContext 0 0 "epsilon".toList,
    Belief.ofContext 0 0 "a".toList]).getD BeliefTable.empty

lemma isFact_of_isPlain {t : Text} (h : IsPlain t) : IsFact t := ⟨t, Or.inr h, Or.inl rfl⟩

lemma belief_a_mem : Belief.ofContext 0 1 "a".toList ∈ oneBelief.beliefs := by decide

lemma belief_a_isPlain : IsPlain (Belief.ofContext 0 1 "a".toList).text :=
  ⟨'a', [], by decide, by decide, by simp⟩

/-- The line `{a}`. -/
def lineA : AnswerSetLine oneBelief :=
  ⟨noBlanks, none,
    some ([], ⟨noBlanks, false, noBlanks, Belief.ofContext 0 1 "a".toList, belief_a_mem,
      isFact_of_isPlain belief_a_isPlain⟩), noBlanks⟩

/-- The line of an answer set with every belief of the context: the generic parser leaves the
epsilon bit off. -/
theorem parsers_disagree_on_lineA :
    lineA.text = "\x7ba\x7d".toList ∧ ¬ ParsersAgree (BeliefStateOffset.ofSucc 0 0) 0 lineA := by
  refine ⟨by decide, ?_⟩
  intro h
  obtain ⟨l, hl, hzero, -⟩ := (decidesBlock_of_parsersAgree Nat.one_pos h).epsilon
  have hone : l.belief.address = 1 := by
    rw [List.mem_singleton.1 hl]
    rfl
  omega

end DLVResultGrammar

end Dmcs
