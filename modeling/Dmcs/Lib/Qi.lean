import Mathlib.Algebra.Ring.Int.Defs
import Mathlib.Algebra.Ring.Nat
import Mathlib.Data.List.Basic
import Mathlib.Tactic.Common

/-!
# Recursive descent parsers with skippers and semantic actions

The parser combinators of Boost.Spirit Qi.  A parser reads a list of characters and changes a state
`σ` through its semantic actions.  The state is mutable in C++: what an action did stays when the
alternative it belongs to is given up later, so a failure carries the state it leaves.  A failure
also carries a position, because a primitive that does not match has already skipped the blanks in
front of it; a sequence puts the position back, a Kleene star stops there.

`Outcome.abort` stands for a run that does not come back to its caller: an assertion failed in a
semantic action, or a Kleene star repeats a subject that matches nothing.

Every primitive takes the skipper it runs first; inside `lexeme` it is `id`.

## How proofs use it

The rules below say what a combinator does when the outcomes of its parts are known; proofs about a
grammar rewrite with them and do not unfold a combinator.  For texts that are written piece by piece
there are rules for whole repetitions: `many_texts` for a Kleene star, `sepBy_texts` for a list, and
`closedList_good` and `closedList_bad` for a list that is written one element per line.
-/

namespace Qi

/-- What a parser leaves behind. -/
inductive Outcome (σ α : Type) where
  | success (attr : α) (rest : List Char) (state : σ)
  | failure (rest : List Char) (state : σ)
  | abort
  deriving Repr, DecidableEq

/-- A parser with attribute `α` over the semantic state `σ`. -/
abbrev Parser (σ α : Type) : Type := List Char → σ → Outcome σ α

/-- A function on characters that drops what stands between two tokens. -/
abbrev Skipper : Type := List Char → List Char

variable {σ α β : Type}

namespace Outcome

/-- Change the attribute. -/
def map (f : α → β) : Outcome σ α → Outcome σ β
  | success a rest s => success (f a) rest s
  | failure rest s => failure rest s
  | abort => abort

/-- Put the position of a failure back to `inp`. -/
def restore (inp : List Char) : Outcome σ α → Outcome σ α
  | success a rest s => success a rest s
  | failure _ s => failure inp s
  | abort => abort

end Outcome

/-! ## Combinators -/

/-- The sequence `p >> q`: a failure of either leaves the position where it was. -/
def Parser.seq (p : Parser σ α) (f : α → Parser σ β) : Parser σ β := fun inp s =>
  match p inp s with
  | .success a rest s' => (f a rest s').restore inp
  | .failure _ s' => .failure inp s'
  | .abort => .abort

instance : Monad (Parser σ) where
  pure a := fun inp s => .success a inp s
  bind := Parser.seq
  map f p := fun inp s => (p inp s).map f

/-- The alternative `p | q`: `q` starts where `p` gave up. -/
def alt (p q : Parser σ α) : Parser σ α := fun inp s =>
  match p inp s with
  | .success a rest s' => .success a rest s'
  | .failure rest s' => q rest s'
  | .abort => .abort

/-- The optional parser `-p`. -/
def opt (p : Parser σ α) : Parser σ (Option α) := fun inp s =>
  match p inp s with
  | .success a rest s' => .success (some a) rest s'
  | .failure rest s' => .success none rest s'
  | .abort => .abort

/-- The loop of the Kleene star.  A subject that consumes nothing is matched again for ever. -/
def manyLoop (p : Parser σ α) : ℕ → Parser σ (List α)
  | 0 => fun _ _ => .abort
  | n + 1 => fun inp s =>
      match p inp s with
      | .success a rest s' =>
          if rest.length < inp.length then (manyLoop p n rest s').map (a :: ·) else .abort
      | .failure rest s' => .success [] rest s'
      | .abort => .abort

/-- The Kleene star `*p`. -/
def many (p : Parser σ α) : Parser σ (List α) := fun inp s => manyLoop p (inp.length + 1) inp s

/-- The plus `+p`. -/
def many1 (p : Parser σ α) : Parser σ (List α) := do
  let a ← p
  let as ← many p
  pure (a :: as)

/-- The list `p % q`: a separator that no element follows is left in the input. -/
def sepBy (p : Parser σ α) (q : Parser σ β) : Parser σ (List α) := do
  let a ← p
  let as ← many (do let _ ← q; p)
  pure (a :: as)

/-- A parser with a semantic action `p[f]`; `none` is a failing assertion in the action. -/
def action (p : Parser σ α) (f : α → σ → Option (σ × β)) : Parser σ β := fun inp s =>
  match p inp s with
  | .success a rest s' =>
      match f a s' with
      | some (s'', b) => .success b rest s''
      | none => .abort
  | .failure rest s' => .failure rest s'
  | .abort => .abort

/-! ## Primitives -/

/-- What follows the text `t` at the start of the input. -/
def afterText : List Char → List Char → Option (List Char)
  | [], inp => some inp
  | _ :: _, [] => none
  | c :: t, d :: inp => if c = d then afterText t inp else none

section Primitives

variable (skip : Skipper)

/-- A character of a class. -/
def charIf (test : Char → Bool) : Parser σ Char := fun inp s =>
  match skip inp with
  | [] => .failure [] s
  | c :: rest => if test c then .success c rest s else .failure (c :: rest) s

/-- The literal `lit(t)`. -/
def lit (t : List Char) : Parser σ Unit := fun inp s =>
  match afterText t (skip inp) with
  | some rest => .success () rest s
  | none => .failure (skip inp) s

/-- The digits at the start of the input. -/
def digitsOf (inp : List Char) : List Char := inp.takeWhile Char.isDigit

/-- The number written by `ds`. -/
def numberOf (ds : List Char) : ℕ := Nat.ofDigitChars 10 ds 0

/-- `uint_` after its skipper: all digits that follow, as a number of 32 bits; a larger number does
not match. -/
def uintAt : Parser σ ℕ := fun inp s =>
  if digitsOf inp = [] ∨ 2 ^ 32 ≤ numberOf (digitsOf inp) then .failure inp s
  else .success (numberOf (digitsOf inp)) (inp.drop (digitsOf inp).length) s

/-- The sign `int_` accepts in front of the digits: whether it is a minus, and what follows it. -/
def signOf : List Char → Bool × List Char
  | '-' :: rest => (true, rest)
  | '+' :: rest => (false, rest)
  | inp => (false, inp)

/-- `int_` after its skipper: an optional sign and all digits that follow, as a signed number of 32
bits. -/
def intAt : Parser σ ℤ := fun inp s =>
  let (neg, body) := signOf inp
  let n := numberOf (digitsOf body)
  if digitsOf body = [] ∨ (if neg then 2 ^ 31 < n else 2 ^ 31 ≤ n) then .failure inp s
  else .success (if neg then -(n : ℤ) else n) (body.drop (digitsOf body).length) s

/-- `lexeme[p]`, with `p` built over the skipper `id`. -/
def lexeme (p : Parser σ α) : Parser σ α := fun inp s => p (skip inp) s

/-- `uint_`. -/
def uint : Parser σ ℕ := lexeme skip uintAt

/-- `int_`. -/
def int : Parser σ ℤ := lexeme skip intAt

/-- `raw[p]`: the characters `p` went over. -/
def raw (p : Parser σ α) : Parser σ (List Char) := fun inp s =>
  match p (skip inp) s with
  | .success _ rest s' => .success ((skip inp).take ((skip inp).length - rest.length)) rest s'
  | .failure _ s' => .failure (skip inp) s'
  | .abort => .abort

end Primitives

/-! ## Whole inputs -/

/-- How a call of a parser can end without a result: with an exception because the input does not
match, or not at all because an assertion failed. -/
inductive ParseError where
  | failed
  | aborted
  deriving Repr, DecidableEq

/-- `phrase_parse` and the test that the whole input was read. -/
def phraseParse (skip : Skipper) (p : Parser σ α) (inp : List Char) (s : σ) :
    Except ParseError σ :=
  match p inp s with
  | .success _ rest s' => if skip rest = [] then .ok s' else .error .failed
  | .failure _ _ => .error .failed
  | .abort => .error .aborted

/-! ## Skippers -/

/-- `ascii::space`. -/
def isSpace (c : Char) : Bool := c = ' ' || (9 ≤ c.toNat && c.toNat ≤ 13)

/-- A text of blanks only. -/
def IsBlank (w : List Char) : Prop := ∀ c ∈ w, isSpace c = true

instance (w : List Char) : Decidable (IsBlank w) :=
  List.decidableBAll (fun c => isSpace c = true) w

/-- `ascii::lower`. -/
def isLower (c : Char) : Bool := 'a'.toNat ≤ c.toNat && c.toNat ≤ 'z'.toNat

/-- `ascii::alnum`. -/
def isAlnum (c : Char) : Bool :=
  c.isDigit || isLower c || ('A'.toNat ≤ c.toNat && c.toNat ≤ 'Z'.toNat)

/-- Whether a character ends a line (`eol`). -/
def isEol (c : Char) : Bool := c = '\n' || c = '\r'

/-- The loop of the skipper below.  The end of a comment is a blank, so it is skipped with it. -/
def skipLoop (comment : Char) : Bool → Skipper
  | _, [] => []
  | true, c :: cs => if isEol c then skipLoop comment false cs else skipLoop comment true cs
  | false, c :: cs =>
      if isSpace c then skipLoop comment false cs
      else if c = comment then skipLoop comment true cs
      else c :: cs

/-- The skipper `space | lexeme[char_(comment) > *(char_ - eol)]`. -/
def skipper (comment : Char) : Skipper := skipLoop comment false

/-! ## Rules -/

section Rules

variable {p : Parser σ α} {f : α → Parser σ β} {inp r r' : List Char} {s u s₂ : σ} {a : α} {b : β}

@[simp] lemma restore_success : (Outcome.success a r s).restore inp = .success a r s := rfl

@[simp] lemma restore_failure : (Outcome.failure r s : Outcome σ α).restore inp = .failure inp s :=
  rfl

@[simp] lemma restore_abort : (Outcome.abort : Outcome σ α).restore inp = .abort := rfl

@[simp] lemma restore_restore (o : Outcome σ α) : (o.restore r).restore inp = o.restore inp := by
  cases o with
  | success => rfl
  | failure => rfl
  | abort => rfl

@[simp] lemma pure_apply : (pure a : Parser σ α) inp s = .success a inp s := rfl

@[simp] lemma map_apply (g : α → β) : (g <$> p) inp s = (p inp s).map g := rfl

@[simp] lemma lexeme_apply (skip : Skipper) : lexeme skip p inp s = p (skip inp) s := rfl

/-- The sequence, unfolded. -/
lemma bind_apply : (p >>= f) inp s =
    match p inp s with
    | .success a rest s' => (f a rest s').restore inp
    | .failure _ s' => .failure inp s'
    | .abort => .abort := rfl

lemma bind_of_success (h : p inp s = .success a r u) :
    (p >>= f) inp s = (f a r u).restore inp := by
  rw [bind_apply, h]

/-- A sequence restores the position itself. -/
lemma restore_bind : ((p >>= f) inp s).restore inp = (p >>= f) inp s := by
  rw [bind_apply]
  cases p inp s with
  | success a rest s' => exact restore_restore _
  | failure rest s' => rfl
  | abort => rfl

lemma rest_of_bind_failure (h : (p >>= f) inp s = .failure r u) : r = inp := by
  have hrestore : ((p >>= f) inp s).restore inp = (p >>= f) inp s := restore_bind
  rw [h] at hrestore
  exact (Outcome.failure.inj hrestore).1.symm

lemma bind_of_failure (h : p inp s = .failure r u) : (p >>= f) inp s = .failure inp u := by
  rw [bind_apply, h]

lemma bind_of_abort (h : p inp s = .abort) : (p >>= f) inp s = .abort := by
  rw [bind_apply, h]

/-- Sequences may be nested either way. -/
lemma bind_bind {γ : Type} (p : Parser σ α) (f : α → Parser σ β) (g : β → Parser σ γ) :
    (p >>= f) >>= g = p >>= fun a => f a >>= g := by
  funext inp s
  cases hp : p inp s with
  | success a rest s' =>
      rw [bind_of_success hp]
      cases hf : f a rest s' with
      | success b rest' s'' =>
          have hpf : (p >>= f) inp s = .success b rest' s'' := by
            rw [bind_of_success hp, hf]
            rfl
          rw [bind_of_success hpf, bind_of_success hf, restore_restore]
      | failure rest' s'' =>
          have hpf : (p >>= f) inp s = .failure inp s'' := by
            rw [bind_of_success hp, hf]
            rfl
          rw [bind_of_failure hpf, bind_of_failure hf]
          rfl
      | abort =>
          have hpf : (p >>= f) inp s = .abort := by
            rw [bind_of_success hp, hf]
            rfl
          rw [bind_of_abort hpf, bind_of_abort hf]
          rfl
  | failure rest s' => rw [bind_of_failure (bind_of_failure hp), bind_of_failure hp]
  | abort => rw [bind_of_abort (bind_of_abort hp), bind_of_abort hp]

lemma alt_of_success {q : Parser σ α} (h : p inp s = .success a r u) :
    alt p q inp s = .success a r u := by
  unfold alt
  rw [h]

lemma alt_of_failure {q : Parser σ α} (h : p inp s = .failure r u) : alt p q inp s = q r u := by
  unfold alt
  rw [h]

lemma opt_of_success (h : p inp s = .success a r u) : opt p inp s = .success (some a) r u := by
  unfold opt
  rw [h]

lemma opt_of_failure (h : p inp s = .failure r u) : opt p inp s = .success none r u := by
  unfold opt
  rw [h]

lemma action_of_success {g : α → σ → Option (σ × β)} (h : p inp s = .success a r u) :
    action p g inp s =
      match g a u with
      | some (s₂, b) => .success b r s₂
      | none => .abort := by
  unfold action
  rw [h]

lemma action_of_failure {g : α → σ → Option (σ × β)} (h : p inp s = .failure r u) :
    action p g inp s = .failure r u := by
  unfold action
  rw [h]

lemma raw_of_success {skip : Skipper} {t : List Char} (hskip : skip inp = t ++ r)
    (h : p (t ++ r) s = .success a r u) : raw skip p inp s = .success t r u := by
  unfold raw
  rw [hskip, h]
  simp

/-! ### Characters and literals -/

section Characters

variable {skip : Skipper} {test : Char → Bool} {c : Char}

lemma charIf_of_test (hskip : skip inp = c :: r) (hc : test c = true) :
    charIf skip test inp s = .success c r s := by
  unfold charIf
  rw [hskip]
  simp [hc]

/-- Inside `lexeme` nothing is skipped. -/
lemma charIf_id (hc : test c = true) : charIf id test (c :: r) s = .success c r s :=
  charIf_of_test (id_eq _) hc

lemma charIf_of_not_test (hc : ∀ c ∈ (skip inp).head?, test c = false) :
    charIf skip test inp s = .failure (skip inp) s := by
  unfold charIf
  cases hskip : skip inp with
  | nil => rfl
  | cons c r =>
      rw [hskip] at hc
      simp [hc c rfl]

/-- Two classes of characters are one class. -/
lemma alt_charIf (hskip : ∀ inp, skip (skip inp) = skip inp) (test' : Char → Bool) :
    alt (charIf skip test) (charIf skip test') =
      (charIf skip (fun c => test c || test' c) : Parser σ Char) := by
  funext inp s
  unfold alt charIf
  cases h : skip inp with
  | nil =>
      have hnil : skip [] = [] := by rw [← h, hskip]
      simp [hnil]
  | cons c r =>
      have hcons : skip (c :: r) = c :: r := by rw [← h, hskip]
      cases hc : test c with
      | true => simp [hc]
      | false => simp [hc, hcons]

lemma afterText_append (t r : List Char) : afterText t (t ++ r) = some r := by
  induction t with
  | nil => rfl
  | cons c t ih => simpa [afterText] using ih

lemma lit_of_skip {t : List Char} (hskip : skip inp = t ++ r) :
    lit skip t inp s = .success () r s := by
  unfold lit
  rw [hskip, afterText_append]

/-- A literal of one character. -/
lemma lit_singleton (hskip : skip inp = c :: r) : lit skip [c] inp s = .success () r s :=
  lit_of_skip hskip

lemma lit_of_none {t : List Char} (h : afterText t (skip inp) = none) :
    lit skip t inp s = .failure (skip inp) s := by
  unfold lit
  rw [h]

end Characters

end Rules

/-! ### Repetition -/

section Repetition

variable {p : Parser σ α} {inp r : List Char} {s u : σ} {a : α}

/-- More fuel than characters makes no difference. -/
lemma manyLoop_eq {n m : ℕ} (hn : inp.length < n) (hm : inp.length < m) :
    manyLoop p n inp s = manyLoop p m inp s := by
  induction n generalizing m inp s with
  | zero => omega
  | succ n ih =>
      obtain ⟨m, rfl⟩ : ∃ k, m = k + 1 := ⟨m - 1, by omega⟩
      unfold manyLoop
      cases p inp s with
      | success a rest s' =>
          by_cases hlt : rest.length < inp.length
          · simp only [hlt, if_true]
            rw [ih (by omega) (by omega : rest.length < m)]
          · simp only [hlt, if_false]
      | failure rest s' => rfl
      | abort => rfl

lemma many_of_failure (h : p inp s = .failure r u) : many p inp s = .success [] r u := by
  unfold many manyLoop
  rw [h]

lemma many_of_abort (h : p inp s = .abort) : many p inp s = .abort := by
  unfold many manyLoop
  rw [h]

lemma many_of_success (h : p inp s = .success a r u) (hr : r.length < inp.length) :
    many p inp s = (many p r u).map (a :: ·) := by
  unfold many
  simp only [manyLoop, h, hr, if_true]
  rw [manyLoop_eq (p := p) hr (Nat.lt_succ_self r.length)]
  rfl

/-- A success, or a failing assertion, according to what a semantic action gives. -/
def ofAction (a : α) (r : List Char) : Option σ → Outcome σ α
  | some s => .success a r s
  | none => .abort

@[simp] lemma ofAction_some : ofAction a r (some s) = .success a r s := rfl

@[simp] lemma ofAction_none : (ofAction a r none : Outcome σ α) = .abort := rfl

/-- The Kleene star on a text made of pieces that its subject reads one by one, up to a tail where
it fails.  `next` says how each piece may go on, `giveUp` what the failing attempt does to the
state. -/
lemma many_texts_giveUp {ι : Type} {text : ι → List Char} {attr : ι → α}
    {step : σ → ι → Option σ} {giveUp : σ → σ} {tail : List Char} (next : List Char → Prop)
    (xs : List ι)
    (hp : ∀ x ∈ xs, ∀ r s, next r → p (text x ++ r) s = ofAction (attr x) r (step s x))
    (htext : ∀ x ∈ xs, text x ≠ [] ∧ ∀ r, next (text x ++ r)) (htail : next tail)
    (hend : ∀ s, p tail s = .failure r (giveUp s)) (s : σ) :
    many p (xs.flatMap text ++ tail) s =
      ofAction (xs.map attr) r ((xs.foldlM step s).map giveUp) := by
  induction xs generalizing s with
  | nil => exact many_of_failure (hend s)
  | cons x xs ih =>
      have hxs : ∀ y ∈ xs, y ∈ x :: xs := fun y hy => List.mem_cons_of_mem x hy
      have hnext : next (xs.flatMap text ++ tail) := by
        cases xs with
        | nil => exact htail
        | cons y ys =>
            rw [List.flatMap_cons, List.append_assoc]
            exact (htext y (hxs y List.mem_cons_self)).2 _
      have hx := hp x List.mem_cons_self (xs.flatMap text ++ tail) s hnext
      rw [List.flatMap_cons, List.append_assoc, List.foldlM_cons]
      cases hstep : step s x with
      | none =>
          rw [hstep] at hx
          exact many_of_abort hx
      | some s' =>
          rw [hstep] at hx
          have hlen : 0 < (text x).length :=
            List.length_pos_of_ne_nil (htext x List.mem_cons_self).1
          rw [many_of_success hx (by simp; omega),
            ih (fun y hy => hp y (hxs y hy)) (fun y hy => htext y (hxs y hy)) s']
          show _ = ofAction _ _ ((xs.foldlM step s').map giveUp)
          cases xs.foldlM step s' with
          | none => rfl
          | some s'' => rfl

lemma many_texts {ι : Type} {text : ι → List Char} {attr : ι → α} {step : σ → ι → Option σ}
    {tail : List Char} (next : List Char → Prop) (xs : List ι)
    (hp : ∀ x ∈ xs, ∀ r s, next r → p (text x ++ r) s = ofAction (attr x) r (step s x))
    (htext : ∀ x ∈ xs, text x ≠ [] ∧ ∀ r, next (text x ++ r)) (htail : next tail)
    (hend : ∀ s, p tail s = .failure r s) (s : σ) :
    many p (xs.flatMap text ++ tail) s = ofAction (xs.map attr) r (xs.foldlM step s) := by
  have h : many p (xs.flatMap text ++ tail) s =
      ofAction (xs.map attr) r ((xs.foldlM step s).map (fun s => s)) :=
    many_texts_giveUp next xs hp htext htail hend s
  rwa [Option.map_id'] at h

lemma foldlM_some {ι : Type} {step : σ → ι → σ} (xs : List ι) (s : σ) :
    xs.foldlM (fun s x => some (step s x)) s = some (xs.foldl step s) := by
  induction xs generalizing s with
  | nil => rfl
  | cons x xs ih => exact ih (step s x)

/-- Pieces without a semantic action leave the state alone. -/
lemma foldlM_const {ι : Type} (xs : List ι) (s : σ) :
    xs.foldlM (fun s _ => some s) s = some s := by
  induction xs with
  | nil => rfl
  | cons x xs ih => exact ih

/-- The Kleene star over a class of characters that the skipper leaves alone. -/
lemma many_charIf {skip : Skipper} {test : Char → Bool} {cs : List Char}
    (hskip : ∀ c r, test c = true → skip (c :: r) = c :: r) (hcs : ∀ c ∈ cs, test c = true)
    (hr : ∀ c ∈ (skip r).head?, test c = false) (s : σ) :
    many (charIf skip test) (cs ++ r) s = .success cs (skip r) s := by
  have h : many (charIf skip test) (cs.flatMap (fun c => [c]) ++ r) s =
      ofAction (cs.map (fun c => c)) (skip r) (cs.foldlM (fun s _ => some s) s) := by
    apply many_texts (fun _ => True)
    · intro c hc r s _
      exact charIf_of_test (hskip c r (hcs c hc)) (hcs c hc)
    · intro c _
      exact ⟨List.cons_ne_nil c [], fun _ => trivial⟩
    · trivial
    · intro s
      exact charIf_of_not_test hr
  rw [foldlM_const, List.map_id'] at h
  simpa using h

/-- A list whose separators and further elements are read as one piece each. -/
lemma sepBy_texts {ι : Type} {q : Parser σ β} {text : ι → List Char} {sep : List Char}
    {attr : ι → α} {step : σ → ι → Option σ} {giveUp : σ → σ} {tail : List Char}
    (next : List Char → Prop) (x : ι) (xs : List ι)
    (hp : ∀ y ∈ x :: xs, ∀ r s, next r → p (text y ++ r) s = ofAction (attr y) r (step s y))
    (hq : ∀ r s, ∃ b, q (sep ++ r) s = .success b r s) (hsep : sep ≠ [])
    (hnext : ∀ r, next (sep ++ r)) (htail : next tail)
    (hend : ∀ s, (do let _ ← q; p) tail s = .failure tail (giveUp s)) (s : σ) :
    sepBy p q (text x ++ (xs.flatMap (fun y => sep ++ text y) ++ tail)) s =
      ofAction ((x :: xs).map attr) tail (((x :: xs).foldlM step s).map giveUp) := by
  have hmore : ∀ y ∈ xs, ∀ r s, next r →
      (do let _ ← q; p) (sep ++ text y ++ r) s = ofAction (attr y) r (step s y) := by
    intro y hy r s hr
    obtain ⟨b, hb⟩ := hq (text y ++ r) s
    rw [List.append_assoc, bind_of_success hb, hp y (List.mem_cons_of_mem x hy) r s hr]
    cases step s y with
    | none => rfl
    | some s' => rfl
  have hfirst : next (xs.flatMap (fun y => sep ++ text y) ++ tail) := by
    cases xs with
    | nil => exact htail
    | cons y ys =>
        rw [List.flatMap_cons, List.append_assoc, List.append_assoc]
        exact hnext _
  have hmany := many_texts_giveUp next xs hmore
    (fun y _ => ⟨by simp [hsep], fun r => by rw [List.append_assoc]; exact hnext _⟩) htail hend
  unfold sepBy
  rw [bind_apply, hp x List.mem_cons_self _ s hfirst, List.foldlM_cons]
  cases step s x with
  | none => rfl
  | some s' =>
      show (Outcome.restore _ _ : Outcome σ (List α)) =
        ofAction _ _ ((xs.foldlM step s').map giveUp)
      rw [bind_apply, hmany s']
      cases xs.foldlM step s' with
      | none => rfl
      | some s'' => rfl

/-- The first element that is not good. -/
lemma exists_first_bad {ι : Type} {good : ι → Prop} {xs : List ι} (hxs : ¬ ∀ x ∈ xs, good x) :
    ∃ ys x zs, xs = ys ++ x :: zs ∧ (∀ y ∈ ys, good y) ∧ ¬ good x := by
  induction xs with
  | nil => exact absurd (fun x hx => absurd hx List.not_mem_nil) hxs
  | cons x xs ih =>
      by_cases hx : good x
      · obtain ⟨ys, z, zs, rfl, hys, hz⟩ := ih (fun hall => hxs (List.forall_mem_cons.2 ⟨hx, hall⟩))
        exact ⟨x :: ys, z, zs, rfl, List.forall_mem_cons.2 ⟨hx, hys⟩, hz⟩
      · exact ⟨[], x, xs, rfl, fun y hy => absurd hy List.not_mem_nil, hx⟩

/-- The list `p % ',' >> -lit(',') >> lit(close)`. -/
def closedList (skip : Skipper) (p : Parser σ α) (close : Char) : Parser σ (List α) := do
  let as ← sepBy p (lit skip [','])
  let _ ← opt (lit skip [','])
  let _ ← lit skip [close]
  pure as

/-- Elements that are each followed by a comma, as they are written one per line: a good one is
read, one that is not good is refused. -/
structure ClosedListText {ι : Type} (skip : Skipper) (p : Parser σ α) (close : Char)
    (text : ι → List Char) (good : ι → Prop) (attr : ι → α) (step : σ → ι → σ) (xs : List ι) :
    Prop where
  comma : ∀ r, skip (',' :: r) = ',' :: r
  reads : ∀ x ∈ xs, good x → ∀ r s,
    p (text x ++ ',' :: r) s = .success (attr x) (',' :: r) (step s x)
  rejects : ∀ x ∈ xs, ¬ good x → ∀ r s, ∃ s',
    p (text x ++ ',' :: r) s = .failure (text x ++ ',' :: r) s'
  open_ne : ∀ x ∈ xs, ∀ r, ∃ c cs, skip (text x ++ r) = c :: cs ∧ c ≠ close
  close_fails : ∀ r cs, skip r = close :: cs → ∀ s, ∃ inp, p r s = .failure inp s

namespace ClosedListText

variable {ι : Type} {skip : Skipper} {close : Char} {text : ι → List Char} {good : ι → Prop}
  {attr : ι → α} {step : σ → ι → σ} {xs : List ι}

lemma comma_lit (h : ClosedListText skip p close text good attr step xs) (r : List Char) (s : σ) :
    lit skip [','] (',' :: r) s = .success () r s :=
  lit_singleton (h.comma r)

/-- The elements in front of a tail that begins with a comma and holds no further one. -/
lemma sepBy_eq (h : ClosedListText skip p close text good attr step xs) {y : ι} {ys : List ι}
    (hgood : ∀ z ∈ y :: ys, z ∈ xs ∧ good z) {tail : List Char} (giveUp : σ → σ)
    (hend : ∀ s, ∃ inp, p tail s = .failure inp (giveUp s)) (s : σ) :
    sepBy p (lit skip [',']) ((y :: ys).flatMap (fun z => text z ++ [',']) ++ tail) s =
      .success ((y :: ys).map attr) (',' :: tail) (giveUp ((y :: ys).foldl step s)) := by
  have hshape : (y :: ys).flatMap (fun z => text z ++ [',']) ++ tail =
      text y ++ (ys.flatMap (fun z => [','] ++ text z) ++ ',' :: tail) := by
    clear hgood
    induction ys generalizing y with
    | nil => simp
    | cons z zs ih =>
        rw [List.flatMap_cons, List.append_assoc, ih]
        simp
  have hlist : sepBy p (lit skip [','])
      (text y ++ (ys.flatMap (fun z => [','] ++ text z) ++ ',' :: tail)) s =
      ofAction ((y :: ys).map attr) (',' :: tail)
        (((y :: ys).foldlM (fun s z => some (step s z)) s).map giveUp) := by
    apply sepBy_texts (fun r => ∃ cs, r = ',' :: cs)
    · rintro z hz r s ⟨cs, rfl⟩
      exact h.reads z (hgood z hz).1 (hgood z hz).2 cs s
    · exact fun r s => ⟨(), h.comma_lit r s⟩
    · exact List.cons_ne_nil _ _
    · exact fun r => ⟨r, rfl⟩
    · exact ⟨tail, rfl⟩
    · intro s
      obtain ⟨inp, hinp⟩ := hend s
      rw [bind_of_success (h.comma_lit tail s), hinp]
      rfl
  rw [hshape, hlist, foldlM_some]
  rfl

/-- A list of good elements, at least one, is read up to its end. -/
lemma closedList_good (h : ClosedListText skip p close text good attr step xs) (hne : xs ≠ [])
    (hgood : ∀ x ∈ xs, good x) {tail r : List Char} (htail : skip tail = close :: r) (s : σ) :
    closedList skip p close (xs.flatMap (fun x => text x ++ [',']) ++ tail) s =
      .success (xs.map attr) r (xs.foldl step s) := by
  obtain ⟨y, ys, rfl⟩ := List.exists_cons_of_ne_nil hne
  have hlist := h.sepBy_eq (fun z hz => ⟨hz, hgood z hz⟩) (fun s => s)
    (h.close_fails tail r htail) s
  unfold closedList
  rw [bind_of_success hlist, bind_of_success (opt_of_success (h.comma_lit tail _)),
    bind_of_success (lit_singleton htail)]
  rfl

/-- An empty list is not accepted. -/
lemma closedList_nil (h : ClosedListText skip p close text good attr step xs)
    {tail r : List Char} (htail : skip tail = close :: r) (s : σ) :
    closedList skip p close tail s = .failure tail s := by
  obtain ⟨inp, hinp⟩ := h.close_fails tail r htail s
  unfold closedList sepBy
  exact bind_of_failure (bind_of_failure hinp)

/-- A list with a bad element is not accepted, wherever the element stands. -/
lemma closedList_bad (h : ClosedListText skip p close text good attr step xs)
    (hbad : ¬ ∀ x ∈ xs, good x) (tail : List Char) (s : σ) :
    ∃ s', closedList skip p close (xs.flatMap (fun x => text x ++ [',']) ++ tail) s =
      .failure (xs.flatMap (fun x => text x ++ [',']) ++ tail) s' := by
  obtain ⟨ys, x, zs, rfl, hys, hx⟩ := exists_first_bad hbad
  have hmem : x ∈ ys ++ x :: zs := List.mem_append_right ys List.mem_cons_self
  generalize hrest : zs.flatMap (fun z => text z ++ [',']) ++ tail = rest
  have hsplit : (ys ++ x :: zs).flatMap (fun z => text z ++ [',']) ++ tail =
      ys.flatMap (fun z => text z ++ [',']) ++ (text x ++ ',' :: rest) := by
    rw [← hrest]
    simp
  rw [hsplit]
  choose giveUp hgiveUp using h.rejects x hmem hx rest
  unfold closedList
  cases ys with
  | nil =>
      refine ⟨giveUp s, bind_of_failure (r := text x ++ ',' :: rest) ?_⟩
      unfold sepBy
      exact bind_of_failure (hgiveUp s)
  | cons y ys =>
      obtain ⟨c, cs, hskip, hc⟩ := h.open_ne x hmem (',' :: rest)
      have hlist := h.sepBy_eq (fun z hz => ⟨List.mem_append_left _ hz, hys z hz⟩) giveUp
        (fun s => ⟨_, hgiveUp s⟩) s
      refine ⟨giveUp ((y :: ys).foldl step s), ?_⟩
      rw [bind_of_success hlist, bind_of_success (opt_of_success (h.comma_lit _ _)),
        bind_of_failure (lit_of_none (by rw [hskip]; simp [afterText, Ne.symm hc]))]
      rfl

end ClosedListText

end Repetition

/-! ### Letters and digits -/

lemma toNat_of_isAlnum {c : Char} (hc : isAlnum c = true) : 48 ≤ c.toNat ∧ c.toNat ≠ 95 := by
  simp only [isAlnum, isLower, Bool.or_eq_true, Bool.and_eq_true, decide_eq_true_eq,
    Char.isDigit] at hc
  rcases hc with (hc | hc) | hc
  · have h1 : 48 ≤ c.toNat := hc.1
    have h2 : c.toNat ≤ 57 := hc.2
    omega
  · have h1 : 97 ≤ c.toNat := hc.1
    omega
  · have h1 : 65 ≤ c.toNat := hc.1
    have h2 : c.toNat ≤ 90 := hc.2
    omega

lemma isSpace_of_isAlnum {c : Char} (hc : isAlnum c = true) : isSpace c = false := by
  have hn := (toNat_of_isAlnum hc).1
  simp only [isSpace, Bool.or_eq_false_iff, decide_eq_false_iff_not, Bool.and_eq_false_iff]
  refine ⟨?_, Or.inr (by omega)⟩
  rintro rfl
  revert hn
  decide

/-! ### Numbers and blanks -/

/-- No digit follows. -/
def NoDigit (r : List Char) : Prop := ∀ c ∈ r.head?, c.isDigit = false

@[simp] lemma noDigit_nil : NoDigit [] := by simp [NoDigit]

@[simp] lemma noDigit_cons (c : Char) (r : List Char) : NoDigit (c :: r) ↔ c.isDigit = false := by
  simp [NoDigit]

section Numbers

variable {n : ℕ} {r : List Char} {s : σ}

lemma digitsOf_toDigits (hr : NoDigit r) :
    digitsOf (Nat.toDigits 10 n ++ r) = Nat.toDigits 10 n := by
  unfold digitsOf
  rw [List.takeWhile_append_of_pos
    (fun c hc => Nat.isDigit_of_mem_toDigits (by decide) (by decide) hc)]
  cases r with
  | nil => simp
  | cons c r =>
      rw [noDigit_cons] at hr
      simp [hr]

@[simp] lemma numberOf_toDigits : numberOf (Nat.toDigits 10 n) = n :=
  Nat.ofDigitChars_ten_toDigits

lemma uintAt_toDigits (hn : n < 2 ^ 32) (hr : NoDigit r) :
    uintAt (Nat.toDigits 10 n ++ r) s = .success n r s := by
  unfold uintAt
  rw [digitsOf_toDigits hr, if_neg (by simp [Nat.toDigits_ne_nil]; exact hn)]
  simp

lemma uintAt_of_large (hn : 2 ^ 32 ≤ n) (hr : NoDigit r) :
    uintAt (Nat.toDigits 10 n ++ r) s = .failure (Nat.toDigits 10 n ++ r) s := by
  unfold uintAt
  rw [digitsOf_toDigits hr, if_pos (by simp only [numberOf_toDigits]; exact Or.inr hn)]

lemma signOf_of_isDigit {c : Char} (hc : c.isDigit = true) : signOf (c :: r) = (false, c :: r) := by
  unfold signOf
  split
  · exact absurd hc (by simp_all)
  · exact absurd hc (by simp_all)
  · rfl

lemma exists_toDigits_eq (n : ℕ) : ∃ c cs, Nat.toDigits 10 n = c :: cs ∧ c.isDigit = true := by
  obtain ⟨c, cs, hcs⟩ := List.exists_cons_of_ne_nil (Nat.toDigits_ne_nil (b := 10) (n := n))
  refine ⟨c, cs, hcs, Nat.isDigit_of_mem_toDigits (b := 10) (n := n) (by decide) (by decide) ?_⟩
  rw [hcs]
  exact List.mem_cons_self

lemma intAt_toDigits (hr : NoDigit r) :
    intAt (Nat.toDigits 10 n ++ r) s =
      if n < 2 ^ 31 then .success (n : ℤ) r s else .failure (Nat.toDigits 10 n ++ r) s := by
  have hsign : signOf (Nat.toDigits 10 n ++ r) = (false, Nat.toDigits 10 n ++ r) := by
    obtain ⟨c, cs, hcs, hc⟩ := exists_toDigits_eq n
    rw [hcs]
    exact signOf_of_isDigit hc
  unfold intAt
  rw [hsign]
  simp only [digitsOf_toDigits hr, numberOf_toDigits, Nat.toDigits_ne_nil, false_or]
  by_cases hn : n < 2 ^ 31
  · rw [if_pos hn, if_neg (by simpa using hn)]
    simp
  · rw [if_neg hn, if_pos (by simpa using hn)]

end Numbers

section Blanks

variable {comment c : Char} {r : List Char}

lemma skipper_of_visible (hc : isSpace c = false) (hne : c ≠ comment) :
    skipper comment (c :: r) = c :: r := by
  simp [skipper, skipLoop, hc, hne]

lemma skipper_of_isSpace (hc : isSpace c = true) :
    skipper comment (c :: r) = skipper comment r := by
  simp [skipper, skipLoop, hc]

@[simp] lemma skipper_nil : skipper comment [] = [] := rfl

lemma skipLoop_idem (b : Bool) (inp : List Char) :
    skipper comment (skipLoop comment b inp) = skipLoop comment b inp := by
  induction inp generalizing b with
  | nil => cases b <;> rfl
  | cons c inp ih =>
      cases b with
      | true =>
          unfold skipLoop
          split
          · exact ih false
          · exact ih true
      | false =>
          unfold skipLoop
          split
          · exact ih false
          · split
            · exact ih true
            · rename_i hspace hne
              exact skipper_of_visible (by simpa using hspace) hne

@[simp] lemma skipper_skipper (inp : List Char) :
    skipper comment (skipper comment inp) = skipper comment inp :=
  skipLoop_idem false inp

lemma skipper_blanks {w : List Char} (hw : IsBlank w) :
    skipper comment (w ++ r) = skipper comment r := by
  induction w with
  | nil => rfl
  | cons c w ih =>
      rw [List.cons_append, skipper_of_isSpace (hw c List.mem_cons_self)]
      exact ih (fun d hd => hw d (List.mem_cons_of_mem c hd))

/-- A digit is no blank and, where comments start otherwise, is not skipped. -/
lemma skipper_toDigits (hcomment : comment.isDigit = false) (n : ℕ) :
    skipper comment (Nat.toDigits 10 n ++ r) = Nat.toDigits 10 n ++ r := by
  obtain ⟨c, cs, hcs, hc⟩ := exists_toDigits_eq n
  have hspace : isSpace c = false := by
    simp only [Char.isDigit, Bool.and_eq_true, decide_eq_true_eq] at hc
    have hle : 48 ≤ c.toNat := hc.1
    simp only [isSpace, Bool.or_eq_false_iff, decide_eq_false_iff_not, Bool.and_eq_false_iff]
    refine ⟨?_, Or.inr (by omega)⟩
    rintro rfl
    revert hle
    decide
  rw [hcs]
  refine skipper_of_visible hspace ?_
  rintro rfl
  simp [hcomment] at hc

end Blanks

end Qi
