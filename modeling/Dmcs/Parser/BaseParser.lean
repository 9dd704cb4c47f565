import Dmcs.Lib.Qi
import Dmcs.Mcs.BeliefTable

/-!
# What the parsers share (`BaseParser`)

All parsers of configuration files skip blanks and comments that start with `#`.  The lemmas below
read the tokens such files are made of, each after blanks.
-/

namespace Dmcs

namespace BaseParser

open Qi

/-- `NewSkipperGrammar`. -/
def skip : Skipper := skipper '#'

/-- `lit(name) >> lit(':')`. -/
def field {σ : Type} (name : Text) : Parser σ Unit := do
  let _ ← lit skip name
  lit skip [':']

section Tokens

variable {σ : Type} {s : σ} {n : ℕ} {r w : Text}

lemma skip_cons (c : Char) (r : Text) :
    skip (c :: r) = if isSpace c then skip r else if c = '#' then skipLoop '#' true r else c :: r :=
  rfl

lemma skip_decimal (hw : IsBlank w) :
    skip (w ++ decimal n ++ r) = decimal n ++ r := by
  rw [List.append_assoc]
  exact (skipper_blanks hw).trans (skipper_toDigits (by decide) n)

/-- A visible character after blanks. -/
lemma lit_blank {c : Char} (hw : IsBlank w) (hc : isSpace c = false ∧ c ≠ '#') :
    lit skip [c] (w ++ c :: r) s = .success () r s :=
  lit_singleton ((skipper_blanks hw).trans (skipper_of_visible hc.1 hc.2))

lemma lit_visible {c : Char} (hc : isSpace c = false ∧ c ≠ '#') :
    lit skip [c] (c :: r) s = .success () r s :=
  lit_singleton (skipper_of_visible hc.1 hc.2)

lemma lit_comma (r : Text) (s : σ) : lit skip [','] (',' :: r) s = .success () r s :=
  lit_visible (by decide)

/-- A text that begins with a visible character. -/
def startsVisible : Text → Bool
  | [] => false
  | c :: _ => !isSpace c && c ≠ '#'

lemma skip_of_startsVisible {t : Text} (ht : startsVisible t = true) : skip (t ++ r) = t ++ r := by
  cases t with
  | nil => cases ht
  | cons c t =>
      simp only [startsVisible, Bool.and_eq_true, Bool.not_eq_true', decide_eq_true_eq] at ht
      exact skipper_of_visible ht.1 ht.2

lemma field_blank {name : Text} (hw : IsBlank w)
    (hname : startsVisible name = true) :
    field name (w ++ (name ++ ':' :: r)) s = .success () r s := by
  have hlit : lit skip name (w ++ (name ++ ':' :: r)) s = .success () (':' :: r) s :=
    lit_of_skip ((skipper_blanks hw).trans (skip_of_startsVisible hname))
  unfold field
  rw [bind_of_success hlit, lit_visible (by decide)]
  rfl

lemma uint_decimal (hw : IsBlank w) (hn : n < 2 ^ 32) (hr : NoDigit r) :
    uint skip (w ++ decimal n ++ r) s = .success n r s := by
  unfold uint
  rw [lexeme_apply, skip_decimal hw]
  exact uintAt_toDigits hn hr

lemma uint_of_large (hw : IsBlank w) (hn : 2 ^ 32 ≤ n) (hr : NoDigit r) :
    uint skip (w ++ decimal n ++ r) s = .failure (decimal n ++ r) s := by
  unfold uint
  rw [lexeme_apply, skip_decimal hw]
  exact uintAt_of_large hn hr

lemma int_decimal (hw : IsBlank w) (hr : NoDigit r) :
    int skip (w ++ decimal n ++ r) s =
      if n < 2 ^ 31 then .success (n : ℤ) r s else .failure (decimal n ++ r) s := by
  unfold int
  rw [lexeme_apply, skip_decimal hw]
  exact intAt_toDigits hr

end Tokens

end BaseParser

end Dmcs
