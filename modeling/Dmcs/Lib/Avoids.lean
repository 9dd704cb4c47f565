import Mathlib.Tactic.Common

/-!
# Runs that avoid a failure

A computation with a state may fail in several ways.  `Avoids` rules out one of them, and says what
holds of every result; a run may still fail in another way.
-/

namespace Avoidance

variable {σ ε α β : Type}

/-- No run of `m` ends in the failure `bad`, and `P` holds of every result. -/
structure Avoids (bad : ε) (m : StateT σ (Except ε) α) (P : α → Prop) : Prop where
  notBad : ∀ s, m s ≠ .error bad
  result : ∀ s a s', m s = .ok (a, s') → P a

lemma ok_ne_error {a : α} {e : ε} : (Except.ok a : Except ε α) ≠ .error e := nofun

namespace Avoids

variable {bad : ε} {m : StateT σ (Except ε) α} {f : α → StateT σ (Except ε) β} {P P' : α → Prop}
  {R : β → Prop}

lemma pure {a : α} (h : P a) : Avoids bad (Pure.pure a : StateT σ (Except ε) α) P := by
  refine ⟨fun s hs => ?_, fun s a' s' hs => ?_⟩
  · exact ok_ne_error hs
  · obtain rfl : a = a' := (Prod.mk.inj (Except.ok.inj hs)).1
    exact h

lemma throw {e : ε} (h : e ≠ bad) :
    Avoids bad (MonadExcept.throw e : StateT σ (Except ε) α) P := by
  refine ⟨fun s hs => ?_, fun s a s' hs => ?_⟩
  · exact h (Except.error.inj hs)
  · exact absurd hs.symm ok_ne_error

lemma lift {r : Except ε α} (h : ∀ a, r = .ok a → P a) (hbad : r ≠ .error bad) :
    Avoids bad (StateT.lift r : StateT σ (Except ε) α) P := by
  cases r with
  | ok a => exact Avoids.pure (h a rfl)
  | error e => exact Avoids.throw (fun he => hbad (congrArg Except.error he))

lemma bind (hm : Avoids bad m P) (hf : ∀ a, P a → Avoids bad (f a) R) :
    Avoids bad (m >>= f) R := by
  have hcases : ∀ s r, (m >>= f) s = r → (∃ e, m s = .error e ∧ r = .error e) ∨
      ∃ a s', m s = .ok (a, s') ∧ f a s' = r := by
    rintro s r rfl
    show (∃ e, m s = .error e ∧ (m s).bind _ = .error e) ∨
      ∃ a s', m s = .ok (a, s') ∧ f a s' = (m s).bind _
    cases m s with
    | error e => exact Or.inl ⟨e, rfl, rfl⟩
    | ok r => exact Or.inr ⟨r.1, r.2, rfl, rfl⟩
  refine ⟨fun s hs => ?_, fun s b s'' hs => ?_⟩
  · rcases hcases s _ hs with ⟨e, hm', he⟩ | ⟨a, s', hm', hf'⟩
    · exact hm.notBad s (hm'.trans (congrArg Except.error (Except.error.inj he).symm))
    · exact (hf a (hm.result s a s' hm')).notBad s' hf'
  · rcases hcases s _ hs with ⟨e, -, he⟩ | ⟨a, s', hm', hf'⟩
    · exact absurd he ok_ne_error
    · exact (hf a (hm.result s a s' hm')).result s' b s'' hf'

lemma get : Avoids bad (MonadState.get : StateT σ (Except ε) σ) (fun _ => True) :=
  ⟨fun _ hs => ok_ne_error hs, fun _ _ _ _ => trivial⟩

lemma set (s : σ) : Avoids bad (MonadStateOf.set s : StateT σ (Except ε) PUnit) (fun _ => True) :=
  ⟨fun _ hs => ok_ne_error hs, fun _ _ _ _ => trivial⟩

lemma mono (hm : Avoids bad m P) (h : ∀ a, P a → P' a) : Avoids bad m P' :=
  ⟨hm.notBad, fun s a s' hs => h a (hm.result s a s' hs)⟩

end Avoids

end Avoidance
