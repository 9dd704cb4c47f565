import Mathlib.Tactic.Common

/-!
# Partial and total correctness

A computation with a state may fail.  `Ensures` says what holds of its results, when it returns;
`Attains` says that it returns, from every state that has an invariant, and keeps the invariant.
-/

namespace Triples

variable {σ ε α β : Type}

/-- What `m` returns has the property `P`. -/
def Ensures (m : StateT σ (Except ε) α) (P : α → Prop) : Prop :=
  ∀ s a s', m s = .ok (a, s') → P a

/-- From every state in `I`, `m` returns something with the property `P`, and leaves a state
in `I`. -/
def Attains (I : σ → Prop) (m : StateT σ (Except ε) α) (P : α → Prop) : Prop :=
  ∀ s, I s → ∃ a s', m s = .ok (a, s') ∧ I s' ∧ P a

variable {m : StateT σ (Except ε) α} {f : α → StateT σ (Except ε) β} {P P' : α → Prop}
  {R : β → Prop} {I : σ → Prop}

namespace Ensures

lemma pure {a : α} (h : P a) : Ensures (Pure.pure a : StateT σ (Except ε) α) P := by
  intro s a' s' hs
  obtain rfl : a = a' := (Prod.mk.inj (Except.ok.inj hs)).1
  exact h

lemma throw {e : ε} : Ensures (MonadExcept.throw e : StateT σ (Except ε) α) P :=
  fun _ _ _ hs => nomatch hs

lemma lift {r : Except ε α} (h : ∀ a, r = .ok a → P a) :
    Ensures (StateT.lift r : StateT σ (Except ε) α) P := by
  cases r with
  | ok a => exact Ensures.pure (h a rfl)
  | error e => exact Ensures.throw

lemma bind (hm : Ensures m P) (hf : ∀ a, P a → Ensures (f a) R) : Ensures (m >>= f) R := by
  intro s b s'' hs
  have hsplit : (m s).bind (fun r => f r.1 r.2) = .ok (b, s'') := hs
  cases hr : m s with
  | error e =>
      rw [hr] at hsplit
      exact nomatch hsplit
  | ok r =>
      rw [hr] at hsplit
      exact hf r.1 (hm s r.1 r.2 hr) r.2 b s'' hsplit

lemma get : Ensures (MonadState.get : StateT σ (Except ε) σ) (fun _ => True) :=
  fun _ _ _ _ => trivial

lemma set (s : σ) : Ensures (MonadStateOf.set s : StateT σ (Except ε) PUnit) (fun _ => True) :=
  fun _ _ _ _ => trivial

end Ensures

namespace Attains

lemma pure {a : α} (h : P a) : Attains I (Pure.pure a : StateT σ (Except ε) α) P :=
  fun s hs => ⟨a, s, rfl, hs, h⟩

lemma lift {a : α} (h : P a) :
    Attains I (StateT.lift (Except.ok a : Except ε α) : StateT σ (Except ε) α) P :=
  Attains.pure h

lemma bind (hm : Attains I m P) (hf : ∀ a, P a → Attains I (f a) R) : Attains I (m >>= f) R := by
  intro s hs
  obtain ⟨a, s', hrun, hs', ha⟩ := hm s hs
  obtain ⟨b, s'', hrun', hs'', hb⟩ := hf a ha s' hs'
  refine ⟨b, s'', ?_, hs'', hb⟩
  show (m s).bind (fun r => f r.1 r.2) = _
  rw [hrun]
  exact hrun'

lemma get : Attains I (MonadState.get : StateT σ (Except ε) σ) I :=
  fun s hs => ⟨s, s, rfl, hs, hs⟩

lemma set {s : σ} (h : I s) :
    Attains I (MonadStateOf.set s : StateT σ (Except ε) PUnit) (fun _ => True) :=
  fun _ _ => ⟨PUnit.unit, s, rfl, h, trivial⟩

end Attains

end Triples
