import Dmcs.Lib.Qi
import Mathlib.Data.List.Forall2

/-!
# Runs of two parsers side by side

`Follows g p q P R F Q` says that `q`, run from a state that `P` relates to the one `p` starts in,
does what `p` does: it succeeds, fails and stops at the same places, `R` relates the states after a
success, `F` those after a failure, and `Q` the attributes.  Where `p` aborts nothing is said; where
`p` does not, `q` may abort only if `g` holds.

There is one rule for each combinator, and as for invariants only `action` has to be looked into.
-/

namespace Qi

variable {σ τ α β γ δ : Type} {g : Prop} {P R R' F F' : σ → τ → Prop} {Q : α → β → Prop}
  {Q' : γ → δ → Prop}

/-- The second outcome goes along with the first. -/
inductive Outcome.Agrees (g : Prop) (R F : σ → τ → Prop) (Q : α → β → Prop) :
    Outcome σ α → Outcome τ β → Prop
  | success {a : α} {b : β} {s : σ} {t : τ} (rest : List Char) (hR : R s t) (hQ : Q a b) :
      Agrees g R F Q (.success a rest s) (.success b rest t)
  | failure {s : σ} {t : τ} (rest : List Char) (hF : F s t) :
      Agrees g R F Q (.failure rest s) (.failure rest t)
  | abort (o : Outcome τ β) : Agrees g R F Q .abort o
  | giveUp (o : Outcome σ α) (hg : g) : Agrees g R F Q o .abort

def Follows (g : Prop) (p : Parser σ α) (q : Parser τ β) (P R F : σ → τ → Prop)
    (Q : α → β → Prop) : Prop :=
  ∀ inp s t, P s t → (p inp s).Agrees g R F Q (q inp t)

namespace Outcome.Agrees

variable {o : Outcome σ α} {o' : Outcome τ β}

lemma imp {Q₁ : α → β → Prop} (h : o.Agrees g R F Q o') (hR : ∀ s t, R s t → R' s t)
    (hF : ∀ s t, F s t → F' s t) (hQ : ∀ a b, Q a b → Q₁ a b) : o.Agrees g R' F' Q₁ o' := by
  cases h with
  | success rest h₁ h₂ => exact success rest (hR _ _ h₁) (hQ _ _ h₂)
  | failure rest h => exact failure rest (hF _ _ h)
  | abort => exact abort _
  | giveUp _ hg => exact giveUp _ hg

lemma restore (h : o.Agrees g R F Q o') (inp : List Char) :
    (o.restore inp).Agrees g R F Q (o'.restore inp) := by
  cases h with
  | success rest h₁ h₂ => exact success rest h₁ h₂
  | failure rest h => exact failure inp h
  | abort => exact abort _
  | giveUp _ hg => exact giveUp _ hg

lemma map {f : α → γ} {f' : β → δ} (h : o.Agrees g R F (fun a b => Q' (f a) (f' b)) o') :
    (o.map f).Agrees g R F Q' (o'.map f') := by
  cases h with
  | success rest h₁ h₂ => exact success rest h₁ h₂
  | failure rest h => exact failure rest h
  | abort => exact abort _
  | giveUp _ hg => exact giveUp _ hg

lemma ite {c : Prop} [Decidable c] {o₁ : Outcome σ α} {o₁' : Outcome τ β}
    (h : o.Agrees g R F Q o') (h₁ : o₁.Agrees g R F Q o₁') :
    (if c then o else o₁).Agrees g R F Q (if c then o' else o₁') := by
  split
  · exact h
  · exact h₁

end Outcome.Agrees

namespace Follows

open Outcome (Agrees)

section Rules

variable {p p' : Parser σ α} {q q' : Parser τ β}

lemma imp {P' : σ → τ → Prop} {Q₁ : α → β → Prop} (h : Follows g p q P R F Q)
    (hP : ∀ s t, P' s t → P s t) (hR : ∀ s t, R s t → R' s t) (hF : ∀ s t, F s t → F' s t)
    (hQ : ∀ a b, Q a b → Q₁ a b) : Follows g p q P' R' F' Q₁ :=
  fun inp s t hst => (h inp s t (hP s t hst)).imp hR hF hQ

/-- What holds after a failure may be weakened. -/
lemma weaken (h : Follows g p q P R F Q) (hF : ∀ s t, F s t → F' s t) : Follows g p q P R F' Q :=
  h.imp (fun _ _ => id) (fun _ _ => id) hF (fun _ _ => id)

lemma pure {a : α} {b : β} (h : Q a b) :
    Follows g (pure a : Parser σ α) (Pure.pure b : Parser τ β) P P F Q :=
  fun inp _ _ hst => Agrees.success inp hst h

lemma bind {f : α → Parser σ γ} {f' : β → Parser τ δ} (hp : Follows g p q P R F Q)
    (hf : ∀ a b, Q a b → Follows g (f a) (f' b) R R' F Q') :
    Follows g (p >>= f) (q >>= f') P R' F Q' := by
  intro inp s t hst
  have h := hp inp s t hst
  rw [bind_apply, bind_apply]
  generalize p inp s = o at h ⊢
  generalize q inp t = o' at h ⊢
  cases h with
  | success rest hR hQ => exact (hf _ _ hQ rest _ _ hR).restore inp
  | failure rest hF => exact Agrees.failure inp hF
  | abort => exact Agrees.abort _
  | giveUp _ hg => exact Agrees.giveUp _ hg

/-- A sequence of two parsers with the same attributes. -/
lemma seq {p : Parser σ α} {q : Parser τ α} {f : α → Parser σ γ} {f' : α → Parser τ δ}
    (hp : Follows g p q P R F Eq) (hf : ∀ a, Follows g (f a) (f' a) R R' F Q') :
    Follows g (p >>= f) (q >>= f') P R' F Q' := by
  apply hp.bind
  rintro a b rfl
  exact hf a

lemma map {f : α → γ} {f' : β → δ} (hp : Follows g p q P R F Q)
    (hQ : ∀ a b, Q a b → Q' (f a) (f' b)) : Follows g (f <$> p) (f' <$> q) P R F Q' := by
  intro inp s t hst
  rw [map_apply, map_apply]
  exact ((hp inp s t hst).imp (fun _ _ => id) (fun _ _ => id) hQ).map

lemma alt (hp : Follows g p q P R F Q) (hp' : Follows g p' q' F R F' Q) :
    Follows g (alt p p') (alt q q') P R F' Q := by
  intro inp s t hst
  have h := hp inp s t hst
  unfold Qi.alt
  generalize p inp s = o at h ⊢
  generalize q inp t = o' at h ⊢
  cases h with
  | success rest hR hQ => exact Agrees.success rest hR hQ
  | failure rest hF => exact hp' rest _ _ hF
  | abort => exact Agrees.abort _
  | giveUp _ hg => exact Agrees.giveUp _ hg

/-- An optional parser does not fail, so it is the states after a success that are related also
where the parser inside it failed. -/
lemma opt (hp : Follows g p q P R R Q) :
    Follows g (opt p) (opt q) P R F (Option.Rel Q) := by
  intro inp s t hst
  have h := hp inp s t hst
  unfold Qi.opt
  generalize p inp s = o at h ⊢
  generalize q inp t = o' at h ⊢
  cases h with
  | success rest hR hQ => exact Agrees.success rest hR (Option.Rel.some hQ)
  | failure rest hF => exact Agrees.success rest hF Option.Rel.none
  | abort => exact Agrees.abort _
  | giveUp _ hg => exact Agrees.giveUp _ hg

lemma manyLoop (hp : Follows g p q P P P Q) (n : ℕ) :
    Follows g (manyLoop p n) (manyLoop q n) P P F (List.Forall₂ Q) := by
  induction n with
  | zero => exact fun _ _ _ _ => Agrees.abort _
  | succ n ih =>
      intro inp s t hst
      have h := hp inp s t hst
      unfold Qi.manyLoop
      generalize p inp s = o at h ⊢
      generalize q inp t = o' at h ⊢
      cases h with
      | success rest hP hQ =>
          by_cases hlen : rest.length < inp.length
          · simp only [hlen, if_true]
            apply Agrees.map
            apply (ih rest _ _ hP).imp (fun _ _ => id) (fun _ _ => id)
            intro as bs hab
            exact List.Forall₂.cons hQ hab
          · simp only [hlen, if_false]
            exact Agrees.abort _
      | failure rest hF => exact Agrees.success rest hF List.Forall₂.nil
      | abort => exact Agrees.abort _
      | giveUp _ hg => exact Agrees.giveUp _ hg

lemma many (hp : Follows g p q P P P Q) :
    Follows g (many p) (many q) P P F (List.Forall₂ Q) :=
  fun inp s t hst => manyLoop hp (inp.length + 1) inp s t hst

lemma many1 (hp : Follows g p q P P P Q) :
    Follows g (many1 p) (many1 q) P P P (List.Forall₂ Q) := by
  apply hp.bind
  intro a b hab
  apply hp.many.bind
  intro as bs has
  exact Follows.pure (List.Forall₂.cons hab has)

lemma sepBy {p₂ : Parser σ γ} {q₂ : Parser τ δ} (hp : Follows g p q P P P Q)
    (hp₂ : Follows g p₂ q₂ P P P Q') :
    Follows g (sepBy p p₂) (sepBy q q₂) P P P (List.Forall₂ Q) := by
  apply hp.bind
  intro a b hab
  apply (hp₂.bind (fun _ _ _ => hp)).many.bind
  intro as bs has
  exact Follows.pure (List.Forall₂.cons hab has)

/-- The only rule with a condition on what the semantic actions do. -/
lemma action {f : α → σ → Option (σ × γ)} {f' : β → τ → Option (τ × δ)}
    (hp : Follows g p q P R F Q)
    (hf : ∀ a b s t s' c, R s t → Q a b → f a s = some (s', c) →
      (g ∧ f' b t = none) ∨ ∃ t' d, f' b t = some (t', d) ∧ R' s' t' ∧ Q' c d) :
    Follows g (action p f) (action q f') P R' F Q' := by
  intro inp s t hst
  have h := hp inp s t hst
  unfold Qi.action
  generalize p inp s = o at h ⊢
  generalize q inp t = o' at h ⊢
  cases h with
  | @success a b s' t' rest hR hQ =>
      cases hact : f a s' with
      | none =>
          simp only [hact]
          exact Agrees.abort _
      | some res =>
          rcases hf a b s' t' res.1 res.2 hR hQ hact with ⟨hg, hnone⟩ | ⟨t'', d, hact', hR', hQ'⟩
          · simp only [hact, hnone]
            exact Agrees.giveUp _ hg
          · simp only [hact, hact']
            exact Agrees.success rest hR' hQ'
  | failure rest hF => exact Agrees.failure rest hF
  | abort => exact Agrees.abort _
  | giveUp _ hg => exact Agrees.giveUp _ hg

/-- Where the second parser may abort, only the actions that both run have to be compared. -/
lemma action_of_both {f : α → σ → Option (σ × γ)} {f' : β → τ → Option (τ × δ)} (hg : g)
    (hp : Follows g p q P R F Q)
    (hf : ∀ a b s t s' t' c d, R s t → Q a b → f a s = some (s', c) → f' b t = some (t', d) →
      R' s' t' ∧ Q' c d) :
    Follows g (Qi.action p f) (Qi.action q f') P R' F Q' := by
  apply hp.action
  intro a b s t s' c hR hQ hact
  cases hact' : f' b t with
  | none => exact Or.inl ⟨hg, rfl⟩
  | some res => exact Or.inr ⟨res.1, res.2, rfl, hf a b s t s' res.1 c res.2 hR hQ hact hact'⟩

lemma lexeme (hp : Follows g p q P R F Q) (skip : Skipper) :
    Follows g (lexeme skip p) (lexeme skip q) P R F Q :=
  fun inp s t hst => hp (skip inp) s t hst

lemma raw (hp : Follows g p q P R F Q) (skip : Skipper) :
    Follows g (raw skip p) (raw skip q) P R F Eq := by
  intro inp s t hst
  have h := hp (skip inp) s t hst
  unfold Qi.raw
  generalize p (skip inp) s = o at h ⊢
  generalize q (skip inp) t = o' at h ⊢
  cases h with
  | success rest hR hQ => exact Agrees.success rest hR rfl
  | failure rest hF => exact Agrees.failure _ hF
  | abort => exact Agrees.abort _
  | giveUp _ hg => exact Agrees.giveUp _ hg

end Rules

/-- Lists of equal attributes are equal. -/
lemma list {p : Parser σ (List α)} {q : Parser τ (List α)}
    (h : Follows g p q P R F (List.Forall₂ Eq)) : Follows g p q P R F Eq := by
  rwa [List.forall₂_eq_eq_eq] at h

/-- Optional attributes that are equal. -/
lemma option {p : Parser σ (Option α)} {q : Parser τ (Option α)}
    (h : Follows g p q P R F (Option.Rel Eq)) : Follows g p q P R F Eq := by
  apply h.imp (fun _ _ => id) (fun _ _ => id) (fun _ _ => id)
  rintro _ _ (heq | -)
  · rw [heq]
  · rfl

section Primitives

variable (skip : Skipper)

lemma charIf (test : Char → Bool) :
    Follows g (charIf skip test : Parser σ Char) (charIf skip test : Parser τ Char) P P P Eq := by
  intro inp s t hst
  unfold Qi.charIf
  cases skip inp with
  | nil => exact Agrees.failure [] hst
  | cons c rest =>
      by_cases hc : test c = true
      · simp only [hc, if_true]
        exact Agrees.success rest hst rfl
      · simp only [hc]
        exact Agrees.failure (c :: rest) hst

lemma lit (text : List Char) :
    Follows g (lit skip text : Parser σ Unit) (lit skip text : Parser τ Unit) P P P Eq := by
  intro inp s t hst
  unfold Qi.lit
  cases afterText text (skip inp) with
  | none => exact Agrees.failure _ hst
  | some rest => exact Agrees.success rest hst rfl

lemma uint : Follows g (uint skip : Parser σ ℕ) (uint skip : Parser τ ℕ) P P P Eq := by
  apply Follows.lexeme
  intro inp s t hst
  unfold uintAt
  exact Agrees.ite (Agrees.failure inp hst) (Agrees.success _ hst rfl)

lemma int : Follows g (int skip : Parser σ ℤ) (int skip : Parser τ ℤ) P P P Eq := by
  apply Follows.lexeme
  intro inp s t hst
  unfold intAt
  cases signOf inp with
  | mk neg body => exact Agrees.ite (Agrees.failure inp hst) (Agrees.success _ hst rfl)

end Primitives

lemma closedList {p : Parser σ α} {q : Parser τ β} (hp : Follows g p q P P P Q) (skip : Skipper)
    (close : Char) :
    Follows g (closedList skip p close) (closedList skip q close) P P P (List.Forall₂ Q) := by
  apply (hp.sepBy (Follows.lit skip _)).bind
  intro as bs has
  apply (Follows.lit skip _).opt.bind
  intro _ _ _
  apply (Follows.lit skip _).bind
  intro _ _ _
  exact Follows.pure has

end Follows

/-- Calls whose states are related end with related states, or the second aborts. -/
lemma phraseParse_follows {p : Parser σ α} {q : Parser τ β} {skip : Skipper} {inp : List Char}
    {s s' : σ} {t : τ} (hp : Follows g p q P R F Q) (hst : P s t)
    (h : phraseParse skip p inp s = .ok s') :
    (g ∧ phraseParse skip q inp t = .error .aborted) ∨
      ∃ t', phraseParse skip q inp t = .ok t' ∧ R s' t' := by
  have hrun := hp inp s t hst
  unfold phraseParse at h ⊢
  generalize p inp s = o at h hrun
  generalize q inp t = o' at hrun ⊢
  cases hrun with
  | @success _ _ u t' rest hR hQ =>
      simp only at h ⊢
      split at h
      · rename_i hrest
        cases h
        exact Or.inr ⟨t', if_pos hrest, hR⟩
      · cases h
  | failure rest hF => cases h
  | abort => cases h
  | giveUp _ hg => exact Or.inl ⟨hg, rfl⟩

end Qi
