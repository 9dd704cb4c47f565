import Dmcs.Lib.Qi

/-!
# Invariants of semantic actions

`Ensures I p Q` says that the parser `p` keeps the invariant `I` of the semantic state, on success
and on failure, and that its attribute satisfies `Q`.  There is one rule for each combinator; only
`action` has to be looked into.
-/

namespace Qi

variable {σ α β : Type} {I : σ → Prop} {Q : α → Prop} {R : β → Prop}

/-- The state satisfies `I` and the attribute, if there is one, `Q`. -/
def Outcome.Holds (I : σ → Prop) (Q : α → Prop) : Outcome σ α → Prop
  | .success a _ s => I s ∧ Q a
  | .failure _ s => I s
  | .abort => True

def Ensures (I : σ → Prop) (p : Parser σ α) (Q : α → Prop) : Prop :=
  ∀ inp s, I s → (p inp s).Holds I Q

namespace Outcome

lemma Holds.imp {o : Outcome σ α} {Q' : α → Prop} (h : o.Holds I Q) (hQ : ∀ a, Q a → Q' a) :
    o.Holds I Q' := by
  cases o with
  | success a rest s => exact ⟨h.1, hQ a h.2⟩
  | failure rest s => exact h
  | abort => exact h

lemma Holds.weaken {J : σ → Prop} {o : Outcome σ α} (h : o.Holds J Q) (hI : ∀ s, J s → I s) :
    o.Holds I Q := by
  cases o with
  | success a rest s => exact ⟨hI s h.1, h.2⟩
  | failure rest s => exact hI s h
  | abort => exact h

lemma Holds.restore {o : Outcome σ α} (h : o.Holds I Q) (inp : List Char) :
    (o.restore inp).Holds I Q := by
  cases o with
  | success a rest s => exact h
  | failure rest s => exact h
  | abort => exact h

lemma Holds.map {o : Outcome σ α} {f : α → β} (h : o.Holds I (fun a => R (f a))) :
    (o.map f).Holds I R := by
  cases o with
  | success a rest s => exact h
  | failure rest s => exact h
  | abort => exact h

lemma Holds.ite {c : Prop} [Decidable c] {o o' : Outcome σ α} (h : o.Holds I Q)
    (h' : o'.Holds I Q) : (if c then o else o').Holds I Q := by
  split
  · exact h
  · exact h'

end Outcome

namespace Ensures

lemma imp {p : Parser σ α} {Q' : α → Prop} (h : Ensures I p Q) (hQ : ∀ a, Q a → Q' a) :
    Ensures I p Q' := fun inp s hs => (h inp s hs).imp hQ

lemma pure {a : α} (h : Q a) : Ensures I (pure a : Parser σ α) Q := fun _ _ hs => ⟨hs, h⟩

lemma bind {p : Parser σ α} {f : α → Parser σ β} (hp : Ensures I p Q)
    (hf : ∀ a, Q a → Ensures I (f a) R) : Ensures I (p >>= f) R := by
  intro inp s hs
  have h := hp inp s hs
  rw [bind_apply]
  cases hrun : p inp s with
  | success a rest s' =>
      rw [hrun] at h
      exact (hf a h.2 rest s' h.1).restore inp
  | failure rest s' =>
      rw [hrun] at h
      exact h
  | abort => trivial

/-- A sequence in which the attribute of the first parser does not matter. -/
lemma seq {p : Parser σ α} {f : α → Parser σ β} (hp : Ensures I p Q)
    (hf : ∀ a, Ensures I (f a) R) : Ensures I (p >>= f) R := hp.bind (fun a _ => hf a)

/-- Where the first parser brings about a stronger invariant, which may depend on a value `c` found
in its final state, the rest may rely on it. -/
lemma bind_exists {γ : Type} {J : γ → σ → Prop} {p : Parser σ α} {f : α → Parser σ β}
    (hp : Ensures I p Q)
    (hJ : ∀ inp s a rest s', I s → p inp s = .success a rest s' → ∃ c, J c s')
    (hI : ∀ c s, J c s → I s) (hf : ∀ a c, Ensures (J c) (f a) R) : Ensures I (p >>= f) R := by
  intro inp s hs
  have h := hp inp s hs
  rw [bind_apply]
  cases hrun : p inp s with
  | success a rest s' =>
      obtain ⟨c, hc⟩ := hJ inp s a rest s' hs hrun
      exact ((hf a c rest s' hc).weaken (hI c)).restore inp
  | failure rest s' =>
      rw [hrun] at h
      exact h
  | abort => trivial

lemma alt {p q : Parser σ α} (hp : Ensures I p Q) (hq : Ensures I q Q) :
    Ensures I (alt p q) Q := by
  intro inp s hs
  have h := hp inp s hs
  unfold Qi.alt
  cases hrun : p inp s with
  | success a rest s' =>
      rw [hrun] at h
      exact h
  | failure rest s' =>
      rw [hrun] at h
      exact hq rest s' h
  | abort => trivial

lemma opt {p : Parser σ α} (hp : Ensures I p Q) : Ensures I (opt p) (fun o => ∀ a ∈ o, Q a) := by
  intro inp s hs
  have h := hp inp s hs
  unfold Qi.opt
  cases hrun : p inp s with
  | success a rest s' =>
      rw [hrun] at h
      refine ⟨h.1, fun a' ha' => ?_⟩
      rw [← Option.mem_some_iff.1 ha']
      exact h.2
  | failure rest s' =>
      rw [hrun] at h
      exact ⟨h, fun a ha => by cases ha⟩
  | abort => trivial

lemma manyLoop {p : Parser σ α} (hp : Ensures I p Q) (n : ℕ) :
    Ensures I (manyLoop p n) (fun as => ∀ a ∈ as, Q a) := by
  induction n with
  | zero => exact fun _ _ _ => trivial
  | succ n ih =>
      intro inp s hs
      have h := hp inp s hs
      unfold Qi.manyLoop
      cases hrun : p inp s with
      | success a rest s' =>
          rw [hrun] at h
          by_cases hlen : rest.length < inp.length
          · simp only [hlen, if_true]
            apply Outcome.Holds.map
            refine (ih rest s' h.1).imp ?_
            intro as has
            exact List.forall_mem_cons.2 ⟨h.2, has⟩
          · simp only [hlen, if_false]
            trivial
      | failure rest s' =>
          rw [hrun] at h
          exact ⟨h, fun a ha => absurd ha List.not_mem_nil⟩
      | abort => trivial

lemma many {p : Parser σ α} (hp : Ensures I p Q) :
    Ensures I (many p) (fun as => ∀ a ∈ as, Q a) :=
  fun inp s hs => manyLoop hp (inp.length + 1) inp s hs

lemma many1 {p : Parser σ α} (hp : Ensures I p Q) :
    Ensures I (many1 p) (fun as => as ≠ [] ∧ ∀ a ∈ as, Q a) := by
  refine hp.bind (fun a ha => hp.many.bind (fun as has => Ensures.pure ?_))
  exact ⟨List.cons_ne_nil a as, List.forall_mem_cons.2 ⟨ha, has⟩⟩

lemma sepBy {p : Parser σ α} {q : Parser σ β} (hp : Ensures I p Q) (hq : Ensures I q R) :
    Ensures I (sepBy p q) (fun as => as ≠ [] ∧ ∀ a ∈ as, Q a) := by
  refine hp.bind (fun a ha => (hq.bind (fun _ _ => hp)).many.bind (fun as has => Ensures.pure ?_))
  exact ⟨List.cons_ne_nil a as, List.forall_mem_cons.2 ⟨ha, has⟩⟩

/-- The only rule with a condition on the state. -/
lemma action {p : Parser σ α} {f : α → σ → Option (σ × β)} (hp : Ensures I p Q)
    (hf : ∀ a s s' b, I s → Q a → f a s = some (s', b) → I s' ∧ R b) :
    Ensures I (action p f) R := by
  intro inp s hs
  have h := hp inp s hs
  unfold Qi.action
  cases hrun : p inp s with
  | success a rest s' =>
      rw [hrun] at h
      cases hact : f a s' with
      | none =>
          simp only [hact]
          trivial
      | some res =>
          simp only [hact]
          exact hf a s' res.1 res.2 h.1 h.2 hact
  | failure rest s' =>
      rw [hrun] at h
      exact h
  | abort => trivial

lemma lexeme {p : Parser σ α} (hp : Ensures I p Q) (skip : Skipper) : Ensures I (lexeme skip p) Q :=
  fun inp s hs => hp (skip inp) s hs

lemma charIf (skip : Skipper) (test : Char → Bool) :
    Ensures I (charIf skip test) (fun c => test c = true) := by
  intro inp s hs
  unfold Qi.charIf
  cases skip inp with
  | nil => exact hs
  | cons c rest =>
      by_cases hc : test c = true
      · simp only [hc, if_true]
        exact ⟨hs, hc⟩
      · simp only [hc]
        exact hs

lemma lit (skip : Skipper) (t : List Char) : Ensures I (lit skip t) (fun _ => True) := by
  intro inp s hs
  unfold Qi.lit
  cases afterText t (skip inp) with
  | none => exact hs
  | some rest => exact ⟨hs, trivial⟩

lemma uint (skip : Skipper) : Ensures I (uint skip) (fun _ => True) := by
  refine Ensures.lexeme (fun inp s hs => ?_) skip
  unfold uintAt
  exact Outcome.Holds.ite hs ⟨hs, trivial⟩

lemma int (skip : Skipper) : Ensures I (int skip) (fun _ => True) := by
  refine Ensures.lexeme (fun inp s hs => ?_) skip
  unfold intAt
  cases signOf inp with
  | mk neg body =>
      exact Outcome.Holds.ite hs ⟨hs, trivial⟩

lemma closedList {p : Parser σ α} (hp : Ensures I p Q) (skip : Skipper) (close : Char) :
    Ensures I (closedList skip p close) (fun as => as ≠ [] ∧ ∀ a ∈ as, Q a) := by
  refine (hp.sepBy (Ensures.lit skip _)).bind (fun as has => ?_)
  refine (Ensures.lit skip _).opt.seq (fun _ => ?_)
  exact (Ensures.lit skip _).seq (fun _ => Ensures.pure has)

end Ensures

/-- An invariant of the initial state holds of the result of a call. -/
lemma phraseParse_ensures {p : Parser σ α} {skip : Skipper} {inp : List Char} {s s' : σ}
    (hp : Ensures I p Q) (hs : I s) (h : phraseParse skip p inp s = .ok s') : I s' := by
  have hrun := hp inp s hs
  unfold phraseParse at h
  cases hout : p inp s with
  | success a rest t =>
      rw [hout] at h hrun
      simp only at h
      split at h
      · rw [← Except.ok.inj h]
        exact hrun.1
      · cases h
  | failure rest t =>
      rw [hout] at h
      cases h
  | abort =>
      rw [hout] at h
      cases h

end Qi
