import Mathlib.Data.List.Basic
import Mathlib.Tactic.Common

/-!
# Computations that draw until they succeed

A computation reads what a source of random numbers returns.  It has no result when the numbers run
out, which stands for a run that has not ended yet, and loops take fuel for their rounds.

`Ends` says that a computation ends after exactly the given draws.  `NeverStuck` says that, whatever
was drawn so far, further draws let it end.  A loop is never stuck when its body is not and some
draws lead out of it from every state it can be in.

A computation that ends is one that has read finitely many draws, so the rule for loops
(`NeverStuck.loop`) needs no measure: every round reads a draw.  `Yields` is about all results, and
`NeverStuck.and` combines it with the other.
-/

namespace Draws

variable {δ α β σ : Type}

/-- A computation that reads a list. -/
abbrev Drawing (δ α : Type) : Type := StateT (List δ) Option α

def draw : Drawing δ δ
  | [] => none
  | d :: ds => some (d, ds)

/-- With enough fuel `m` ends after the draws `used`, whatever follows them. -/
def Ends (m : ℕ → Drawing δ α) (used : List δ) (a : α) : Prop :=
  ∃ n, ∀ fuel ≥ n, ∀ more, m fuel (used ++ more) = some (a, more)

/-- After whatever allowed draws there are further ones with which `m` ends, in a result with `P`;
it may have ended before all are read. -/
def NeverStuck (ok : δ → Prop) (m : ℕ → Drawing δ α) (P : α → Prop) : Prop :=
  ∀ ds, (∀ d ∈ ds, ok d) → ∃ ds' used rest a, (∀ d ∈ ds', ok d) ∧ ds ++ ds' = used ++ rest ∧
    Ends m used a ∧ P a

/-- What holds of every result that allowed draws lead to. -/
def Yields (ok : δ → Prop) (m : Drawing δ α) (P : α → Prop) : Prop :=
  ∀ ds a rest, (∀ d ∈ ds, ok d) → m ds = some (a, rest) → P a ∧ ∀ d ∈ rest, ok d

lemma forall_append {ok : δ → Prop} {l l' : List δ} (hl : ∀ d ∈ l, ok d) (hl' : ∀ d ∈ l', ok d) :
    ∀ d ∈ l ++ l', ok d := by
  intro d hd
  rcases List.mem_append.1 hd with h | h
  · exact hl d h
  · exact hl' d h

/-! ## Runs that end -/

namespace Ends

variable {m : ℕ → Drawing δ α} {f : α → ℕ → Drawing δ β} {used used' : List δ} {a : α} {b : β}

lemma pure (a : α) : Ends (fun _ => (Pure.pure a : Drawing δ α)) [] a := ⟨0, fun _ _ _ => rfl⟩

lemma draw (d : δ) : Ends (fun _ => Draws.draw) [d] d := ⟨0, fun _ _ _ => rfl⟩

lemma lift {o : Option α} (ho : o = some a) : Ends (fun _ => (liftM o : Drawing δ α)) [] a := by
  subst ho
  exact ⟨0, fun _ _ _ => rfl⟩

lemma bind (hm : Ends m used a) (hf : Ends (f a) used' b) :
    Ends (fun n => m n >>= fun a => f a n) (used ++ used') b := by
  obtain ⟨n, hm⟩ := hm
  obtain ⟨n', hf⟩ := hf
  refine ⟨max n n', fun fuel hfuel more => ?_⟩
  show Option.bind (m fuel (used ++ used' ++ more)) _ = _
  rw [List.append_assoc, hm fuel (Nat.le_trans (Nat.le_max_left n n') hfuel)]
  exact hf fuel (Nat.le_trans (Nat.le_max_right n n') hfuel) more

end Ends

/-! ## Never stuck -/

namespace NeverStuck

variable {ok : δ → Prop} {m : ℕ → Drawing δ α} {f : α → ℕ → Drawing δ β} {P : α → Prop}
  {Q : β → Prop} {a : α}

/-- What ends without a draw. -/
lemma of_ends (hm : Ends m [] a) (ha : P a) : NeverStuck ok m P := by
  intro ds hds
  exact ⟨[], [], ds, a, fun d hd => absurd hd List.not_mem_nil, List.append_nil ds, hm, ha⟩

lemma pure (ha : P a) : NeverStuck ok (fun _ => (Pure.pure a : Drawing δ α)) P :=
  of_ends (Ends.pure a) ha

lemma lift {o : Option α} (ho : o = some a) (ha : P a) :
    NeverStuck ok (fun _ => (liftM o : Drawing δ α)) P :=
  of_ends (Ends.lift ho) ha

/-- Some draw is allowed. -/
lemma draw {d : δ} (hd : ok d) : NeverStuck ok (fun _ => Draws.draw) ok := by
  intro ds hds
  cases ds with
  | nil =>
      have hall : ∀ d' ∈ [d], ok d' := by
        intro d' hd'
        rw [List.mem_singleton.1 hd']
        exact hd
      exact ⟨[d], [d], [], d, hall, rfl, Ends.draw d, hd⟩
  | cons d' ds =>
      refine ⟨[], [d'], ds, d', fun d hd => absurd hd List.not_mem_nil, ?_, Ends.draw d',
        hds d' List.mem_cons_self⟩
      rw [List.append_nil]
      rfl

lemma mono {P' : α → Prop} (hm : NeverStuck ok m P) (h : ∀ a, P a → P' a) :
    NeverStuck ok m P' := by
  intro ds hds
  obtain ⟨ds', used, rest, a, hds', heq, hends, ha⟩ := hm ds hds
  exact ⟨ds', used, rest, a, hds', heq, hends, h a ha⟩

lemma bind (hm : NeverStuck ok m P) (hf : ∀ a, P a → NeverStuck ok (f a) Q) :
    NeverStuck ok (fun n => m n >>= fun a => f a n) Q := by
  intro ds hds
  obtain ⟨ds₁, used, rest, a, hds₁, heq, hends, ha⟩ := hm ds hds
  have hrest : ∀ d ∈ rest, ok d := by
    intro d hd
    apply forall_append hds hds₁
    rw [heq]
    exact List.mem_append_right used hd
  obtain ⟨ds₂, used', rest', b, hds₂, heq', hends', hb⟩ := hf a ha rest hrest
  refine ⟨ds₁ ++ ds₂, used ++ used', rest', b, forall_append hds₁ hds₂, ?_, hends.bind hends', hb⟩
  rw [← List.append_assoc, heq, List.append_assoc, heq', List.append_assoc]

/-- With enough fuel, the draws so far and some more give a result. -/
lemma run (hm : NeverStuck ok m P) {ds : List δ} (hds : ∀ d ∈ ds, ok d) :
    ∃ ds', (∀ d ∈ ds', ok d) ∧ ∃ fuel a rest, m fuel (ds ++ ds') = some (a, rest) ∧ P a := by
  obtain ⟨ds', used, rest, a, hds', heq, ⟨n, hends⟩, ha⟩ := hm ds hds
  refine ⟨ds', hds', n, a, rest, ?_, ha⟩
  rw [heq]
  exact hends n (Nat.le_refl n) rest

end NeverStuck

/-! ## Loops -/

section Loop

variable {ok : δ → Prop} {run : ℕ → σ → Drawing δ α} {body : σ → ℕ → Drawing δ σ}
  {stop : σ → Prop} [DecidablePred stop] {out : σ → α} {s t : σ} {used used' : List δ} {a : α}

/-- A loop that does its body and tests afterwards whether to stop. -/
def IsLoop (run : ℕ → σ → Drawing δ α) (body : σ → ℕ → Drawing δ σ) (stop : σ → Prop)
    [DecidablePred stop] (out : σ → α) : Prop :=
  ∀ fuel s, run (fuel + 1) s =
    body s fuel >>= fun t => if stop t then pure (out t) else run fuel t

/-- What a loop does once it has fuel. -/
lemma IsLoop.ends (h : IsLoop run body stop out)
    (hround : Ends (fun n => body s n >>= fun t => if stop t then pure (out t) else run n t)
      used a) : Ends (fun n => run n s) used a := by
  obtain ⟨n, hround⟩ := hround
  refine ⟨n + 1, fun fuel hfuel more => ?_⟩
  obtain ⟨fuel, rfl⟩ : ∃ fuel', fuel = fuel' + 1 := ⟨fuel - 1, by omega⟩
  show run (fuel + 1) s _ = _
  rw [h]
  exact hround fuel (by omega) more

lemma IsLoop.ends_stop (h : IsLoop run body stop out) (hbody : Ends (body s) used t)
    (ht : stop t) : Ends (fun n => run n s) used (out t) := by
  have hlast : Ends (fun n => if stop t then pure (out t) else run n t) [] (out t) := by
    simp only [if_pos ht]
    exact Ends.pure (out t)
  rw [← List.append_nil used]
  exact h.ends (hbody.bind hlast)

lemma IsLoop.ends_again (h : IsLoop run body stop out) (hbody : Ends (body s) used t)
    (ht : ¬ stop t) (hrest : Ends (fun n => run n t) used' a) :
    Ends (fun n => run n s) (used ++ used') a := by
  have hlast : Ends (fun n => if stop t then pure (out t) else run n t) used' a := by
    simp only [if_neg ht]
    exact hrest
  exact h.ends (hbody.bind hlast)

/-- The rule for loops.  Every round reads a draw, so finitely many draws are spent after finitely
many rounds; the body then ends, and from there some draws lead out. -/
lemma NeverStuck.loop {I : σ → Prop} {P : α → Prop} (h : IsLoop run body stop out)
    (hdraws : ∀ s fuel, body s fuel [] = none)
    (hbody : ∀ s, I s → NeverStuck ok (body s) (fun t => (stop t → P (out t)) ∧ (¬ stop t → I t)))
    (hfinish : ∀ s, I s → ∃ ds a, (∀ d ∈ ds, ok d) ∧ Ends (fun n => run n s) ds a ∧ P a)
    (hs : I s) : NeverStuck ok (fun n => run n s) P := by
  intro ds
  induction hlen : ds.length using Nat.strongRecOn generalizing ds s with
  | ind len ih =>
      intro hds
      obtain ⟨ds', used, rest, t, hds', heq, hends, hstop, hagain⟩ := hbody s hs ds hds
      by_cases ht : stop t
      · exact ⟨ds', used, rest, out t, hds', heq, h.ends_stop hends ht, hstop ht⟩
      rcases List.append_eq_append_iff.1 heq with ⟨c, hused, hc⟩ | ⟨c, hsplit, -⟩
      · -- the round is not over: finish it, then the loop
        obtain ⟨ds'', a, hds'', hout, ha⟩ := hfinish t (hagain ht)
        have hcok : ∀ d ∈ c, ok d := by
          intro d hd
          apply hds'
          rw [hc]
          exact List.mem_append_left rest hd
        refine ⟨c ++ ds'', used ++ ds'', [], a, forall_append hcok hds'', ?_,
          h.ends_again hends ht hout, ha⟩
        rw [hused, List.append_nil, List.append_assoc]
      · have hne : used ≠ [] := by
          rintro rfl
          obtain ⟨n, hends⟩ := hends
          have hnil := hends n (Nat.le_refl n) []
          rw [List.append_nil, hdraws] at hnil
          exact absurd hnil.symm (Option.some_ne_none _)
        have hshort : c.length < len := by
          have hpos := List.length_pos_iff.2 hne
          rw [← hlen, hsplit, List.length_append]
          omega
        have hcok : ∀ d ∈ c, ok d := by
          intro d hd
          apply hds
          rw [hsplit]
          exact List.mem_append_right used hd
        obtain ⟨ds'', used', rest', a, hds'', heq', hends', ha⟩ :=
          ih c.length hshort (hagain ht) c rfl hcok
        refine ⟨ds'', used ++ used', rest', a, hds'', ?_, h.ends_again hends ht hends', ha⟩
        rw [hsplit, List.append_assoc, heq', List.append_assoc]

end Loop

/-! ## All results -/

namespace Yields

variable {ok : δ → Prop} {m : Drawing δ α} {f : α → Drawing δ β} {P : α → Prop} {Q : β → Prop}
  {a : α}

lemma pure (ha : P a) : Yields ok (Pure.pure a : Drawing δ α) P := by
  intro ds b rest hds hb
  obtain ⟨rfl, rfl⟩ := Prod.mk.inj (Option.some.inj hb)
  exact ⟨ha, hds⟩

lemma failure : Yields ok (Alternative.failure : Drawing δ α) P := by
  intro ds a rest hds ha
  exact absurd ha.symm (Option.some_ne_none _)

lemma lift {o : Option α} (ho : ∀ a ∈ o, P a) : Yields ok (liftM o : Drawing δ α) P := by
  intro ds a rest hds ha
  obtain ⟨a', ha', heq⟩ := Option.bind_eq_some_iff.1 ha
  obtain ⟨rfl, rfl⟩ := Prod.mk.inj (Option.some.inj heq)
  exact ⟨ho a' ha', hds⟩

lemma draw : Yields ok Draws.draw ok := by
  intro ds d rest hds hd
  cases ds with
  | nil => exact absurd hd.symm (Option.some_ne_none _)
  | cons d' ds =>
      obtain ⟨rfl, rfl⟩ := Prod.mk.inj (Option.some.inj hd)
      exact List.forall_mem_cons.1 hds

lemma bind (hm : Yields ok m P) (hf : ∀ a, P a → Yields ok (f a) Q) : Yields ok (m >>= f) Q := by
  intro ds b rest hds h
  obtain ⟨⟨a, ds'⟩, ha, hb⟩ := Option.bind_eq_some_iff.1 h
  obtain ⟨hP, hds'⟩ := hm ds a ds' hds ha
  exact hf a hP ds' b rest hds' hb

end Yields

/-- What ends after allowed draws ends in a result all results share. -/
lemma Ends.yields {ok : δ → Prop} {m : ℕ → Drawing δ α} {used : List δ} {a : α} {P : α → Prop}
    (hm : Ends m used a) (hP : ∀ fuel, Yields ok (m fuel) P) (hused : ∀ d ∈ used, ok d) : P a := by
  obtain ⟨n, hm⟩ := hm
  apply (hP n used a [] hused _).1
  have hrun := hm n (Nat.le_refl n) []
  rw [List.append_nil] at hrun
  exact hrun

lemma NeverStuck.and {ok : δ → Prop} {m : ℕ → Drawing δ α} {P Q : α → Prop}
    (hm : NeverStuck ok m P) (hQ : ∀ fuel, Yields ok (m fuel) Q) :
    NeverStuck ok m (fun a => P a ∧ Q a) := by
  intro ds hds
  obtain ⟨ds', used, rest, a, hds', heq, hends, ha⟩ := hm ds hds
  have hused : ∀ d ∈ used, ok d := by
    intro d hd
    apply forall_append hds hds'
    rw [heq]
    exact List.mem_append_left rest hd
  exact ⟨ds', used, rest, a, hds', heq, hends, ha, hends.yields hQ hused⟩

end Draws
