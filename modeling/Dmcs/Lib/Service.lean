import Mathlib.Data.List.Basic
import Mathlib.Tactic.Common

/-!
# Servers that handle one request after the other

A server keeps a state across requests: `serve s r` answers request `r` in state `s` and gives the
state for the next request, or fails.  `run` handles a list of requests.  A condition `P s r` on a
request and the state before it is lifted to whole runs by `Along`.

`trace` lists what a run does, and a condition `P` may be replaced by an equivalent one
(`along_congr`).  The two rules below turn statements about one request into statements about runs:
`run_of_along` for a condition that is enough for a good answer, `along_of_run` for one that is
necessary.
-/

namespace Service

variable {S R O : Type*} (serve : S → R → Option (O × S))

/-- The answers to a list of requests, in order. -/
def run : S → List R → Option (List O)
  | _, [] => some []
  | s, r :: rs =>
      match serve s r with
      | none => none
      | some (o, s') => (run s' rs).map (fun os => o :: os)

/-- Every request of the run meets `P` in the state before it. -/
def Along (P : S → R → Prop) : S → List R → Prop
  | _, [] => True
  | s, r :: rs => P s r ∧ ∀ o s', serve s r = some (o, s') → Along P s' rs

/-- `Along` can be computed when the condition on one request can. -/
instance Along.decidable {P : S → R → Prop} [∀ s r, Decidable (P s r)] :
    ∀ (rs : List R) (s : S), Decidable (Along serve P s rs)
  | [], _ => isTrue trivial
  | r :: rs, s =>
      have := fun s' : S => Along.decidable (P := P) rs s'
      decidable_of_iff (P s r ∧ ∀ a ∈ serve s r, Along serve P a.2 rs)
        (and_congr_right fun _ =>
          ⟨fun h o s' heq => h (o, s') heq, fun h a ha => h a.1 a.2 ha⟩)

/-- What the requests of a run do, each given by `acts` from the state before it; the run ends with
a request that fails. -/
def trace {A : Type*} (acts : S → R → List A) : S → List R → List A
  | _, [] => []
  | s, r :: rs =>
      acts s r ++ match serve s r with
        | none => []
        | some (_, s') => trace acts s' rs

variable {serve} {P Q : S → R → Prop} {I : S → Prop} {good : R → O → Prop}

/-- A property of everything done in a run is a condition along the run. -/
lemma forall_mem_trace_iff {A : Type*} {acts : S → R → List A} {p : A → Prop} {s : S}
    {rs : List R} :
    (∀ a ∈ trace serve acts s rs, p a) ↔ Along serve (fun s r => ∀ a ∈ acts s r, p a) s rs := by
  induction rs generalizing s with
  | nil => simp [trace, Along]
  | cons r rs ih =>
      rw [trace, Along, List.forall_mem_append]
      refine and_congr_right (fun _ => ?_)
      cases hserve : serve s r with
      | none => simp
      | some o =>
          obtain ⟨o, s'⟩ := o
          simp only [ih]
          refine ⟨fun h o₁ s₁ heq => ?_, fun h => h o s' rfl⟩
          rw [Option.some.injEq, Prod.mk.injEq] at heq
          exact heq.2 ▸ h

/-- Conditions that agree in all states with an invariant agree along runs. -/
lemma along_congr (hstep : ∀ s r o s', I s → serve s r = some (o, s') → I s')
    (h : ∀ s r, I s → (P s r ↔ Q s r)) {s : S} {rs : List R} (hs : I s) :
    Along serve P s rs ↔ Along serve Q s rs := by
  induction rs generalizing s with
  | nil => exact Iff.rfl
  | cons r rs ih =>
      rw [Along, Along, h s r hs]
      refine and_congr_right (fun _ => forall_congr' (fun o => forall_congr' (fun s' => ?_)))
      exact imp_congr_right (fun hserve => ih (hstep s r o s' hs hserve))

/-- If `P` makes one request go well and keeps the invariant, it makes every run go well. -/
theorem run_of_along
    (step : ∀ s r, I s → P s r → ∃ o s', serve s r = some (o, s') ∧ good r o ∧ I s')
    {s : S} {rs : List R} (hs : I s) (h : Along serve P s rs) :
    ∃ os, run serve s rs = some os ∧ List.Forall₂ good rs os := by
  induction rs generalizing s with
  | nil => exact ⟨[], rfl, List.Forall₂.nil⟩
  | cons r rs ih =>
      obtain ⟨hP, hrest⟩ := h
      obtain ⟨o, s', hserve, hgood, hs'⟩ := step s r hs hP
      obtain ⟨os, hrun, hall⟩ := ih hs' (hrest o s' hserve)
      exact ⟨o :: os, by simp [run, hserve, hrun], List.Forall₂.cons hgood hall⟩

/-- If a good answer to one request needs `P`, good answers along a run need `P` all along. -/
theorem along_of_run {s : S} {rs : List R}
    (step : ∀ s, ∀ r ∈ rs, ∀ o s', I s → serve s r = some (o, s') → good r o → P s r ∧ I s')
    (hs : I s) (h : ∃ os, run serve s rs = some os ∧ List.Forall₂ good rs os) :
    Along serve P s rs := by
  induction rs generalizing s with
  | nil => trivial
  | cons r rs ih =>
      obtain ⟨os, hrun, hall⟩ := h
      cases hserve : serve s r with
      | none => simp [run, hserve] at hrun
      | some os' =>
          obtain ⟨o, s'⟩ := os'
          simp only [run, hserve, Option.map_eq_some_iff] at hrun
          obtain ⟨os', hrun', rfl⟩ := hrun
          obtain ⟨hgood, hall'⟩ := List.forall₂_cons.mp hall
          obtain ⟨hP, hs'⟩ := step s r (List.mem_cons_self ..) o s' hs hserve hgood
          refine ⟨hP, fun o₁ s₁ h₁ => ?_⟩
          rw [hserve, Option.some.injEq, Prod.mk.injEq] at h₁
          obtain ⟨rfl, rfl⟩ := h₁
          exact ih (fun s r hr => step s r (List.mem_cons_of_mem _ hr)) hs' ⟨os', hrun', hall'⟩

end Service
