import Mathlib.Logic.Relation
import Mathlib.Tactic.Common

/-!
# Runs of a transition system

A run is a finite sequence of steps of a relation; `Relation.ReflTransGen step s₀ s` says that `s`
is reached from `s₀`.  An invariant of all reachable states is proved once per step
(`invariant_of_step`); a measure that every step makes smaller bounds every run
(`not_infinite_of_measure`, `exists_stuck_of_measure`); a run of an executable step function is
given by its list of actions (`reflTransGen_of_foldlM`).
-/

namespace TransitionSystem

variable {S : Type*} {step : S → S → Prop} {s₀ s : S}

/-- What holds initially and is kept by every step holds in every state reached. -/
theorem invariant_of_step {I : S → Prop} (hinit : I s₀)
    (hstep : ∀ s s', I s → step s s' → I s') (h : Relation.ReflTransGen step s₀ s) : I s := by
  induction h with
  | refl => exact hinit
  | tail _ hlast ih => exact hstep _ _ ih hlast

section Measure

variable (μ : S → ℕ)

/-- If every step makes a measure smaller, no run is infinite. -/
theorem not_infinite_of_measure (hμ : ∀ s s', step s s' → μ s' < μ s) (run : ℕ → S) :
    ¬ ∀ n, step (run n) (run (n + 1)) := by
  intro hrun
  have hle : ∀ n, μ (run n) + n ≤ μ (run 0) := by
    intro n
    induction n with
    | zero => exact Nat.le_refl _
    | succ n ih =>
        have hlt := hμ _ _ (hrun n)
        omega
  have hend := hle (μ (run 0) + 1)
  omega

/-- If every step makes a measure smaller, every state leads to one that cannot move. -/
theorem exists_stuck_of_measure (hμ : ∀ s s', step s s' → μ s' < μ s) (s : S) :
    ∃ s', Relation.ReflTransGen step s s' ∧ ∀ s'', ¬ step s' s'' := by
  induction hn : μ s using Nat.strongRecOn generalizing s with
  | ind n ih =>
      by_cases hstuck : ∃ s', step s s'
      · obtain ⟨s', hstep⟩ := hstuck
        obtain ⟨s'', hrun, hend⟩ := ih _ (hn ▸ hμ _ _ hstep) s' rfl
        exact ⟨s'', hrun.head hstep, hend⟩
      · exact ⟨s, Relation.ReflTransGen.refl, fun s' hstep => hstuck ⟨s', hstep⟩⟩

end Measure

/-- A list of actions that executes is a run. -/
theorem reflTransGen_of_foldlM {A : Type*} {f : S → A → Option S} {actions : List A}
    (h : actions.foldlM f s₀ = some s) :
    Relation.ReflTransGen (fun s s' => ∃ a, f s a = some s') s₀ s := by
  induction actions generalizing s₀ with
  | nil =>
      rw [List.foldlM_nil] at h
      cases h
      exact Relation.ReflTransGen.refl
  | cons a actions ih =>
      rw [List.foldlM_cons] at h
      cases hf : f s₀ a with
      | none => simp [hf] at h
      | some s₁ => exact (ih (by simpa [hf] using h)).head ⟨a, hf⟩

end TransitionSystem
