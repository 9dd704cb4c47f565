import Mathlib.Data.Set.Card
import Mathlib.Logic.Function.Iterate
import Mathlib.Logic.Relation
import Mathlib.Tactic.Common

/-!
# Fixed points by levels

Every index has a level.  A map on families that determines each level from the levels below has
exactly one fixed point.  A relation without cycles, in which every index reaches finitely many
others, goes down in some numbering of the indices.
-/

namespace Levels

variable {α β : Type} {level : α → ℕ} {n : ℕ} {M N : α → β} {f : (α → β) → (α → β)}

/-- Agreement at the indices of a lower level. -/
def AgreeBelow (level : α → ℕ) (n : ℕ) (M N : α → β) : Prop := ∀ a, level a < n → M a = N a

/-- What the map makes of a family depends, at each level, on the levels below. -/
def GoesUp (level : α → ℕ) (f : (α → β) → (α → β)) : Prop :=
  ∀ n M N, AgreeBelow level n M N → AgreeBelow level (n + 1) (f M) (f N)

/-- The iterates from any two families agree up to the number of steps. -/
lemma GoesUp.iterate_agree (h : GoesUp level f) (n : ℕ) (M N : α → β) :
    AgreeBelow level n (f^[n] M) (f^[n] N) := by
  induction n with
  | zero => exact fun a ha => absurd ha (Nat.not_lt_zero _)
  | succ n ih =>
      rw [Function.iterate_succ_apply', Function.iterate_succ_apply']
      exact h n _ _ ih

/-- A map that goes up one level has exactly one fixed point. -/
theorem GoesUp.existsUnique [Nonempty β] (h : GoesUp level f) : ∃! M, f M = M := by
  let start : α → β := fun _ => Classical.arbitrary β
  let M : α → β := fun a => f^[level a + 1] start a
  have hM : ∀ n, AgreeBelow level n M (f^[n] start) := by
    intro n a ha
    obtain ⟨k, rfl⟩ := Nat.exists_eq_add_of_lt ha
    have hsplit : f^[level a + k + 1] start = f^[level a + 1] (f^[k] start) := by
      rw [← Function.iterate_add_apply]
      congr 1
      omega
    rw [hsplit]
    exact h.iterate_agree (level a + 1) start (f^[k] start) a (Nat.lt_succ_self _)
  refine ⟨M, ?_, fun N hN => ?_⟩
  · funext a
    have hfM := h (level a) M _ (hM (level a)) a (Nat.lt_succ_self _)
    rw [← Function.iterate_succ_apply' f] at hfM
    exact hfM.trans (hM (level a + 1) a (Nat.lt_succ_self _)).symm
  · funext a
    have hfix : f^[level a + 1] N = N := Function.iterate_fixed hN _
    calc N a = f^[level a + 1] N a := by rw [hfix]
      _ = f^[level a + 1] start a := h.iterate_agree _ N start a (Nat.lt_succ_self _)
      _ = M a := rfl

/-- A relation without cycles goes down in the number of indices that can be reached. -/
lemma exists_level {R : α → α → Prop} (hacyclic : ∀ a, ¬ Relation.TransGen R a a)
    (hfinite : ∀ a, {b | Relation.TransGen R a b}.Finite) :
    ∃ level : α → ℕ, ∀ a b, R a b → level b < level a := by
  refine ⟨fun a => {b | Relation.TransGen R a b}.ncard, fun a b hab => ?_⟩
  refine Set.ncard_lt_ncard ⟨fun c hc => .head hab hc, fun hsub => ?_⟩ (hfinite a)
  exact hacyclic b (hsub (.single hab))

end Levels
