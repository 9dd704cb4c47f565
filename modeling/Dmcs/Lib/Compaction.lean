import Mathlib.Data.List.Destutter
import Mathlib.Data.List.Perm.Basic
import Mathlib.Tactic.Common

/-!
# Compacting a sorted list

Removing duplicates from a sorted list in one pass: an element is kept if it differs from the last
one that was kept, and dropped otherwise.  `compact eq last xs` is what a pass over `xs` keeps and
what it drops after `last` was kept.  Nothing is lost (`perm`), what is kept is strictly increasing
(`pairwise_kept`), and every element has a representative among what is kept
(`exists_kept_eq`).
-/

namespace Compaction

variable {α : Type*}

/-- What is kept of `xs` and what is dropped, both in order, when `last` was kept before. -/
def compact (eq : α → α → Bool) : α → List α → List α × List α
  | _, [] => ([], [])
  | last, x :: xs =>
      if eq last x then ((compact eq last xs).1, x :: (compact eq last xs).2)
      else (x :: (compact eq x xs).1, (compact eq x xs).2)

variable {eq : α → α → Bool} {last x : α} {xs : List α}

lemma compact_cons_of_eq (h : eq last x = true) :
    compact eq last (x :: xs) = ((compact eq last xs).1, x :: (compact eq last xs).2) := by
  rw [compact, if_pos h]

lemma compact_cons_of_ne (h : ¬ eq last x = true) :
    compact eq last (x :: xs) = (x :: (compact eq x xs).1, (compact eq x xs).2) := by
  rw [compact, if_neg h]

/-- An element is kept or dropped. -/
lemma perm (eq : α → α → Bool) (last : α) (xs : List α) :
    ((compact eq last xs).1 ++ (compact eq last xs).2).Perm xs := by
  induction xs generalizing last with
  | nil => exact List.Perm.refl _
  | cons x xs ih =>
      by_cases h : eq last x = true
      · rw [compact_cons_of_eq h]
        exact List.perm_middle.trans ((ih last).cons x)
      · rw [compact_cons_of_ne h, List.cons_append]
        exact (ih x).cons x

lemma mem_of_mem_kept {y : α} (hy : y ∈ (compact eq last xs).1) : y ∈ xs :=
  (perm eq last xs).subset (List.mem_append_left _ hy)

/-- What is kept of a sorted list is strictly increasing. -/
lemma pairwise_kept {le lt : α → α → Prop} (htrans : ∀ a b c, lt a b → lt b c → lt a c)
    (hlt : ∀ a b, le a b → ¬ eq a b = true → lt a b) (hsorted : (last :: xs).Pairwise le) :
    (last :: (compact eq last xs).1).Pairwise lt := by
  induction xs generalizing last with
  | nil => exact List.pairwise_singleton lt last
  | cons x xs ih =>
      rw [List.pairwise_cons] at hsorted
      obtain ⟨hlast, hxs⟩ := hsorted
      by_cases h : eq last x = true
      · rw [compact_cons_of_eq h]
        apply ih
        rw [List.pairwise_cons]
        exact ⟨fun y hy => hlast y (List.mem_cons_of_mem x hy), (List.pairwise_cons.1 hxs).2⟩
      · rw [compact_cons_of_ne h]
        have hx : lt last x := hlt last x (hlast x List.mem_cons_self) h
        have hkept := ih hxs
        rw [List.pairwise_cons]
        refine ⟨?_, hkept⟩
        rw [List.forall_mem_cons]
        exact ⟨hx, fun y hy => htrans last x y hx ((List.pairwise_cons.1 hkept).1 y hy)⟩

/-- If equal elements look the same, everything that can be seen is kept. -/
lemma exists_kept_eq {β : Type*} {f : α → β}
    (hf : ∀ a ∈ last :: xs, ∀ b ∈ xs, eq a b = true → f a = f b) {y : α} (hy : y ∈ last :: xs) :
    ∃ z ∈ last :: (compact eq last xs).1, f z = f y := by
  induction xs generalizing last with
  | nil => exact ⟨y, hy, rfl⟩
  | cons x xs ih =>
      by_cases h : eq last x = true
      · rw [compact_cons_of_eq h]
        have hf' : ∀ a ∈ last :: xs, ∀ b ∈ xs, eq a b = true → f a = f b := by
          intro a ha b hb
          apply hf a _ b (List.mem_cons_of_mem x hb)
          rcases List.mem_cons.1 ha with rfl | ha
          · exact List.mem_cons_self
          · exact List.mem_cons_of_mem _ (List.mem_cons_of_mem x ha)
        rcases List.mem_cons.1 hy with rfl | hy
        · exact ⟨y, List.mem_cons_self, rfl⟩
        · rcases List.mem_cons.1 hy with rfl | hy
          · exact ⟨last, List.mem_cons_self, hf last List.mem_cons_self y List.mem_cons_self h⟩
          · exact ih hf' (List.mem_cons_of_mem last hy)
      · rw [compact_cons_of_ne h]
        rcases List.mem_cons.1 hy with rfl | hy
        · exact ⟨y, List.mem_cons_self, rfl⟩
        · have hf' : ∀ a ∈ x :: xs, ∀ b ∈ xs, eq a b = true → f a = f b :=
            fun a ha b hb => hf a (List.mem_cons_of_mem last ha) b (List.mem_cons_of_mem x hb)
          obtain ⟨z, hz, hzy⟩ := ih hf' hy
          exact ⟨z, List.mem_cons_of_mem last hz, hzy⟩

/-- What is kept is what `destutter` keeps. -/
lemma kept_eq_destutter' (eq : α → α → Bool) (last : α) (xs : List α) :
    last :: (compact eq last xs).1 = xs.destutter' (fun a b => ¬ eq a b = true) last := by
  induction xs generalizing last with
  | nil => rfl
  | cons x xs ih =>
      by_cases h : eq last x = true
      · rw [compact_cons_of_eq h, List.destutter'_cons_neg _ (not_not.2 h)]
        exact ih last
      · rw [compact_cons_of_ne h, List.destutter'_cons_pos _ h]
        exact congrArg (last :: ·) (ih x)

end Compaction
