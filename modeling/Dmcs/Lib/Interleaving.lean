import Mathlib.Data.List.Basic
import Mathlib.Tactic.Common

/-!
# Interleavings of streams

Several senders write to one queue; each sender's messages keep their order, but nothing is said
about the order between senders.  `Interleaving ls l` says that `l` is one of the orders in which
the streams `ls` can arrive.
-/

variable {α : Type*}

/-- `l` takes the elements of the streams `ls` one after the other, each stream in its order. -/
def Interleaving : List (List α) → List α → Prop
  | ls, [] => ∀ s ∈ ls, s = []
  | ls, x :: l => ∃ i xs, ls[i]? = some (x :: xs) ∧ Interleaving (ls.set i xs) l

namespace Interleaving

variable {ls : List (List α)} {l : List α}

/-- A stream that is exhausted does not matter. -/
lemma nil_cons : Interleaving ([] :: ls) l ↔ Interleaving ls l := by
  induction l generalizing ls with
  | nil => simp [Interleaving]
  | cons x l ih =>
      constructor
      · rintro ⟨i, xs, hi, h⟩
        cases i with
        | zero => simp at hi
        | succ i => exact ⟨i, xs, by simpa using hi, ih.mp (by simpa using h)⟩
      · rintro ⟨i, xs, hi, h⟩
        exact ⟨i + 1, xs, by simpa using hi, by simpa using ih.mpr h⟩

/-- The streams may arrive one after the other. -/
theorem flatten (ls : List (List α)) : Interleaving ls ls.flatten := by
  induction ls with
  | nil => simp [Interleaving]
  | cons s ls ih =>
      induction s with
      | nil => exact nil_cons.mpr ih
      | cons x s ihs => exact ⟨0, s, rfl, ihs⟩

/-- A single stream arrives in its order. -/
lemma singleton {s : List α} (h : Interleaving [s] l) : l = s := by
  induction l generalizing s with
  | nil => exact (h s (List.mem_singleton.mpr rfl)).symm
  | cons x l ih =>
      obtain ⟨i, xs, hi, h⟩ := h
      cases i with
      | zero =>
          rw [List.getElem?_cons_zero, Option.some.injEq] at hi
          rw [hi, ih h]
      | succ i => simp at hi

end Interleaving
