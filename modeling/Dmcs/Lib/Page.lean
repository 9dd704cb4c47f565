import Mathlib.Data.List.Basic
import Mathlib.Data.List.Nodup
import Mathlib.Data.List.NodupEquivFin
import Mathlib.Order.WellFounded
import Mathlib.Algebra.Order.BigOperators.Group.List
import Mathlib.Tactic.Common

/-!
# Pages of a list

`page k₁ k₂ L` is the part of `L` a request `(k₁, k₂)` asks for: positions `k₁..k₂` counted from
`1`, and all of `L` for the request `(0, 0)`.  A server that produces `L` in chunks answers the
request chunk by chunk and rewrites the request in between; `page_append` is the law that makes
this correct, with `restLow`/`restHigh` the rewritten request.
-/

namespace Paging

variable {α : Type*}

/-- Positions `k₁..k₂` of `L` (from `1`), or all of `L` for `(0, 0)`. -/
def page (k₁ k₂ : ℕ) (L : List α) : List α :=
  if k₁ = 0 ∧ k₂ = 0 then L else (L.take k₂).drop (k₁ - 1)

/-- A request a server may receive: everything, or a non-empty range. -/
def Admissible (k₁ k₂ : ℕ) : Prop := (k₁ = 0 ∧ k₂ = 0) ∨ (1 ≤ k₁ ∧ k₁ ≤ k₂)

instance (k₁ k₂ : ℕ) : Decidable (Admissible k₁ k₂) := inferInstanceAs (Decidable (_ ∨ _))

/-- The request for everything. -/
lemma admissible_all : Admissible 0 0 := Or.inl ⟨rfl, rfl⟩

/-- Its bounds are machine words. -/
lemma zero_lt_word : 0 < 2 ^ 64 := Nat.two_pow_pos 64

/-- So are those of the request for the first element. -/
lemma one_lt_word : 1 < 2 ^ 64 := Nat.one_lt_two_pow (by decide)

/-- Lower end of the request left after `n` elements went by. -/
def restLow (k₁ n : ℕ) : ℕ := if n < k₁ then k₁ - n else 1

/-- Upper end of the request left after `n` elements went by. -/
def restHigh (k₂ n : ℕ) : ℕ := k₂ - n

@[simp] lemma page_zero (L : List α) : page 0 0 L = L := by simp [page]

lemma page_pos {k₁ k₂ : ℕ} (h : 1 ≤ k₁) (L : List α) :
    page k₁ k₂ L = (L.take k₂).drop (k₁ - 1) := by
  simp [page, Nat.one_le_iff_ne_zero.mp h]

@[simp] lemma page_nil (k₁ k₂ : ℕ) : page k₁ k₂ ([] : List α) = [] := by
  unfold page; split <;> simp

lemma page_length {k₁ : ℕ} (h : 1 ≤ k₁) (k₂ : ℕ) (L : List α) :
    (page k₁ k₂ L).length = min k₂ L.length - (k₁ - 1) := by
  simp [page_pos h]

lemma page_eq_nil_of_length_lt {k₁ k₂ : ℕ} {L : List α} (h : 1 ≤ k₁) (hL : L.length < k₁) :
    page k₁ k₂ L = [] := by
  apply List.length_eq_zero_iff.mp
  rw [page_length h]
  omega

lemma page_map {β : Type*} (f : α → β) (k₁ k₂ : ℕ) (L : List α) :
    page k₁ k₂ (L.map f) = (page k₁ k₂ L).map f := by
  unfold page
  split <;> simp [List.map_take, List.map_drop]

/-- A request over a concatenation is answered by the two parts one after the other. -/
lemma page_append {k₁ k₂ : ℕ} (h : 1 ≤ k₁) (A B : List α) :
    page k₁ k₂ (A ++ B) =
      page k₁ k₂ A ++
        if k₂ ≤ A.length then [] else page (restLow k₁ A.length) (restHigh k₂ A.length) B := by
  rw [page_pos h, page_pos h, List.take_append]
  by_cases hk : k₂ ≤ A.length
  · rw [if_pos hk, Nat.sub_eq_zero_of_le hk]
    simp
  · have hlow : 1 ≤ restLow k₁ A.length := by unfold restLow; split <;> omega
    have htake : A.take k₂ = A := List.take_of_length_le (by omega)
    rw [if_neg hk, page_pos hlow, htake, List.drop_append, restHigh]
    congr 2
    unfold restLow
    split <;> omega

lemma restLow_pos {k₁ n : ℕ} : 1 ≤ restLow k₁ n := by
  unfold restLow; split <;> omega

lemma restLow_le_restHigh {k₁ k₂ n : ℕ} (h : k₁ ≤ k₂) (hn : n < k₂) :
    restLow k₁ n ≤ restHigh k₂ n := by
  unfold restLow restHigh; split <;> omega

/-- Rewriting a request twice is rewriting it once by the total. -/
lemma restLow_add {k₁ a b : ℕ} : restLow (restLow k₁ a) b = restLow k₁ (a + b) := by
  unfold restLow
  split_ifs <;> omega

lemma restHigh_add {k₂ a b : ℕ} : restHigh (restHigh k₂ a) b = restHigh k₂ (a + b) := by
  unfold restHigh; omega

/-- Leaving out elements, some of them in front, changes a page unless it is empty: with distinct
elements a non-empty page determines its position. -/
lemma page_ne_of_sublist_drop {k₁ k₂ d : ℕ} {L L' : List α} (hnd : L.Nodup)
    (hadm : Admissible k₁ k₂) (hsub : L'.Sublist (L.drop d)) (hd : 0 < d) (hdL : d ≤ L.length)
    (hk : k₁ = 0 ∨ k₁ ≤ L.length) : page k₁ k₂ L' ≠ page k₁ k₂ L := by
  rcases hadm with ⟨rfl, rfl⟩ | ⟨h1, h2⟩
  · intro h
    have hlen := congrArg List.length h
    have hle := hsub.length_le
    simp only [page_zero] at hlen
    rw [List.length_drop] at hle
    omega
  · have hk1 : k₁ ≤ L.length := by omega
    obtain ⟨f, hf⟩ := List.sublist_iff_exists_orderEmbedding_getElem?_eq.mp hsub
    intro h
    rw [page_pos h1, page_pos h1] at h
    have h0 := congrArg (fun l : List α => l[0]?) h
    simp only [List.getElem?_drop, List.getElem?_take] at h0
    rw [if_pos (by omega), if_pos (by omega), Nat.add_zero, hf, List.getElem?_drop] at h0
    have hlt : k₁ - 1 < L.length := by omega
    -- the first element of the page sits further back in `L` than its number says
    have hge : k₁ - 1 ≤ f (k₁ - 1) := f.strictMono.le_apply
    by_cases hlt' : d + f (k₁ - 1) < L.length
    · rw [List.getElem?_eq_getElem hlt', List.getElem?_eq_getElem hlt, Option.some.injEq] at h0
      have := (List.Nodup.getElem_inj_iff hnd).mp h0
      omega
    · rw [List.getElem?_eq_none (by omega), List.getElem?_eq_getElem hlt] at h0
      exact absurd h0 (by simp)

end Paging
