import Mathlib.Data.List.Nodup
import Mathlib.Order.Lattice
import Mathlib.Tactic.Common

/-!
# Ordered containers with unique keys

A list in the strict order of its keys.  An insertion of an entry whose key is there does nothing.
-/

/-- The entries in the order of their keys. -/
structure OrderedUnique {α κ : Type*} [LT κ] (key : α → κ) where
  entries : List α
  sorted : entries.Pairwise (fun x y => key x < key y)

namespace OrderedUnique

section Insertion

variable {α κ : Type*} [LinearOrder κ] (key : α → κ)

def insertInto (e : α) : List α → List α
  | [] => [e]
  | x :: xs =>
      if key e < key x then e :: x :: xs
      else if key x < key e then x :: insertInto e xs
      else x :: xs

variable {key} {e y : α} {l : List α}

lemma eq_or_mem_of_mem_insertInto (h : y ∈ insertInto key e l) : y = e ∨ y ∈ l := by
  induction l with
  | nil => exact Or.inl (List.mem_singleton.1 h)
  | cons x xs ih =>
      unfold insertInto at h
      split_ifs at h
      · exact List.mem_cons.1 h
      · rcases List.mem_cons.1 h with rfl | h
        · exact Or.inr List.mem_cons_self
        · exact (ih h).imp_right (List.mem_cons_of_mem x)
      · exact Or.inr h

lemma mem_insertInto_of_mem (h : y ∈ l) : y ∈ insertInto key e l := by
  induction l with
  | nil => exact absurd h List.not_mem_nil
  | cons x xs ih =>
      unfold insertInto
      split_ifs
      · exact List.mem_cons_of_mem e h
      · rcases List.mem_cons.1 h with rfl | h
        · exact List.mem_cons_self
        · exact List.mem_cons_of_mem x (ih h)
      · exact h

/-- The entry is there, or one with its key was. -/
lemma mem_insertInto (e : α) (l : List α) :
    e ∈ insertInto key e l ∨ ∃ x ∈ l, key x = key e := by
  induction l with
  | nil => exact Or.inl List.mem_cons_self
  | cons x xs ih =>
      unfold insertInto
      split_ifs with hbefore hafter
      · exact Or.inl List.mem_cons_self
      · rcases ih with h | ⟨x', hx', hkey⟩
        · exact Or.inl (List.mem_cons_of_mem x h)
        · exact Or.inr ⟨x', List.mem_cons_of_mem x hx', hkey⟩
      · exact Or.inr ⟨x, List.mem_cons_self, le_antisymm (not_lt.1 hbefore) (not_lt.1 hafter)⟩

lemma pairwise_insertInto (h : l.Pairwise (fun x y => key x < key y)) :
    (insertInto key e l).Pairwise (fun x y => key x < key y) := by
  induction l with
  | nil => exact List.pairwise_singleton _ e
  | cons x xs ih =>
      obtain ⟨hx, hxs⟩ := List.pairwise_cons.1 h
      unfold insertInto
      split_ifs with hbefore hafter
      · refine List.pairwise_cons.2 ⟨fun y hy => ?_, h⟩
        rcases List.mem_cons.1 hy with rfl | hy
        · exact hbefore
        · exact lt_trans hbefore (hx y hy)
      · refine List.pairwise_cons.2 ⟨fun y hy => ?_, ih hxs⟩
        rcases eq_or_mem_of_mem_insertInto hy with rfl | hy
        · exact hafter
        · exact hx y hy
      · exact h

/-- A search that the entry does not answer finds what it did. -/
lemma find?_insertInto_of_not {p : α → Bool} (he : p e = false) :
    (insertInto key e l).find? p = l.find? p := by
  induction l with
  | nil =>
      show [e].find? p = none
      rw [List.find?_cons_of_neg (by rw [he]; exact Bool.false_ne_true)]
      rfl
  | cons x xs ih =>
      unfold insertInto
      split_ifs
      · rw [List.find?_cons_of_neg (by rw [he]; exact Bool.false_ne_true)]
      · cases hx : p x with
        | true => rw [List.find?_cons_of_pos hx, List.find?_cons_of_pos hx]
        | false =>
            have hneg : ¬ p x = true := by
              rw [hx]
              exact Bool.false_ne_true
            rw [List.find?_cons_of_neg hneg, List.find?_cons_of_neg hneg, ih]
      · rfl

/-- A search finds what it did, or the entry. -/
lemma find?_insertInto_cases (p : α → Bool) :
    (insertInto key e l).find? p = l.find? p ∨ (insertInto key e l).find? p = some e := by
  cases he : p e with
  | false => exact Or.inl (find?_insertInto_of_not he)
  | true =>
      induction l with
      | nil => exact Or.inr (List.find?_cons_of_pos he)
      | cons x xs ih =>
          unfold insertInto
          split_ifs
          · exact Or.inr (List.find?_cons_of_pos he)
          · cases hx : p x with
            | true =>
                refine Or.inl ?_
                rw [List.find?_cons_of_pos hx, List.find?_cons_of_pos hx]
            | false =>
                have hneg : ¬ p x = true := by
                  rw [hx]
                  exact Bool.false_ne_true
                rw [List.find?_cons_of_neg hneg, List.find?_cons_of_neg hneg]
                exact ih
          · exact Or.inl rfl

/-- A search for a property of keys that found nothing finds the entry. -/
lemma find?_insertInto_of_none {p : α → Bool} (hp : ∀ x y, key x = key y → p x = p y)
    (he : p e = true) (hl : l.find? p = none) : (insertInto key e l).find? p = some e := by
  have hnone := List.find?_eq_none.1 hl
  rcases @find?_insertInto_cases _ _ _ key e l p with h | h
  · rw [hl, List.find?_eq_none] at h
    rcases @mem_insertInto _ _ _ key e l with hmem | ⟨x, hx, hkey⟩
    · exact absurd he (h e hmem)
    · exact absurd ((hp x e hkey).trans he) (hnone x hx)
  · exact h

end Insertion

variable {α κ : Type*} [LinearOrder κ] {key : α → κ}

def insert (s : OrderedUnique key) (e : α) : OrderedUnique key where
  entries := insertInto key e s.entries
  sorted := pairwise_insertInto s.sorted

/-- The entry with a key. -/
def find (s : OrderedUnique key) (k : κ) : Option α := s.entries.find? (fun x => key x = k)

variable (s : OrderedUnique key) {e y : α} {k : κ}

lemma nodup_keys : (s.entries.map key).Nodup :=
  List.pairwise_map.2 (s.sorted.imp (fun h => ne_of_lt h))

/-- There is only one entry with a key. -/
lemma eq_of_mem (he : e ∈ s.entries) (hy : y ∈ s.entries) (hkey : key e = key y) : e = y :=
  List.inj_on_of_nodup_map s.nodup_keys he hy hkey

lemma find_eq_some_iff : s.find k = some e ↔ e ∈ s.entries ∧ key e = k := by
  have hkey : ∀ {x}, s.find k = some x → x ∈ s.entries ∧ key x = k := fun h =>
    ⟨List.mem_of_find?_eq_some h,
      of_decide_eq_true (@List.find?_some α (fun x => decide (key x = k)) _ _ h)⟩
  refine ⟨hkey, fun ⟨hmem, he⟩ => ?_⟩
  cases hfind : s.find k with
  | none => exact absurd (decide_eq_true he) (List.find?_eq_none.1 hfind e hmem)
  | some x =>
      obtain ⟨hx, hxkey⟩ := hkey hfind
      exact congrArg some (s.eq_of_mem hx hmem (hxkey.trans he.symm))

lemma mem_insert_of_mem (h : y ∈ s.entries) : y ∈ (s.insert e).entries :=
  mem_insertInto_of_mem h

lemma eq_or_mem_of_mem_insert (h : y ∈ (s.insert e).entries) : y = e ∨ y ∈ s.entries :=
  eq_or_mem_of_mem_insertInto h

/-- An entry that is there stays. -/
lemma find_insert_of_some {x : α} (h : s.find k = some x) : (s.insert e).find k = some x := by
  rw [find_eq_some_iff] at h ⊢
  exact ⟨s.mem_insert_of_mem h.1, h.2⟩

lemma find_insert_of_ne (h : key e ≠ k) : (s.insert e).find k = s.find k :=
  find?_insertInto_of_not (decide_eq_false h)

lemma find_insert_self (h : s.find (key e) = none) : (s.insert e).find (key e) = some e := by
  refine find?_insertInto_of_none (fun x y hkey => ?_) (decide_eq_true rfl) h
  rw [hkey]

lemma mem_insert_iff :
    y ∈ (s.insert e).entries ↔ y ∈ s.entries ∨ y = e ∧ s.find (key e) = none := by
  constructor
  · intro h
    rcases s.eq_or_mem_of_mem_insert h with rfl | hy
    · cases hfind : s.find (key y) with
      | none => exact Or.inr ⟨rfl, rfl⟩
      | some x =>
          have hself := ((s.insert y).find_eq_some_iff).2 ⟨h, rfl⟩
          rw [s.find_insert_of_some hfind] at hself
          rw [← Option.some.inj hself]
          exact Or.inl (s.find_eq_some_iff.1 hfind).1
    · exact Or.inl hy
  · rintro (hy | ⟨rfl, hnone⟩)
    · exact s.mem_insert_of_mem hy
    · exact ((s.insert y).find_eq_some_iff.1 (s.find_insert_self hnone)).1

end OrderedUnique
