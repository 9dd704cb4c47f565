import Mathlib.Algebra.Order.BigOperators.GroupWithZero.List
import Mathlib.Algebra.Order.Ring.Nat
import Mathlib.Data.Multiset.Bind
import Dmcs.Lib.Odometer
import Dmcs.Lib.Page

/-!
# Combining lists pack by pack

Lists that are too long to be held at once are read in packs.  A reader (`Packs`) knows neither how
many packs there are nor how long they are: it asks until a pack is empty.  To try all combinations
of one element from each list one goes through all vectors of pack numbers, with the first list
turning fastest, and tries the combinations of the packs at hand.

`succLow` is the step from one vector of pack numbers to the next, `colex` the list of all vectors
in this order (`orbit_colex`).  `product_packs_perm` says that the combinations tried pack by pack
are those of everything that is read, each as often as it is one.  `Packs.ofList` reads a list in
packs of `p` elements, and reads all of it (`Packs.all_ofList`).
-/

namespace Odometer

open Paging

variable {α : Type*}

/-! ## Counting with the first digit fastest -/

/-- The successor of a vector of digits below `ms`, carrying to the right. -/
def succLow : List ℕ → List ℕ → Option (List ℕ)
  | m :: ms, d :: ds =>
      if d + 1 < m then some ((d + 1) :: ds) else (succLow ms ds).map (fun ds => 0 :: ds)
  | _, _ => none

/-- All vectors of digits below `ms`, the first digit turning fastest. -/
def colex : List ℕ → List (List ℕ)
  | [] => [[]]
  | m :: ms => (colex ms).flatMap (fun ds => (List.range m).map (fun d => d :: ds))

private lemma orbit_range' (m : ℕ) :
    ∀ k d, d + k = m → Orbit (fun d => if d + 1 < m then some (d + 1) else none)
      (List.range' d k) := by
  intro k
  induction k with
  | zero => intro d _; trivial
  | succ k ih =>
      intro d hd
      rw [List.range'_succ]
      refine ⟨?_, ih (d + 1) (by omega)⟩
      cases k with
      | zero => simp; omega
      | succ k => simp [List.range'_succ]; omega

private lemma orbit_flatMap_range {m : ℕ} (hm : 0 < m) {ms : List ℕ} {l : List (List ℕ)}
    (hl : Orbit (succLow ms) l) :
    Orbit (succLow (m :: ms)) (l.flatMap (fun ds => (List.range m).map (fun d => d :: ds))) := by
  induction l with
  | nil => trivial
  | cons ds l ih =>
      rw [List.flatMap_cons, List.range_eq_range']
      refine Orbit.map_append (f := fun d => if d + 1 < m then some (d + 1) else none)
        ?_ ?_ (by rw [← List.range_eq_range']; exact ih hl.2) (orbit_range' m m 0 (Nat.zero_add m))
      · intro x y hxy
        by_cases hx : x + 1 < m
        · simp only [hx, if_true, Option.some.injEq] at hxy
          rw [succLow, if_pos hx, hxy]
        · simp [hx] at hxy
      · intro x hx
        have hlast : ¬ x + 1 < m := by
          intro hlt
          simp [hlt] at hx
        have hnext : succLow ms ds = l.head? := hl.1
        obtain ⟨m, rfl⟩ := Nat.exists_eq_succ_of_ne_zero (by omega : m ≠ 0)
        rw [succLow, if_neg hlast, hnext, ← List.range_eq_range']
        cases l with
        | nil => rfl
        | cons ds' l => simp [List.range_succ_eq_map]

/-- Going from one vector to the next visits all vectors. -/
theorem orbit_colex {ms : List ℕ} (h : ∀ m ∈ ms, 0 < m) : Orbit (succLow ms) (colex ms) := by
  induction ms with
  | nil => exact ⟨rfl, trivial⟩
  | cons m ms ih =>
      exact orbit_flatMap_range (h m (by simp)) (ih (fun x hx => h x (by simp [hx])))

lemma colex_head {ms : List ℕ} (h : ∀ m ∈ ms, 0 < m) :
    (colex ms).head? = some (List.replicate ms.length 0) := by
  induction ms with
  | nil => rfl
  | cons m ms ih =>
      have ih := ih (fun x hx => h x (by simp [hx]))
      obtain ⟨m, rfl⟩ := Nat.exists_eq_succ_of_ne_zero (by have := h m (by simp); omega : m ≠ 0)
      cases hc : colex ms with
      | nil => simp [hc] at ih
      | cons ds l =>
          rw [hc, List.head?_cons, Option.some.injEq] at ih
          rw [colex, hc, List.flatMap_cons, List.range_succ_eq_map, ih]
          simp [List.replicate_succ]

/-! ## Packs -/

/-- What one gets by asking for pack after pack until one is empty; `count` is its number. -/
structure Packs (α : Type*) where
  pack : ℕ → List α
  count : ℕ
  ne_nil : ∀ c < count, pack c ≠ []
  eq_nil : pack count = []

namespace Packs

/-- Nothing to read. -/
instance : Inhabited (Packs α) := ⟨⟨fun _ => [], 0, fun _ hc => absurd hc (Nat.not_lt_zero _), rfl⟩⟩

/-- A sequence of packs up to its first empty one. -/
def ofExists (pack : ℕ → List α) [DecidablePred (fun c => pack c = [])]
    (h : ∃ c, pack c = []) : Packs α where
  pack := pack
  count := Nat.find h
  ne_nil := fun _ hc => Nat.find_min h hc
  eq_nil := Nat.find_spec h

lemma count_ofExists_le {pack : ℕ → List α} [DecidablePred (fun c => pack c = [])]
    {h : ∃ c, pack c = []} {c : ℕ} (hc : pack c = []) : (ofExists pack h).count ≤ c :=
  Nat.find_min' h hc

/-- Everything that is read. -/
def all (P : Packs α) : List α := (List.range P.count).flatMap P.pack

lemma count_pos_iff (P : Packs α) : 0 < P.count ↔ P.pack 0 ≠ [] := by
  refine ⟨P.ne_nil 0, fun hne => Nat.pos_of_ne_zero (fun hzero => hne ?_)⟩
  rw [← hzero]
  exact P.eq_nil

lemma all_ne_nil {P : Packs α} (h : 0 < P.count) : P.all ≠ [] := by
  intro hnil
  exact P.ne_nil 0 h (List.flatMap_eq_nil_iff.mp hnil 0 (List.mem_range.mpr h))

/-- The pack after one that was read is the last one or not empty. -/
lemma succ_lt_count_iff (P : Packs α) {c : ℕ} (hc : c < P.count) :
    c + 1 < P.count ↔ P.pack (c + 1) ≠ [] := by
  refine ⟨P.ne_nil (c + 1), fun hne => lt_of_le_of_ne hc (fun heq => hne ?_)⟩
  rw [heq]
  exact P.eq_nil

end Packs

/-- The packs with the given numbers. -/
def packsAt (ds : List ℕ) (Ps : List (Packs α)) : List (List α) :=
  List.zipWith (fun d P => P.pack d) ds Ps

/-- The combinations of the packs, over all vectors of pack numbers, are all combinations of what is
read. -/
theorem product_packs_perm (Ps : List (Packs α)) :
    ((colex (Ps.map Packs.count)).flatMap (fun ds => product (packsAt ds Ps))).Perm
      (product (Ps.map Packs.all)) := by
  induction Ps with
  | nil => exact List.Perm.refl _
  | cons P Ps ih =>
      have hinner : ∀ ds, (List.range P.count).flatMap
          (fun d => product (packsAt (d :: ds) (P :: Ps))) =
            P.all.flatMap (fun x => (product (packsAt ds Ps)).map (fun xs => x :: xs)) := by
        intro ds
        rw [Packs.all, List.flatMap_assoc]
        rfl
      rw [List.map_cons, colex, List.flatMap_assoc]
      simp only [List.flatMap_map, hinner, List.map_cons, product]
      -- as multisets, the loop over the packs of the other lists can be done inside
      rw [← Multiset.coe_eq_coe] at ih ⊢
      simp only [← Multiset.coe_bind, ← Multiset.map_coe] at ih ⊢
      rw [Multiset.bind_bind]
      simp only [← Multiset.map_bind, ih]

/-- Shorter lists, none of them empty, have fewer combinations. -/
lemma length_product_lt {ι : Type*} {f g : ι → List α} {l : List ι} (hne : ∀ x ∈ l, f x ≠ [])
    (hle : ∀ x ∈ l, (f x).length ≤ (g x).length) (hlt : ∃ x ∈ l, (f x).length < (g x).length) :
    (product (l.map f)).length < (product (l.map g)).length := by
  have hprod : ∀ h : ι → List α,
      (product (l.map h)).length = (l.map (fun x => (h x).length)).prod := by
    intro h
    rw [← map_pick_tuples, List.length_map, length_tuples, List.map_map]
    rfl
  rw [hprod, hprod]
  have hpos : ∀ x ∈ l, 0 < (f x).length := fun x hx => List.length_pos_iff.mpr (hne x hx)
  clear hprod hne
  induction l with
  | nil => simp at hlt
  | cons x l ih =>
      have hle' := fun y hy => hle y (List.mem_cons_of_mem x hy)
      have hpos' := fun y hy => hpos y (List.mem_cons_of_mem x hy)
      have hx := hle x List.mem_cons_self
      have hxpos := hpos x List.mem_cons_self
      rw [List.map_cons, List.map_cons, List.prod_cons, List.prod_cons]
      obtain ⟨y, hy, hylt⟩ := hlt
      rcases List.mem_cons.mp hy with rfl | hy
      · refine Nat.mul_lt_mul_of_lt_of_le hylt
          (List.prod_map_le_prod_map₀ _ _ (fun _ _ => Nat.zero_le _) hle') ?_
        refine List.prod_pos (fun n hn => ?_)
        obtain ⟨z, hz, rfl⟩ := List.mem_map.mp hn
        exact lt_of_lt_of_le (hpos' z hz) (hle' z hz)
      · exact Nat.mul_lt_mul_of_le_of_lt hx (ih hle' ⟨y, hy, hylt⟩ hpos') (by omega)

/-! ## Packs of a list -/

/-- Pack number `c`, counted from `0`, of packs of size `p`: positions `c * p + 1` to
`(c + 1) * p`. -/
def pack (p c : ℕ) (L : List α) : List α := page (c * p + 1) ((c + 1) * p) L

/-- How many packs are not empty. -/
def noPacks (p : ℕ) (L : List α) : ℕ := (L.length + p - 1) / p

lemma pack_eq (p c : ℕ) (L : List α) : pack p c L = (L.take ((c + 1) * p)).drop (c * p) := by
  rw [pack, page_pos (by omega)]
  rfl

lemma pack_ne_nil_iff {p : ℕ} (hp : 1 ≤ p) {c : ℕ} {L : List α} :
    pack p c L ≠ [] ↔ c < noPacks p L := by
  have hmul : (c + 1) * p = c * p + p := by rw [Nat.add_mul, Nat.one_mul]
  have hdiv : c < noPacks p L ↔ (c + 1) * p ≤ L.length + p - 1 :=
    Nat.le_div_iff_mul_le (by omega)
  rw [← List.length_pos_iff, pack_eq, List.length_drop, List.length_take, hdiv]
  omega

lemma flatMap_pack (p : ℕ) (L : List α) (m : ℕ) :
    (List.range m).flatMap (fun c => pack p c L) = L.take (m * p) := by
  induction m with
  | zero => simp
  | succ m ih =>
      have hle : m * p ≤ (m + 1) * p := Nat.mul_le_mul_right p (by omega)
      rw [List.range_succ, List.flatMap_append, ih, List.flatMap_singleton, pack_eq]
      conv_rhs => rw [← List.take_append_drop (m * p) (L.take ((m + 1) * p))]
      rw [List.take_take, Nat.min_eq_left hle]

/-- The packs cover the list, and the last one starts inside it. -/
lemma length_le_noPacks_mul {p : ℕ} (hp : 1 ≤ p) (L : List α) :
    L.length ≤ noPacks p L * p ∧ noPacks p L * p < L.length + p := by
  have hlt := Nat.lt_div_mul_add (a := L.length + p - 1) (by omega : 0 < p)
  have hle := Nat.div_mul_le_self (L.length + p - 1) p
  rw [noPacks]
  omega

namespace Packs

/-- A list, read in packs of `p` elements. -/
def ofList (p : ℕ) (hp : 1 ≤ p) (L : List α) : Packs α where
  pack := fun c => Odometer.pack p c L
  count := noPacks p L
  ne_nil := fun _ hc => (pack_ne_nil_iff hp).mpr hc
  eq_nil := by
    by_contra hne
    exact absurd ((pack_ne_nil_iff hp).mp hne) (Nat.lt_irrefl _)

/-- The packs one after the other are the list. -/
@[simp] lemma all_ofList {p : ℕ} (hp : 1 ≤ p) (L : List α) : (ofList p hp L).all = L :=
  (flatMap_pack p L (noPacks p L)).trans
    (List.take_of_length_le (length_le_noPacks_mul hp L).1)

lemma map_all_ofList {p : ℕ} (hp : 1 ≤ p) (Ls : List (List α)) :
    (Ls.map (ofList p hp)).map all = Ls := by
  rw [List.map_map]
  exact (List.map_congr_left (fun L _ => all_ofList hp L)).trans (List.map_id' Ls)

lemma count_ofList_pos {p : ℕ} (hp : 1 ≤ p) {L : List α} (hL : L ≠ []) :
    0 < (ofList p hp L).count := by
  have hlen := List.length_pos_iff.mpr hL
  exact Nat.div_pos (by omega) (by omega)

end Packs

end Odometer
