import Mathlib.Algebra.Group.Nat.Defs
import Mathlib.Data.List.Basic
import Mathlib.Data.List.FinRange
import Mathlib.Data.List.Forall2
import Mathlib.Tactic.Common

/-!
# Enumerating all combinations with running positions

A loop that tries all combinations of elements, one from each of several lists, keeps a vector of
positions.  After each combination it advances the last position that has not reached its end and
resets the positions after it.  `next` is this update as the loop computes it, `visited` the list
of vectors the loop sees.

`visited_next` says that the loop sees every vector of positions exactly once, in lexicographic
order, and `map_pick_tuples` turns positions into elements: the combinations are `product`.

The proof does not look at the loop as a whole.  `Orbit` describes the list of states that a partial
successor runs through, and an orbit that is embedded in a larger system and continued there is an
orbit (`Orbit.map_append`); so the vectors with one more position are put together from those with a
fixed first position.
-/

namespace Odometer

variable {α σ : Type*}

/-! ## Orbits of a partial successor -/

/-- The states seen when `next` is iterated from `x`, at most `fuel` of them. -/
def visited (next : σ → Option σ) : ℕ → σ → List σ
  | 0, _ => []
  | fuel + 1, x =>
      x :: match next x with
        | none => []
        | some y => visited next fuel y

/-- A list in which `next` leads from each element to the following one and is undefined at the
last. -/
def Orbit (next : σ → Option σ) : List σ → Prop
  | [] => True
  | x :: l => next x = l.head? ∧ Orbit next l

lemma Orbit.visited_eq {next : σ → Option σ} {x : σ} {l : List σ} (h : Orbit next (x :: l)) :
    ∀ {fuel : ℕ}, l.length < fuel → visited next fuel x = x :: l := by
  induction l generalizing x with
  | nil =>
      intro fuel hf
      obtain ⟨fuel, rfl⟩ := Nat.exists_eq_succ_of_ne_zero (by omega : fuel ≠ 0)
      have hnext : next x = none := h.1
      simp [visited, hnext]
  | cons y l ih =>
      intro fuel hf
      obtain ⟨fuel, rfl⟩ := Nat.exists_eq_succ_of_ne_zero (by omega : fuel ≠ 0)
      have hnext : next x = some y := h.1
      rw [List.length_cons] at hf
      simp [visited, hnext, ih h.2 (by omega : l.length < fuel)]

/-- An orbit embedded in a larger system and continued there is an orbit. -/
lemma Orbit.map_append {τ : Type*} {f : σ → Option σ} {g : τ → Option τ} {emb : σ → τ}
    {rest : List τ} (hsome : ∀ x y, f x = some y → g (emb x) = some (emb y))
    (hnone : ∀ x, f x = none → g (emb x) = rest.head?) (hrest : Orbit g rest) {l : List σ}
    (hl : Orbit f l) : Orbit g (l.map emb ++ rest) := by
  induction l with
  | nil => exact hrest
  | cons x l ih =>
      refine ⟨?_, ih hl.2⟩
      cases l with
      | nil => exact hnone x hl.1
      | cons y l => exact hsome x y hl.1

/-! ## Vectors of positions -/

/-- Inner loop: going down from position `inc - 1`, advance and stop at the first position that has
not reached its end.  The result `0` is the index `-1`: every position was at its last element. -/
def incLoop (ends : List ℕ) : ℕ → List ℕ → ℕ × List ℕ
  | 0, run => (0, run)
  | inc + 1, run =>
      let run := run.set inc (run.getD inc 0 + 1)
      if run.getD inc 0 ≠ ends.getD inc 0 then (inc + 1, run) else incLoop ends inc run

/-- One round of the outer loop: advance, then reset every position after the one that stopped. -/
def next (ends run : List ℕ) : Option (List ℕ) :=
  let r := incLoop ends ends.length run
  if r.1 = 0 then none else some (r.2.take r.1 ++ List.replicate (ends.length - r.1) 0)

/-- All vectors of positions below `ends`, in lexicographic order. -/
def tuples : List ℕ → List (List ℕ)
  | [] => [[]]
  | e :: ends => (List.range e).flatMap (fun i => (tuples ends).map (fun run => i :: run))

/-- All combinations of one element from each list, in lexicographic order. -/
def product : List (List α) → List (List α)
  | [] => [[]]
  | l :: ls => l.flatMap (fun x => (product ls).map (fun xs => x :: xs))

/-- The elements at a vector of positions. -/
def pick (ls : List (List α)) (run : List ℕ) : List α :=
  (ls.zip run).filterMap (fun q => q.1[q.2]?)

-- The first position is only touched when all others are exhausted.
private lemma incLoop_cons (e : ℕ) (ends : List ℕ) (i : ℕ) (inc : ℕ) (run : List ℕ) :
    incLoop (e :: ends) (inc + 1) (i :: run) =
      if (incLoop ends inc run).1 = 0 then
        (if i + 1 ≠ e then 1 else 0, (i + 1) :: (incLoop ends inc run).2)
      else ((incLoop ends inc run).1 + 1, i :: (incLoop ends inc run).2) := by
  induction inc generalizing run with
  | zero =>
      simp only [incLoop, List.set_cons_zero, List.getD_cons_zero, if_true]
      split <;> rfl
  | succ inc ih =>
      rw [incLoop]
      conv_rhs => rw [incLoop]
      simp only [List.set_cons_succ, List.getD_cons_succ]
      by_cases h : (run.set inc (run.getD inc 0 + 1)).getD inc 0 ≠ ends.getD inc 0
      · rw [if_pos h, if_pos h]
        simp
      · rw [if_neg h, if_neg h, ih]

lemma next_cons (e : ℕ) (ends : List ℕ) (i : ℕ) (run : List ℕ) :
    next (e :: ends) (i :: run) =
      match next ends run with
      | some run' => some (i :: run')
      | none => if i + 1 = e then none else some ((i + 1) :: List.replicate ends.length 0) := by
  rw [next, List.length_cons, incLoop_cons]
  by_cases h0 : (incLoop ends ends.length run).1 = 0
  · have hnone : next ends run = none := by rw [next]; exact if_pos h0
    rw [hnone, if_pos h0]
    by_cases he : i + 1 = e
    · simp [he]
    · simp [he]
  · have hsome : next ends run = some ((incLoop ends ends.length run).2.take
        (incLoop ends ends.length run).1 ++
          List.replicate (ends.length - (incLoop ends ends.length run).1) 0) := by
      rw [next]; exact if_neg h0
    rw [hsome, if_neg h0]
    simp

lemma tuples_head {ends : List ℕ} (h : ∀ e ∈ ends, 0 < e) :
    (tuples ends).head? = some (List.replicate ends.length 0) := by
  induction ends with
  | nil => rfl
  | cons e ends ih =>
      have hpos : 0 < e := h e (by simp)
      obtain ⟨e, rfl⟩ := Nat.exists_eq_succ_of_ne_zero (by omega : e ≠ 0)
      have ih := ih (fun x hx => h x (by simp [hx]))
      rw [tuples, List.range_succ_eq_map, List.flatMap_cons, List.head?_append, List.head?_map, ih]
      rfl

/-- The positions with first component `i, i + 1, …`. -/
private def rows (P : List (List ℕ)) (i n : ℕ) : List (List ℕ) :=
  (List.range' i n).flatMap (fun d => P.map (fun run => d :: run))

private lemma rows_head {P : List (List ℕ)} {z : List ℕ} (hz : P.head? = some z) (i n : ℕ) :
    (rows P i n).head? = if n = 0 then none else some (i :: z) := by
  cases n with
  | zero => rfl
  | succ n =>
      rw [rows, List.range'_succ, List.flatMap_cons, List.head?_append, List.head?_map, hz]
      rfl

private lemma orbit_rows {e : ℕ} {ends : List ℕ} {P : List (List ℕ)}
    (hP : Orbit (next ends) P) (hz : P.head? = some (List.replicate ends.length 0)) (i n : ℕ)
    (h : i + n = e) : Orbit (next (e :: ends)) (rows P i n) := by
  induction n generalizing i with
  | zero => trivial
  | succ n ih =>
      have hrow : rows P i (n + 1) = P.map (fun run => i :: run) ++ rows P (i + 1) n := by
        rw [rows, List.range'_succ, List.flatMap_cons]
        rfl
      rw [hrow]
      refine Orbit.map_append (f := next ends) ?_ ?_ (ih (i + 1) (by omega)) hP
      · intro x y hxy
        rw [next_cons, hxy]
      · intro x hx
        rw [next_cons, hx, rows_head hz]
        have hlast : i + 1 = e ↔ n = 0 := by omega
        simp only [hlast]

lemma orbit_tuples {ends : List ℕ} (h : ∀ e ∈ ends, 0 < e) : Orbit (next ends) (tuples ends) := by
  induction ends with
  | nil => exact ⟨rfl, trivial⟩
  | cons e ends ih =>
      have htail : ∀ x ∈ ends, 0 < x := fun x hx => h x (by simp [hx])
      have hrows := orbit_rows (ih htail) (tuples_head htail) 0 e (Nat.zero_add e)
      rwa [rows, ← List.range_eq_range'] at hrows

/-- The loop sees every vector of positions once, in lexicographic order. -/
theorem visited_next {ends : List ℕ} (h : ∀ e ∈ ends, 0 < e) {fuel : ℕ}
    (hf : (tuples ends).length ≤ fuel) :
    visited (next ends) fuel (List.replicate ends.length 0) = tuples ends := by
  have horbit := orbit_tuples h
  have hhead := tuples_head h
  cases htuples : tuples ends with
  | nil => simp [htuples] at hhead
  | cons run l =>
      rw [htuples, List.head?_cons, Option.some.injEq] at hhead
      rw [htuples] at horbit hf
      rw [List.length_cons] at hf
      rw [← hhead]
      exact horbit.visited_eq (by omega)

lemma length_tuples (ends : List ℕ) : (tuples ends).length = ends.prod := by
  induction ends with
  | nil => rfl
  | cons e ends ih =>
      simp [tuples, List.length_flatMap, ih]

/-- The elements at all positions are all combinations. -/
lemma map_pick_tuples (ls : List (List α)) :
    (tuples (ls.map List.length)).map (pick ls) = product ls := by
  induction ls with
  | nil => rfl
  | cons l ls ih =>
      have hrow : ∀ i : Fin l.length,
          ((tuples (ls.map List.length)).map (fun run => i.1 :: run)).map (pick (l :: ls)) =
            (product ls).map (fun xs => l.get i :: xs) := by
        intro i
        rw [← ih, List.map_map, List.map_map]
        refine List.map_congr_left (fun run _ => ?_)
        simp [pick]
      rw [List.map_cons, tuples, product, List.map_flatMap]
      conv_rhs => rw [← List.map_get_finRange l]
      rw [List.flatMap_map, ← List.map_coe_finRange_eq_range, List.flatMap_map]
      congr 1
      funext i
      exact hrow i

lemma product_eq_nil_of_mem {ls : List (List α)} (h : [] ∈ ls) : product ls = [] := by
  induction ls with
  | nil => cases h
  | cons l ls ih =>
      rcases List.mem_cons.mp h with rfl | h
      · rfl
      · simp [product, ih h]

/-- A combination of lists indexed by distinct keys is a choice of one element for each key. -/
lemma mem_product_map {ι : Type*} [DecidableEq ι] [Inhabited α] {ds : List ι} (hds : ds.Nodup)
    {f : ι → List α} {xs : List α} :
    xs ∈ product (ds.map f) ↔ ∃ g : ι → α, xs = ds.map g ∧ ∀ d ∈ ds, g d ∈ f d := by
  induction ds generalizing xs with
  | nil => simp [product]
  | cons d ds ih =>
      obtain ⟨hd, hds⟩ := List.nodup_cons.mp hds
      simp only [List.map_cons, product, List.mem_flatMap, List.mem_map]
      constructor
      · rintro ⟨x, hx, ys, hys, rfl⟩
        obtain ⟨g, rfl, hg⟩ := (ih hds).mp hys
        have hne : ∀ e ∈ ds, e ≠ d := fun e he heq => hd (heq ▸ he)
        refine ⟨Function.update g d x, ?_, fun e he => ?_⟩
        · rw [Function.update_self]
          congr 1
          exact List.map_congr_left (fun e he => (Function.update_of_ne (hne e he) x g).symm)
        · rcases List.mem_cons.mp he with rfl | he
          · rw [Function.update_self]
            exact hx
          · rw [Function.update_of_ne (hne e he)]
            exact hg e he
      · rintro ⟨g, rfl, hg⟩
        exact ⟨g d, hg d (by simp), ds.map g,
          (ih hds).mpr ⟨g, rfl, fun e he => hg e (by simp [he])⟩, rfl⟩

end Odometer
