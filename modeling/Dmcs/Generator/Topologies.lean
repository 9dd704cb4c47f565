import Dmcs.Generator.ContextGenerator
import Dmcs.Generator.OptTopologies
import Mathlib.Data.List.Nodup

/-!
# Generated topologies (`TopologyGenerator`, `read_input`)

`read_input` accepts a number of contexts for a type of topology, and the generator of this type
then lists the neighbors of every context.  The lists come from closed formulas in the number of a
context; a ring with additional edges and a diamond with arbitrary edges draw random numbers.

`wellFormed_iff` says which of the other topologies have neighbors that are other contexts of the
system, without repetition, and reach every context from the first.

## The argument

A topology is judged list by list.  `WellFormedList` is what the list of one context has to satisfy,
the last part of it being that some smaller context lists this one; then all contexts are reached
from the first, by induction on their numbers (`wellFormedTopology_of_lists`).  For the closed
formulas this is arithmetic, with a case for each remainder that the formula distinguishes.

A ring with additional edges lists the next context and the one that was drawn.  `NeverItself`
follows the draws in their order: the loop throws away a number that gives the next context, and
takes the first other one, which may be the context itself.
-/

namespace Dmcs

open ContextGenerator (Random rand)

/-! ## The generators -/

namespace Diamond

def genNeighborList (system_size id : ℕ) : List (ℕ × ℕ) :=
  if id = system_size then []
  else if id % 3 = 1 then [genNeighbor id (id + 1), genNeighbor id (id + 2)]
  else if id % 3 = 0 then [genNeighbor id (id + 1)]
  else [genNeighbor id (id + 2)]

end Diamond

namespace DiamondArbitrary

def genRandomEdge (src dst : ℕ) : Random (List (ℕ × ℕ)) := do
  if (← rand) % 2 ≠ 0 then pure [genNeighbor src dst] else pure [genNeighbor dst src]

def genNeighborList (system_size id : ℕ) : Random (List (ℕ × ℕ)) :=
  if id = system_size then pure []
  else if id % 3 = 1 then do
    let first ← genRandomEdge id (id + 1)
    let second ← genRandomEdge id (id + 2)
    pure (first ++ second)
  else if id % 3 = 0 then genRandomEdge id (id + 1)
  else genRandomEdge id (id + 2)

end DiamondArbitrary

namespace BinaryTree

def genNeighborList (system_size id : ℕ) : List (ℕ × ℕ) :=
  let child_id := 2 * id
  if child_id ≤ system_size then
    genNeighbor id child_id ::
      if child_id + 1 ≤ system_size then [genNeighbor id (child_id + 1)] else []
  else []

end BinaryTree

namespace RingEdge

def next (system_size id : ℕ) : ℕ := if id = system_size then 1 else id + 1

/-- The loop that draws the end of an additional edge. -/
def drawOther (system_size next : ℕ) : Random ℕ
  | [] => none
  | d :: draws =>
      let other := d % system_size + 1
      if other = next then drawOther system_size next draws else some (other, draws)

def genNeighborList (system_size id : ℕ) : Random (List (ℕ × ℕ)) := do
  let first := genNeighbor id (next system_size id)
  if (← rand) % 2 ≠ 0 then
    let other ← drawOther system_size (next system_size id)
    pure [first, genNeighbor id other]
  else pure [first]

end RingEdge

/-- The types `new_staticGen` offers. -/
inductive TopologyType where
  | diamondDown
  | diamondArbitrary
  | diamondZigzag
  | pureRing
  | ringEdge
  | binaryTree
  | house
  | multipleRing
  deriving DecidableEq, Repr

namespace TopologyType

/-- The tests of `read_input` on the number of contexts. -/
def Accepts : TopologyType → ℕ → Prop
  | diamondDown, no_contexts => no_contexts ≠ 0 ∧ ¬ (no_contexts = 1 ∨ no_contexts % 3 ≠ 1)
  | diamondArbitrary, no_contexts => no_contexts ≠ 0 ∧ ¬ (no_contexts = 1 ∨ no_contexts % 3 ≠ 1)
  | diamondZigzag, no_contexts => no_contexts ≠ 0 ∧ ¬ (no_contexts = 1 ∨ no_contexts % 3 ≠ 1)
  | pureRing, no_contexts => no_contexts ≠ 0 ∧ ¬ no_contexts = 1
  | ringEdge, no_contexts => no_contexts ≠ 0 ∧ ¬ no_contexts = 1
  | binaryTree, no_contexts => no_contexts ≠ 0 ∧ ¬ no_contexts = 1
  | house, no_contexts => no_contexts ≠ 0 ∧ ¬ (no_contexts = 1 ∨ no_contexts % 4 ≠ 1)
  | multipleRing, no_contexts => no_contexts ≠ 0 ∧ ¬ (no_contexts < 6 ∧ no_contexts % 3 ≠ 0)

/-- The generator of a type. -/
def genNeighborList : TopologyType → ℕ → ℕ → Random (List (ℕ × ℕ))
  | diamondDown, system_size, id => pure (Diamond.genNeighborList system_size id)
  | diamondArbitrary, system_size, id => DiamondArbitrary.genNeighborList system_size id
  | diamondZigzag, system_size, id => pure (DiamondZigZag.genNeighborList system_size id)
  | pureRing, system_size, id => pure (Ring.genNeighborList system_size id)
  | ringEdge, system_size, id => RingEdge.genNeighborList system_size id
  | binaryTree, system_size, id => pure (BinaryTree.genNeighborList system_size id)
  | house, system_size, id => pure (House.genNeighborList system_size id)
  | multipleRing, system_size, id => pure (MultipleRing.genNeighborList system_size id)

/-- `generate`, for the contexts that are left. -/
def generateLoop (t : TopologyType) (system_size : ℕ) : List ℕ → Random (List (ℕ × ℕ))
  | [] => pure []
  | id :: ids => do
      let edges ← t.genNeighborList system_size id
      let rest ← generateLoop t system_size ids
      pure (edges ++ rest)

def generate (t : TopologyType) (system_size : ℕ) : Random (List (ℕ × ℕ)) :=
  t.generateLoop system_size (List.range' 1 system_size)

end TopologyType

/-! ## Well-formed topologies -/

/-- The list of a context. -/
def neighborsOf (edges : List (ℕ × ℕ)) (a : ℕ) : List ℕ :=
  (edges.filter (fun e => e.1 = a)).map Prod.snd

/-- The neighbors of a context of a system of `n` contexts. -/
structure WellFormedTopology (n : ℕ) (edges : List (ℕ × ℕ)) : Prop where
  inside : ∀ a < n, ∀ b ∈ neighborsOf edges a, b < n
  nodup : ∀ a < n, (neighborsOf edges a).Nodup
  irrefl : ∀ a < n, a ∉ neighborsOf edges a
  reachable : ∀ c < n, Relation.ReflTransGen (fun a b => a < n ∧ b ∈ neighborsOf edges a) 0 c

/-- What the list of one context has to satisfy. -/
def WellFormedList (n id : ℕ) (edges : List (ℕ × ℕ)) : Prop :=
  edges.Nodup ∧ ∀ e ∈ edges, e.1 = id - 1 ∧ e.2 < n ∧ e.2 ≠ id - 1

section WellFormed

variable {n id : ℕ} {edges : List (ℕ × ℕ)}

lemma wellFormedList_nil : WellFormedList n id [] :=
  ⟨List.nodup_nil, fun _ h => absurd h List.not_mem_nil⟩

lemma wellFormedList_cons {b : ℕ} :
    WellFormedList n id (genNeighbor id b :: edges) ↔
      (b - 1 < n ∧ b - 1 ≠ id - 1 ∧ genNeighbor id b ∉ edges) ∧ WellFormedList n id edges := by
  unfold WellFormedList
  rw [List.nodup_cons, List.forall_mem_cons]
  constructor
  · rintro ⟨⟨hnew, hnodup⟩, ⟨-, hlt, hne⟩, hall⟩
    exact ⟨⟨hlt, hne, hnew⟩, hnodup, hall⟩
  · rintro ⟨⟨hlt, hne, hnew⟩, hnodup, hall⟩
    exact ⟨⟨hnew, hnodup⟩, ⟨rfl, hlt, hne⟩, hall⟩

lemma wellFormedList_singleton {b : ℕ} :
    WellFormedList n id [genNeighbor id b] ↔ b - 1 < n ∧ b - 1 ≠ id - 1 := by
  rw [wellFormedList_cons, and_iff_left wellFormedList_nil]
  exact and_congr_right (fun _ => and_iff_left List.not_mem_nil)

lemma wellFormedList_pair {b c : ℕ} :
    WellFormedList n id [genNeighbor id b, genNeighbor id c] ↔
      (b - 1 < n ∧ b - 1 ≠ id - 1 ∧ b - 1 ≠ c - 1) ∧ c - 1 < n ∧ c - 1 ≠ id - 1 := by
  rw [wellFormedList_cons, wellFormedList_singleton, List.mem_singleton]
  unfold genNeighbor
  rw [Prod.mk.injEq, eq_self_iff_true, true_and]

lemma wellFormedList_triple {b c d : ℕ} :
    WellFormedList n id (genNeighbor id b :: [genNeighbor id c, genNeighbor id d]) ↔
      (b - 1 < n ∧ b - 1 ≠ id - 1 ∧ ¬ (b - 1 = c - 1 ∨ b - 1 = d - 1)) ∧
        (c - 1 < n ∧ c - 1 ≠ id - 1 ∧ c - 1 ≠ d - 1) ∧ d - 1 < n ∧ d - 1 ≠ id - 1 := by
  rw [wellFormedList_cons, wellFormedList_pair, List.mem_cons, List.mem_singleton]
  unfold genNeighbor
  rw [Prod.mk.injEq, Prod.mk.injEq, eq_self_iff_true, true_and, true_and]

/-- What a context lists is what was generated for it. -/
lemma neighborsOf_generate {gen : ℕ → List (ℕ × ℕ)}
    (hgen : ∀ id, 1 ≤ id → id ≤ n → ∀ e ∈ gen id, e.1 = id - 1) {a : ℕ} (ha : a < n) :
    neighborsOf (generate gen n) a = (gen (a + 1)).map Prod.snd := by
  have hsplit : List.range' 1 n =
      List.range' 1 a ++ (a + 1) :: List.range' (a + 2) (n - a - 1) := by
    rw [show n = a + (n - a - 1 + 1) by omega, ← List.range'_append_1, List.range'_succ,
      show a + (n - a - 1 + 1) - a - 1 = n - a - 1 by omega, Nat.add_comm 1 a]
  have hother : ∀ ids : List ℕ, (∀ id ∈ ids, 1 ≤ id ∧ id ≤ n ∧ id ≠ a + 1) →
      (ids.flatMap gen).filter (fun e => e.1 = a) = [] := by
    intro ids hids
    rw [List.filter_eq_nil_iff]
    intro e he
    obtain ⟨id, hid, he⟩ := List.mem_flatMap.1 he
    obtain ⟨hpos, hle, hne⟩ := hids id hid
    have hsource := hgen id hpos hle e he
    simp only [decide_eq_true_eq]
    omega
  have hown : (gen (a + 1)).filter (fun e => e.1 = a) = gen (a + 1) := by
    rw [List.filter_eq_self]
    intro e he
    have hsource := hgen (a + 1) (by omega) ha e he
    exact decide_eq_true hsource
  unfold neighborsOf generate
  rw [hsplit, List.flatMap_append, List.flatMap_cons, List.filter_append, List.filter_append,
    hown, hother, hother, List.nil_append, List.append_nil]
  · intro id hid
    rw [List.mem_range'_1] at hid
    omega
  · intro id hid
    rw [List.mem_range'_1] at hid
    omega

lemma source_of_lists {gen : ℕ → List (ℕ × ℕ)}
    (hgen : ∀ id, 1 ≤ id → id ≤ n → WellFormedList n id (gen id)) :
    ∀ id, 1 ≤ id → id ≤ n → ∀ e ∈ gen id, e.1 = id - 1 :=
  fun id hpos hle e he => ((hgen id hpos hle).2 e he).1

/-- A topology is well formed when every list is and every context has a smaller one that lists
it. -/
lemma wellFormedTopology_of_lists {gen : ℕ → List (ℕ × ℕ)}
    (hgen : ∀ id, 1 ≤ id → id ≤ n → WellFormedList n id (gen id))
    (hparent : ∀ c, 0 < c → c < n → ∃ a, a < c ∧ (a, c) ∈ gen (a + 1)) :
    WellFormedTopology n (generate gen n) where
  inside a ha b hb := by
    rw [neighborsOf_generate (source_of_lists hgen) ha] at hb
    obtain ⟨e, he, rfl⟩ := List.mem_map.1 hb
    exact ((hgen (a + 1) (by omega) ha).2 e he).2.1
  nodup a ha := by
    rw [neighborsOf_generate (source_of_lists hgen) ha]
    obtain ⟨hnodup, hall⟩ := hgen (a + 1) (by omega) ha
    apply hnodup.map_on
    intro e he e' he' heq
    exact Prod.ext ((hall e he).1.trans (hall e' he').1.symm) heq
  irrefl a ha hself := by
    rw [neighborsOf_generate (source_of_lists hgen) ha] at hself
    obtain ⟨e, he, heq⟩ := List.mem_map.1 hself
    exact ((hgen (a + 1) (by omega) ha).2 e he).2.2 heq
  reachable := by
    apply reachable_of_parent
    intro c hpos hc
    obtain ⟨a, ha, hedge⟩ := hparent c hpos hc
    refine ⟨a, ha, ha.trans hc, ?_⟩
    rw [neighborsOf_generate (source_of_lists hgen) (ha.trans hc)]
    exact List.mem_map_of_mem hedge

end WellFormed

/-! ## The closed formulas -/

section Formulas

variable {n id : ℕ}

/-- An edge in a list of one or two. -/
lemma mem_single {a b c : ℕ} : (a, b) ∈ [genNeighbor id c] ↔ a = id - 1 ∧ b = c - 1 := by
  unfold genNeighbor
  rw [List.mem_singleton, Prod.mk.injEq]

lemma mem_pair {a b c d : ℕ} : (a, b) ∈ [genNeighbor id c, genNeighbor id d] ↔
    a = id - 1 ∧ (b = c - 1 ∨ b = d - 1) := by
  rw [List.mem_cons, mem_single]
  unfold genNeighbor
  rw [Prod.mk.injEq, and_or_left]

lemma Diamond.wellFormedList (hn : n % 3 = 1) (hpos : 1 ≤ id) (hle : id ≤ n) :
    WellFormedList n id (genNeighborList n id) := by
  unfold genNeighborList
  split_ifs with hlast hone hzero
  · exact wellFormedList_nil
  · rw [wellFormedList_pair]
    omega
  · rw [wellFormedList_singleton]
    omega
  · rw [wellFormedList_singleton]
    omega

lemma Diamond.wellFormed (hn : n % 3 = 1) :
    WellFormedTopology n (generate (genNeighborList n) n) := by
  apply wellFormedTopology_of_lists (fun _ => Diamond.wellFormedList hn)
  intro c hpos hc
  unfold genNeighborList
  by_cases hone : c % 3 = 1
  · refine ⟨c - 1, by omega, ?_⟩
    rw [if_neg (by omega), if_pos (by omega), mem_pair]
    omega
  · by_cases htwo : c % 3 = 2
    · refine ⟨c - 2, by omega, ?_⟩
      rw [if_neg (by omega), if_pos (by omega), mem_pair]
      omega
    · refine ⟨c - 1, by omega, ?_⟩
      rw [if_neg (by omega), if_neg (by omega), if_pos (by omega), mem_single]
      omega

lemma DiamondZigZag.wellFormedList (hn : n % 3 = 1) (hpos : 1 ≤ id) (hle : id ≤ n) :
    WellFormedList n id (genNeighborList n id) := by
  unfold genNeighborList
  split_ifs with hlast htwo
  · exact wellFormedList_nil
  · rw [wellFormedList_pair]
    omega
  · rw [wellFormedList_singleton]
    omega

lemma DiamondZigZag.wellFormed (hn : n % 3 = 1) :
    WellFormedTopology n (generate (genNeighborList n) n) := by
  apply wellFormedTopology_of_lists (fun _ => DiamondZigZag.wellFormedList hn)
  intro c hpos hc
  refine ⟨c - 1, by omega, ?_⟩
  unfold genNeighborList
  rw [if_neg (by omega)]
  split_ifs with htwo
  · rw [mem_pair]
    omega
  · rw [mem_single]
    omega

lemma Ring.wellFormedList (hn : 2 ≤ n) (hpos : 1 ≤ id) (hle : id ≤ n) :
    WellFormedList n id (genNeighborList n id) := by
  unfold genNeighborList
  split_ifs with hlast
  · rw [wellFormedList_singleton]
    omega
  · rw [wellFormedList_singleton]
    omega

lemma Ring.wellFormed (hn : 2 ≤ n) : WellFormedTopology n (generate (genNeighborList n) n) := by
  apply wellFormedTopology_of_lists (fun _ => Ring.wellFormedList hn)
  intro c hpos hc
  refine ⟨c - 1, by omega, ?_⟩
  unfold genNeighborList
  rw [if_neg (by omega), mem_single]
  omega

lemma BinaryTree.wellFormedList (hpos : 1 ≤ id) :
    WellFormedList n id (genNeighborList n id) := by
  unfold genNeighborList
  simp only
  split_ifs with hleft hright
  · rw [wellFormedList_pair]
    omega
  · rw [wellFormedList_singleton]
    omega
  · exact wellFormedList_nil

lemma BinaryTree.wellFormed : WellFormedTopology n (generate (genNeighborList n) n) := by
  apply wellFormedTopology_of_lists (fun _ hpos _ => BinaryTree.wellFormedList hpos)
  intro c hpos hc
  refine ⟨(c + 1) / 2 - 1, by omega, ?_⟩
  unfold genNeighborList
  simp only
  rw [if_pos (by omega)]
  split_ifs with hright
  · rw [mem_pair]
    omega
  · rw [mem_single]
    omega

lemma House.wellFormedList (hn : n % 4 = 1) (hone : n ≠ 1) (hpos : 1 ≤ id) (hle : id ≤ n) :
    WellFormedList n id (genNeighborList n id) := by
  obtain ⟨m, rfl⟩ : ∃ m, n = 4 * m + 1 := ⟨n / 4, by omega⟩
  unfold genNeighborList
  simp only
  split_ifs with hfirst hwall hroof hchild hchild
  · rw [wellFormedList_pair]
    omega
  · rw [wellFormedList_singleton]
    omega
  · rw [wellFormedList_triple]
    omega
  · rw [wellFormedList_singleton]
    omega
  · rw [wellFormedList_triple]
    omega
  · rw [wellFormedList_singleton]
    omega

/-- The parts of a house hang from an earlier one or follow each other. -/
lemma House.wellFormed (hn : n % 4 = 1) (hone : n ≠ 1) :
    WellFormedTopology n (generate (genNeighborList n) n) := by
  apply wellFormedTopology_of_lists (fun _ => House.wellFormedList hn hone)
  obtain ⟨m, rfl⟩ : ∃ m, n = 4 * m + 1 := ⟨n / 4, by omega⟩
  intro c hpos hc
  obtain ⟨g, hg, hcase⟩ :
      ∃ g < m, c = 4 * g + 1 ∨ c = 4 * g + 2 ∨ c = 4 * g + 3 ∨ c = 4 * g + 4 :=
    ⟨(c - 1) / 4, by omega, by omega⟩
  rcases hcase with rfl | rfl | rfl | rfl
  · exact ⟨parent g, parent_lt g, hangs_subset hg (mem_hangs.2 (Or.inl rfl))⟩
  · exact ⟨parent g, (parent_lt g).trans (by omega), hangs_subset hg (mem_hangs.2 (Or.inr rfl))⟩
  · refine ⟨4 * g + 2, by omega, ?_⟩
    rw [genNeighborList_three]
    exact List.mem_singleton_self _
  · refine ⟨4 * g + 3, by omega, ?_⟩
    rw [genNeighborList_four]
    exact List.mem_cons_self

/-- The ears of a multiple ring; the size of an ear is rounded, which does no harm. -/
lemma MultipleRing.wellFormedList (hn : 6 ≤ n) (hpos : 1 ≤ id) (hle : id ≤ n) :
    WellFormedList n id (genNeighborList n id) := by
  obtain ⟨q, hq⟩ : ∃ q, (n + 3) / 3 = q := ⟨_, rfl⟩
  unfold genNeighborList
  simp only [hq]
  split_ifs with hsecond hjump hlast hend
  · rw [wellFormedList_pair]
    omega
  · rw [wellFormedList_pair]
    omega
  · rw [wellFormedList_singleton]
    omega
  · rw [wellFormedList_singleton]
    omega
  · rw [wellFormedList_singleton]
    omega

lemma MultipleRing.wellFormed (hn : 6 ≤ n) :
    WellFormedTopology n (generate (genNeighborList n) n) := by
  apply wellFormedTopology_of_lists (fun _ => MultipleRing.wellFormedList hn)
  obtain ⟨q, hq⟩ : ∃ q, (n + 3) / 3 = q := ⟨_, rfl⟩
  intro c hpos hc
  unfold genNeighborList
  simp only [hq]
  by_cases hear : c = q + 1
  · refine ⟨1, by omega, ?_⟩
    rw [if_pos rfl, mem_pair]
    omega
  · by_cases hthird : c = 2 * q - 1
    · refine ⟨q, by omega, ?_⟩
      rw [if_neg (by omega), if_pos rfl, mem_pair]
      omega
    · refine ⟨c - 1, by omega, ?_⟩
      split_ifs with hsecond hjump hlast hend
      · rw [mem_pair]
        omega
      · omega
      · omega
      · omega
      · rw [mem_single]
        omega

end Formulas

/-! ## The ring with additional edges -/

namespace RingEdge

/-- In the order of the draws, no context draws itself: after a number that asks for an additional
edge, the first number that does not give the next context does not give the context itself. -/
def NeverItself (system_size : ℕ) : List ℕ → List ℕ → Prop
  | [], _ => True
  | _ :: _, [] => True
  | id :: ids, d :: draws =>
      if d % 2 ≠ 0 then
        match draws.dropWhile (fun d => d % system_size + 1 = next system_size id) with
        | [] => True
        | other :: draws => other % system_size + 1 ≠ id ∧ NeverItself system_size ids draws
      else NeverItself system_size ids draws

/-- The list of a context, with the end of an additional edge if there is one. -/
def edgesWith (system_size : ℕ) (other : ℕ → Option ℕ) (id : ℕ) : List (ℕ × ℕ) :=
  genNeighbor id (next system_size id) :: (other id).toList.map (genNeighbor id)

variable {n id : ℕ} {ids draws rest : List ℕ}

lemma neverItself_cons {d : ℕ} : NeverItself n (id :: ids) (d :: draws) =
    if d % 2 ≠ 0 then
      match draws.dropWhile (fun d => d % n + 1 = next n id) with
      | [] => True
      | other :: draws => other % n + 1 ≠ id ∧ NeverItself n ids draws
    else NeverItself n ids draws := rfl

/-- The loop takes the first number that does not give the next context. -/
lemma drawOther_eq_some {next x : ℕ} (h : drawOther n next draws = some (x, rest)) :
    ∃ d, draws.dropWhile (fun d => d % n + 1 = next) = d :: rest ∧ x = d % n + 1 ∧ x ≠ next := by
  induction draws with
  | nil => exact absurd h.symm (Option.some_ne_none _)
  | cons d draws ih =>
      unfold drawOther at h
      simp only at h
      split at h
      · rename_i hnext
        rw [List.dropWhile_cons_of_pos (by simpa using hnext)]
        exact ih h
      · rename_i hnext
        obtain ⟨rfl, rfl⟩ := Prod.mk.inj (Option.some.inj h)
        rw [List.dropWhile_cons_of_neg (by simpa using hnext)]
        exact ⟨d, rfl, rfl, hnext⟩

/-- What a context draws. -/
lemma genNeighborList_run (hn : 0 < n) {edges : List (ℕ × ℕ)}
    (h : genNeighborList n id draws = some (edges, rest)) :
    ∃ other : Option ℕ,
      edges = genNeighbor id (next n id) :: other.toList.map (genNeighbor id) ∧
      (∀ x ∈ other, 1 ≤ x ∧ x ≤ n ∧ x ≠ next n id) ∧
      (NeverItself n (id :: ids) draws ↔ other ≠ some id ∧ NeverItself n ids rest) := by
  cases draws with
  | nil => exact absurd h.symm (Option.some_ne_none _)
  | cons d draws =>
      change (if d % 2 ≠ 0 then (do
          let other ← drawOther n (next n id)
          pure [genNeighbor id (next n id), genNeighbor id other])
        else pure [genNeighbor id (next n id)] : Random _) draws = some (edges, rest) at h
      rw [neverItself_cons]
      by_cases hodd : d % 2 ≠ 0
      · rw [if_pos hodd] at h ⊢
        obtain ⟨⟨x, draws'⟩, hother, h⟩ := Option.bind_eq_some_iff.1 h
        obtain ⟨rfl, rfl⟩ := Prod.mk.inj (Option.some.inj h)
        obtain ⟨other, hdrop, rfl, hne⟩ := drawOther_eq_some hother
        refine ⟨some (other % n + 1), rfl, fun x hx => ?_, ?_⟩
        · rw [← Option.mem_some_iff.1 hx]
          exact ⟨Nat.succ_pos _, Nat.mod_lt other hn, hne⟩
        · rw [hdrop]
          exact and_congr_left (fun _ => not_congr Option.some_inj.symm)
      · rw [if_neg hodd] at h ⊢
        obtain ⟨rfl, rfl⟩ := Prod.mk.inj (Option.some.inj h)
        refine ⟨none, rfl, fun x hx => absurd hx (Option.not_mem_none x), ?_⟩
        exact (and_iff_right (Option.some_ne_none id).symm).symm

lemma generateLoop_run (hn : 0 < n) (hids : ids.Nodup) {edges : List (ℕ × ℕ)}
    (h : TopologyType.ringEdge.generateLoop n ids draws = some (edges, rest)) :
    ∃ other : ℕ → Option ℕ, edges = ids.flatMap (edgesWith n other) ∧
      (∀ id ∈ ids, ∀ x ∈ other id, 1 ≤ x ∧ x ≤ n ∧ x ≠ next n id) ∧
      (NeverItself n ids draws ↔ ∀ id ∈ ids, other id ≠ some id) := by
  induction ids generalizing draws edges with
  | nil =>
      obtain ⟨rfl, rfl⟩ := Prod.mk.inj (Option.some.inj h)
      refine ⟨fun _ => none, rfl, fun id hid => absurd hid List.not_mem_nil, ?_⟩
      unfold NeverItself
      exact iff_of_true trivial (fun id hid => absurd hid List.not_mem_nil)
  | cons id ids ih =>
      obtain ⟨hid, hnodup⟩ := List.nodup_cons.1 hids
      obtain ⟨⟨own, draws'⟩, hown, h⟩ := Option.bind_eq_some_iff.1 h
      obtain ⟨⟨others, rest'⟩, hothers, h⟩ := Option.bind_eq_some_iff.1 h
      obtain ⟨rfl, rfl⟩ := Prod.mk.inj (Option.some.inj h)
      obtain ⟨x, rfl, hx, hnever⟩ := genNeighborList_run hn hown
      obtain ⟨other, rfl, hother, hrest⟩ := ih hnodup hothers
      have hne : ∀ id' ∈ ids, id' ≠ id := by
        rintro id' hid' rfl
        exact hid hid'
      refine ⟨Function.update other id x, ?_, ?_, ?_⟩
      · rw [List.flatMap_cons]
        congr 1
        · unfold edgesWith
          rw [Function.update_self]
        · apply List.flatMap_congr
          intro id' hid'
          unfold edgesWith
          rw [Function.update_of_ne (hne id' hid')]
      · intro id' hid'
        rcases List.mem_cons.1 hid' with rfl | hid'
        · rw [Function.update_self]
          exact hx
        · rw [Function.update_of_ne (hne id' hid')]
          exact hother id' hid'
      · rw [hnever, hrest, List.forall_mem_cons, Function.update_self]
        apply and_congr_right
        intro _
        apply forall₂_congr
        intro id' hid'
        rw [Function.update_of_ne (hne id' hid')]

lemma mem_neighborsOf {edges : List (ℕ × ℕ)} {a b : ℕ} :
    b ∈ neighborsOf edges a ↔ (a, b) ∈ edges := by
  unfold neighborsOf
  rw [List.mem_map]
  constructor
  · rintro ⟨⟨a', b'⟩, he, rfl⟩
    obtain ⟨hmem, hsource⟩ := List.mem_filter.1 he
    obtain rfl : a' = a := of_decide_eq_true hsource
    exact hmem
  · intro hmem
    exact ⟨(a, b), List.mem_filter.2 ⟨hmem, decide_eq_true rfl⟩, rfl⟩

lemma wellFormed_iff_ne {other : ℕ → Option ℕ} (hn : 2 ≤ n)
    (hother : ∀ id ∈ List.range' 1 n, ∀ x ∈ other id, 1 ≤ x ∧ x ≤ n ∧ x ≠ next n id) :
    WellFormedTopology n (generate (edgesWith n other) n) ↔
      ∀ id ∈ List.range' 1 n, other id ≠ some id := by
  constructor
  · intro h id hid hself
    have hrange := List.mem_range'_1.1 hid
    apply h.irrefl (id - 1) (by omega)
    rw [mem_neighborsOf]
    refine List.mem_flatMap.2 ⟨id, hid, ?_⟩
    unfold edgesWith
    rw [hself]
    exact List.mem_cons_of_mem _ (List.mem_singleton_self _)
  · intro hne
    apply wellFormedTopology_of_lists
    · intro id hpos hle
      have hid : id ∈ List.range' 1 n := List.mem_range'_1.2 ⟨hpos, by omega⟩
      have hnext : next n id - 1 < n ∧ next n id - 1 ≠ id - 1 ∧ 1 ≤ next n id := by
        unfold next
        split_ifs with hlast
        · omega
        · omega
      unfold edgesWith
      cases hx : other id with
      | none =>
          apply wellFormedList_singleton.2
          exact ⟨hnext.1, hnext.2.1⟩
      | some x =>
          obtain ⟨hpos', hle', hnew⟩ := hother id hid x hx
          have hself : x ≠ id := by
            rintro rfl
            exact hne x hid hx
          apply wellFormedList_pair.2
          omega
    · intro c hpos hc
      refine ⟨c - 1, by omega, ?_⟩
      unfold edgesWith next genNeighbor
      rw [if_neg (by omega), Nat.sub_add_cancel hpos]
      exact List.mem_cons_self

end RingEdge

/-! ## All topologies -/

namespace TopologyType

/-- Without random draws the edges are those of the closed formula. -/
lemma generateLoop_pure {t : TopologyType} {n : ℕ} {gen : ℕ → List (ℕ × ℕ)}
    (hgen : ∀ id, t.genNeighborList n id = pure (gen id)) (ids draws : List ℕ) :
    t.generateLoop n ids draws = some (ids.flatMap gen, draws) := by
  induction ids with
  | nil => rfl
  | cons id ids ih =>
      show Option.bind (t.genNeighborList n id draws) _ = _
      rw [hgen]
      show Option.bind (t.generateLoop n ids draws) _ = _
      rw [ih]
      rfl

/-- The edges of a generator that draws nothing. -/
lemma edges_eq {t : TopologyType} {n : ℕ} (gen : ℕ → List (ℕ × ℕ))
    (hgen : ∀ id, t.genNeighborList n id = pure (gen id)) {draws rest : List ℕ}
    {edges : List (ℕ × ℕ)} (hrun : t.generate n draws = some (edges, rest)) :
    edges = Dmcs.generate gen n := by
  unfold generate at hrun
  rw [generateLoop_pure hgen] at hrun
  exact (Prod.mk.inj (Option.some.inj hrun)).1.symm

end TopologyType

/-- A topology as the generator of an accepted input builds it.  A diamond with arbitrary edges is
not one of them: where its edges all point at the first context, nothing else is reached. -/
structure GeneratedTopology where
  topology_type : TopologyType
  directed : topology_type ≠ .diamondArbitrary
  no_contexts : ℕ
  accepted : topology_type.Accepts no_contexts
  draws : List ℕ
  rest : List ℕ
  edges : List (ℕ × ℕ)
  run : topology_type.generate no_contexts draws = some (edges, rest)

namespace GeneratedTopology

/-- The draws of a ring with additional edges never hit the context itself, and a multiple ring has
more than three contexts. -/
def Fits (g : GeneratedTopology) : Prop :=
  match g.topology_type with
  | .ringEdge => RingEdge.NeverItself g.no_contexts (List.range' 1 g.no_contexts) g.draws
  | .multipleRing => g.no_contexts ≠ 3
  | _ => True

/-- With three contexts the formulas of a multiple ring leave the system. -/
lemma not_wellFormed_three :
    ¬ WellFormedTopology 3 (generate (MultipleRing.genNeighborList 3) 3) := by
  intro h
  have hlt := h.inside 1 (by decide) 3 (by decide)
  omega

/-- A generated topology is well-formed if and only if `Fits` holds: a multiple ring has more than
three contexts, and a ring with additional edges never draws a context as its own neighbour.  All
other generators are shown to be well-formed one by one, from the formulas for their edges. -/
theorem wellFormed_iff (g : GeneratedTopology) :
    WellFormedTopology g.no_contexts g.edges ↔ g.Fits := by
  obtain ⟨t, hdirected, n, haccepted, draws, rest, edges, hrun⟩ := g
  cases t with
  | diamondDown =>
      obtain rfl := TopologyType.edges_eq (Diamond.genNeighborList n) (fun _ => rfl) hrun
      have hmod : n % 3 = 1 := not_not.1 (not_or.1 haccepted.2).2
      exact iff_of_true (Diamond.wellFormed hmod) trivial
  | diamondArbitrary => exact absurd rfl hdirected
  | diamondZigzag =>
      obtain rfl := TopologyType.edges_eq (DiamondZigZag.genNeighborList n) (fun _ => rfl) hrun
      have hmod : n % 3 = 1 := not_not.1 (not_or.1 haccepted.2).2
      exact iff_of_true (DiamondZigZag.wellFormed hmod) trivial
  | pureRing =>
      obtain rfl := TopologyType.edges_eq (Ring.genNeighborList n) (fun _ => rfl) hrun
      have hn : 2 ≤ n := by
        have := haccepted.1
        have := haccepted.2
        omega
      exact iff_of_true (Ring.wellFormed hn) trivial
  | ringEdge =>
      have hn : 2 ≤ n := by
        have := haccepted.1
        have := haccepted.2
        omega
      obtain ⟨other, rfl, hother, hnever⟩ :=
        RingEdge.generateLoop_run (by omega) List.nodup_range' hrun
      exact (RingEdge.wellFormed_iff_ne hn hother).trans hnever.symm
  | binaryTree =>
      obtain rfl := TopologyType.edges_eq (BinaryTree.genNeighborList n) (fun _ => rfl) hrun
      exact iff_of_true BinaryTree.wellFormed trivial
  | house =>
      obtain rfl := TopologyType.edges_eq (House.genNeighborList n) (fun _ => rfl) hrun
      obtain ⟨hone, hmod⟩ := not_or.1 haccepted.2
      exact iff_of_true (House.wellFormed (not_not.1 hmod) hone) trivial
  | multipleRing =>
      obtain rfl := TopologyType.edges_eq (MultipleRing.genNeighborList n) (fun _ => rfl) hrun
      by_cases hthree : n = 3
      · subst hthree
        exact iff_of_false not_wellFormed_three (fun hne => hne rfl)
      · have hn : 6 ≤ n := by
          obtain ⟨hzero, htest⟩ := haccepted
          omega
        exact iff_of_true (MultipleRing.wellFormed hn) hthree

/-- Two contexts, and the first draws itself. -/
def selfEdge : GeneratedTopology where
  topology_type := .ringEdge
  directed := nofun
  no_contexts := 2
  accepted := ⟨by decide, by decide⟩
  draws := [1, 0, 0]
  rest := []
  edges := [(0, 1), (0, 0), (1, 0)]
  run := rfl

/-- The test for multiple rings lets three contexts pass. -/
def threeContexts : GeneratedTopology where
  topology_type := .multipleRing
  directed := nofun
  no_contexts := 3
  accepted := ⟨by decide, by decide⟩
  draws := []
  rest := []
  edges := [(0, 1), (1, 2), (1, 3), (2, 0), (2, 3)]
  run := rfl

/-- The first context of `selfEdge` lists itself, and in `threeContexts` the context `3` is
listed. -/
theorem accepted_not_wellFormed :
    ¬ WellFormedTopology selfEdge.no_contexts selfEdge.edges ∧
      ¬ WellFormedTopology threeContexts.no_contexts threeContexts.edges := by
  constructor
  · intro h
    exact h.irrefl 0 (by decide) (by decide)
  · exact not_wellFormed_three

end GeneratedTopology

end Dmcs
