import Dmcs.Lib.Odometer
import Dmcs.Mcs.Combine

/-!
# Joining packs of belief states (`StreamingJoiner::join`, `do_join`)

The joiner holds one pack of belief states for each neighbour.  `joinOne` combines one state of
each pack, in the order of the neighbours; `doJoin` tries all combinations with a vector of running
iterators and collects the successful ones.

The iterators of `do_join` are positions in the packs, and advancing them is the step of
`Odometer`: the last neighbour turns fastest.  `doJoin_eq` says that the loop tries every
combination once, in lexicographic order, and keeps those that combine, in this order.  The queries
and the queue around this loop are in `StreamingJoiner`.
-/

namespace Dmcs

open Odometer

variable {bso : BeliefStateOffset}

namespace StreamingJoiner

/-- `join(query_id, run_it)`: combine the states one after the other, `none` when one of them does
not fit. -/
def joinOne : List (NewBeliefState bso.width) → Option (NewBeliefState bso.width)
  | [] => none
  | bs :: rest => rest.foldlM NewBeliefState.combine bs

/-- The loop of `join(query_id, beg_it, end_it)` over all combinations of the packs. -/
def joinAll (packs : List (List (NewBeliefState bso.width))) : List (NewBeliefState bso.width) :=
  let ends := packs.map List.length
  (visited (next ends) ends.prod (List.replicate ends.length 0)).filterMap
    (fun run => joinOne (pick packs run))

/-- `do_join`: the states appended to `joined_results`; no pack may be empty. -/
def doJoin (packs : List (List (NewBeliefState bso.width))) :
    Option (List (NewBeliefState bso.width)) :=
  if packs.any List.isEmpty then none else some (joinAll packs)

/-- All combinations are tried, each once. -/
theorem doJoin_eq {packs : List (List (NewBeliefState bso.width))} (h : ∀ p ∈ packs, p ≠ []) :
    doJoin packs = some ((product packs).filterMap joinOne) := by
  have hany : ¬ packs.any List.isEmpty = true := by
    rw [List.any_eq_true]
    rintro ⟨p, hp, hempty⟩
    exact h p hp (List.isEmpty_iff.mp hempty)
  have hends : ∀ e ∈ packs.map List.length, 0 < e := by
    intro e he
    obtain ⟨p, hp, rfl⟩ := List.mem_map.mp he
    exact List.length_pos_iff.mpr (h p hp)
  rw [doJoin, if_neg hany, joinAll, visited_next hends (length_tuples _).le, ← map_pick_tuples,
    List.filterMap_map]
  rfl

end StreamingJoiner

end Dmcs
