import Dmcs.Lib.Compaction
import Dmcs.Mcs.ReturnedBeliefState

/-!
# Removing duplicates in place (`my_compare`, `remove_duplication`)

A list of answers is a list of objects with a pointer to a belief state and the id of a query.
`remove_duplication` compacts the sorted list in place: it copies the object of the next element
that differs over the node after the last one kept, so that for a while two nodes hold one pointer,
and it deletes the belief states of a run of equal elements when the run ends.  Reading or deleting
a belief state that was deleted has no result here.

`removeDuplication_compacts` follows the loop; `sort_removeDuplication` says what is left of a list
and what was deleted.

## The invariant of the loop

The elements of the list are counted, so that a pointer is a place of the sorted list.  The loop
either extends a run of equal elements or ends it: then the states of the run are deleted, and the
next element is copied to the place after the last one that is kept.  What is kept and what is
deleted is the `compact` of the list, so the library says that together they are the list, and what
is kept is without repetition.

Each pointer is deleted at most once, and no pointer that is kept is deleted.  A result is only
there when no deleted state was read, so that the code never reads one is part of the statement.
-/

namespace Dmcs

open Compaction

/-- The address of a belief state. -/
abbrev Pointer := ℕ

/-- The object a node of the list points to. -/
structure RbsNode where
  belief_state : Option Pointer
  qid : Qid
  deriving DecidableEq

namespace RbsNode

variable {w : ℕ} (lt : BitVec w → BitVec w → Bool) (heap : Pointer → NewBeliefState w)

/-- `NewBeliefState::operator<` over the order of bit vectors. -/
def less (s t : NewBeliefState w) : Bool :=
  lt s.status_bit t.status_bit || (s.status_bit == t.status_bit && lt s.value_bit t.value_bit)

/-- `my_compare`. -/
def myCompare (rbs1 rbs2 : RbsNode) : Bool :=
  match rbs1.belief_state, rbs2.belief_state with
  | none, _ => false
  | some _, none => true
  | some p, some q =>
      if less lt (heap p) (heap q) then true
      else if heap p == heap q then decide (rbs1.qid < rbs2.qid)
      else false

/-- `operator==`. -/
def equal (rbs1 rbs2 : RbsNode) : Bool :=
  match rbs1.belief_state, rbs2.belief_state with
  | none, none => true
  | none, some _ => false
  | some _, none => false
  | some p, some q => heap p == heap q && rbs1.qid == rbs2.qid

end RbsNode

/-! ## The loop -/

/-- `delete pbs`; deleting `NULL` does nothing. -/
def deletePointer (deleted : List Pointer) : Option Pointer → Option (List Pointer)
  | none => some deleted
  | some p => if p ∈ deleted then none else some (deleted ++ [p])

/-- The loop that deletes the belief states of the nodes from `it` up to `stop`. -/
def deleteRange (nodes : List RbsNode) (it stop : ℕ) (deleted : List Pointer) :
    Option (List Pointer) :=
  ((nodes.take stop).drop it).foldlM (fun d rbs => deletePointer d rbs.belief_state) deleted

/-- The belief state was not deleted. -/
def RbsNode.alive (deleted : List Pointer) (rbs : RbsNode) : Bool :=
  rbs.belief_state.all (fun p => p ∉ deleted)

/-- The local variables of `remove_duplication`; iterators are positions. -/
structure Removal where
  nodes : List RbsNode
  mid : ℕ
  beg_remove : ℕ
  deleted : List Pointer

namespace Removal

variable {w : ℕ} (heap : Pointer → NewBeliefState w)

/-- The body of the loop. -/
def round (first : ℕ) (s : Removal) : Option Removal := do
  let m ← s.nodes[s.mid]?
  let f ← s.nodes[first]?
  if !(m.alive s.deleted && f.alive s.deleted) then none
  else if m.equal heap f then some s
  else
    let deleted ← deleteRange s.nodes s.beg_remove first s.deleted
    some ⟨s.nodes.set (s.mid + 1) f, s.mid + 1, first + 1, deleted⟩

/-- The last deletions and `resize`: the nodes that are left, and all pointers deleted. -/
def finish (s : Removal) : Option (List RbsNode × List Pointer) := do
  let deleted ← deleteRange s.nodes s.beg_remove s.nodes.length s.deleted
  some (s.nodes.take (s.mid + 1), deleted)

/-- The loop, with the number of nodes from `first` on. -/
def loop : ℕ → ℕ → Removal → Option (List RbsNode × List Pointer)
  | 0, _, s => s.finish
  | todo + 1, first, s => do
      let s ← s.round heap first
      loop todo (first + 1) s

end Removal

section

variable {w : ℕ} (lt : BitVec w → BitVec w → Bool) (heap : Pointer → NewBeliefState w)

/-- `remove_duplication`; the second node of an empty list does not exist. -/
def removeDuplicationAt (rbsl : List RbsNode) : Option (List RbsNode × List Pointer) :=
  if rbsl = [] then none else Removal.loop heap (rbsl.length - 1) 1 ⟨rbsl, 0, 1, []⟩

/-- `rbsl->sort(my_compare)`, which is stable. -/
def sortNodes (rbsl : List RbsNode) : List RbsNode :=
  rbsl.mergeSort (fun rbs1 rbs2 => !RbsNode.myCompare lt heap rbs2 rbs1)

end

/-! ## What the loop leaves and deletes -/

/-- The belief states a list holds. -/
def pointers (nodes : List RbsNode) : List Pointer := nodes.filterMap RbsNode.belief_state

section Loop

variable {w : ℕ} {heap : Pointer → NewBeliefState w} {deleted : List Pointer}

lemma pointers_append (a b : List RbsNode) : pointers (a ++ b) = pointers a ++ pointers b :=
  List.filterMap_append ..

lemma alive_of_forall {nodes : List RbsNode} {rbs : RbsNode} (hrbs : rbs ∈ nodes)
    (hnodes : ∀ p ∈ pointers nodes, p ∉ deleted) : rbs.alive deleted = true := by
  unfold RbsNode.alive
  rw [Option.all_eq_true]
  intro p hp
  exact decide_eq_true (hnodes p (List.mem_filterMap.2 ⟨rbs, hrbs, hp⟩))

/-- Deleting belief states that are there, each once. -/
lemma foldlM_deletePointer {D : List RbsNode} (hnodup : (pointers D).Nodup)
    (hD : ∀ p ∈ pointers D, p ∉ deleted) :
    D.foldlM (fun d rbs => deletePointer d rbs.belief_state) deleted =
      some (deleted ++ pointers D) := by
  induction D generalizing deleted with
  | nil => exact congrArg some (List.append_nil deleted).symm
  | cons rbs D ih =>
      rw [List.foldlM_cons]
      obtain ⟨bs, q⟩ := rbs
      cases bs with
      | none => exact ih hnodup hD
      | some p =>
          have hpointers : pointers (⟨some p, q⟩ :: D) = p :: pointers D := rfl
          rw [hpointers] at hnodup hD ⊢
          rw [List.nodup_cons] at hnodup
          rw [List.forall_mem_cons] at hD
          have hrest : D.foldlM (fun d rbs => deletePointer d rbs.belief_state) (deleted ++ [p]) =
              some (deleted ++ [p] ++ pointers D) := by
            apply ih hnodup.2
            intro q hq
            rw [List.mem_append, List.mem_singleton]
            rintro (hdel | rfl)
            · exact hD.2 q hq hdel
            · exact hnodup.1 hq
          show (if p ∈ deleted then none else some (deleted ++ [p])).bind _ = _
          rw [if_neg hD.1]
          exact hrest.trans (by rw [List.append_assoc]; rfl)

lemma mem_pointers_cons {rbs : RbsNode} {nodes : List RbsNode} {p : Pointer}
    (hp : p ∈ pointers nodes) :
    p ∈ pointers (rbs :: nodes) := by
  rw [← List.singleton_append, pointers_append]
  exact List.mem_append_right _ hp

lemma nodup_of_pointers_cons {rbs : RbsNode} {nodes : List RbsNode}
    (h : (pointers (rbs :: nodes)).Nodup) : (pointers nodes).Nodup := by
  rw [← List.singleton_append, pointers_append] at h
  exact (List.nodup_append.1 h).2.1

namespace Removal

/-- A node is read when the loop has `kept` and then `m`, when `D` waits to be deleted, and when
`junk` lies between them. -/
lemma getElem?_parts {kept junk D : List RbsNode} (R : List RbsNode) (m y : RbsNode) {first : ℕ}
    (hfirst : first = kept.length + 1 + junk.length + D.length) :
    (kept ++ m :: (junk ++ D ++ y :: R))[kept.length]? = some m ∧
      (kept ++ m :: (junk ++ D ++ y :: R))[first]? = some y := by
  constructor
  · rw [List.getElem?_append_right (le_refl _), Nat.sub_self, List.getElem?_cons_zero]
  · have hsplit : kept ++ m :: (junk ++ D ++ y :: R) = (kept ++ m :: (junk ++ D)) ++ y :: R := by
      simp
    have hlen : (kept ++ m :: (junk ++ D)).length = first := by
      simp only [List.length_append, List.length_cons]
      omega
    rw [hsplit, ← hlen, List.getElem?_append_right (le_refl _), Nat.sub_self,
      List.getElem?_cons_zero]

/-- The node after the last one kept is overwritten. -/
lemma set_parts (kept junk D R : List RbsNode) (m y : RbsNode) :
    ∃ junk', junk'.length = junk.length + D.length ∧
      (kept ++ m :: (junk ++ D ++ y :: R)).set (kept.length + 1) y =
        (kept ++ [m]) ++ y :: (junk' ++ [] ++ R) := by
  obtain ⟨z, junk', hcons⟩ : ∃ z junk', junk ++ D ++ [y] = z :: junk' :=
    List.exists_cons_of_ne_nil (by simp)
  have hlen := congrArg List.length hcons
  simp only [List.length_append, List.length_cons, List.length_nil] at hlen
  refine ⟨junk', by omega, ?_⟩
  have hsplit : kept ++ m :: (junk ++ D ++ y :: R) = (kept ++ [m]) ++ z :: (junk' ++ R) := by
    have hend : junk ++ D ++ y :: R = (junk ++ D ++ [y]) ++ R := by simp
    rw [hend, hcons]
    simp
  have hpos : kept.length + 1 = (kept ++ [m]).length := by simp
  rw [hsplit, hpos, List.set_append_right _ _ (le_refl _), Nat.sub_self, List.set_cons_zero,
    List.append_nil]

/-- The nodes that wait are deleted. -/
lemma deleteRange_parts (kept junk R : List RbsNode) (m : RbsNode) {D : List RbsNode}
    {deleted : List Pointer} {it first : ℕ} (hit : it = kept.length + 1 + junk.length)
    (hfirst : first = it + D.length)
    (hnodup : (pointers D).Nodup) (halive : ∀ p ∈ pointers D, p ∉ deleted) :
    deleteRange (kept ++ m :: (junk ++ D ++ R)) it first deleted =
      some (deleted ++ pointers D) := by
  have hsplit : kept ++ m :: (junk ++ D ++ R) = ((kept ++ m :: junk) ++ D) ++ R := by simp
  have hit' : it = (kept ++ m :: junk).length := by
    simp only [List.length_append, List.length_cons]
    omega
  have hfirst' : first = ((kept ++ m :: junk) ++ D).length := by
    rw [List.length_append, ← hit']
    exact hfirst
  unfold deleteRange
  rw [hsplit, hfirst', List.take_left, hit', List.drop_left]
  exact foldlM_deletePointer hnodup halive

lemma take_parts (kept l : List RbsNode) (m : RbsNode) :
    (kept ++ m :: l).take (kept.length + 1) = kept ++ [m] := by
  rw [List.append_cons]
  exact List.take_left' List.length_append

/-- One round: an element equal to the last one kept waits to be deleted. -/
lemma round_of_eq {kept junk D R : List RbsNode} {m y : RbsNode} {deleted : List Pointer}
    {first : ℕ}
    (hfirst : first = kept.length + 1 + junk.length + D.length)
    (halive : ∀ p ∈ pointers (m :: (D ++ y :: R)), p ∉ deleted) (heq : m.equal heap y = true) :
    round heap first
        ⟨kept ++ m :: (junk ++ D ++ y :: R), kept.length, kept.length + 1 + junk.length,
          deleted⟩ =
      some ⟨kept ++ m :: (junk ++ D ++ y :: R), kept.length, kept.length + 1 + junk.length,
        deleted⟩ := by
  obtain ⟨hm, hy⟩ := getElem?_parts R m y hfirst
  unfold round
  rw [hm, hy]
  have hma : m.alive deleted = true := alive_of_forall List.mem_cons_self halive
  have hya : y.alive deleted = true := alive_of_forall (by simp) halive
  show (if !(m.alive deleted && y.alive deleted) then none
    else if m.equal heap y then _ else _) = _
  rw [hma, hya, if_neg (by simp), if_pos heq]

/-- An element that differs is kept, and the elements that wait are deleted. -/
lemma round_of_ne {kept junk D R : List RbsNode} {m y : RbsNode} {deleted : List Pointer}
    {first : ℕ}
    (hfirst : first = kept.length + 1 + junk.length + D.length)
    (hnodup : (pointers D).Nodup)
    (halive : ∀ p ∈ pointers (m :: (D ++ y :: R)), p ∉ deleted) (hne : ¬ m.equal heap y = true) :
    ∃ junk', junk'.length = junk.length + D.length ∧
      round heap first
          ⟨kept ++ m :: (junk ++ D ++ y :: R), kept.length, kept.length + 1 + junk.length,
          deleted⟩ =
        some ⟨(kept ++ [m]) ++ y :: (junk' ++ [] ++ R), kept.length + 1, first + 1,
          deleted ++ pointers D⟩ := by
  obtain ⟨hm, hy⟩ := getElem?_parts R m y hfirst
  obtain ⟨junk', hlen, hset⟩ := set_parts kept junk D R m y
  have hD : ∀ p ∈ pointers D, p ∉ deleted := by
    intro p hp
    apply halive p
    apply mem_pointers_cons
    rw [pointers_append]
    exact List.mem_append_left _ hp
  refine ⟨junk', hlen, ?_⟩
  unfold round
  rw [hm, hy]
  have hma : m.alive deleted = true := alive_of_forall List.mem_cons_self halive
  have hya : y.alive deleted = true := alive_of_forall (by simp) halive
  show (if !(m.alive deleted && y.alive deleted) then none
    else if m.equal heap y then _ else Option.bind _ _) = _
  rw [hma, hya, if_neg (by simp), if_neg hne,
    deleteRange_parts kept junk (y :: R) m rfl hfirst hnodup hD]
  exact congrArg some (by rw [hset])

-- The induction is on the nodes that were not read yet.
lemma loop_eq (R kept junk D : List RbsNode) (m : RbsNode) (deleted : List Pointer) {n : ℕ}
    (hfirst : n = kept.length + 1 + junk.length + D.length)
    (hnodup : (pointers (m :: (D ++ R))).Nodup)
    (halive : ∀ p ∈ pointers (m :: (D ++ R)), p ∉ deleted) :
    loop heap R.length n
        ⟨kept ++ m :: (junk ++ D ++ R), kept.length, kept.length + 1 + junk.length, deleted⟩ =
      some (kept ++ m :: (compact (RbsNode.equal heap) m R).1,
        deleted ++ pointers D ++ pointers (compact (RbsNode.equal heap) m R).2) := by
  -- The induction is on the part of the list that was not looked at; `D` is the run of elements
  -- equal to `m`, and `junk` what earlier runs have left.
  induction R generalizing kept junk D m deleted n with
  | nil =>
      rw [List.append_nil] at hnodup halive
      have hD : ∀ p ∈ pointers D, p ∉ deleted := fun p hp => halive p (mem_pointers_cons hp)
      have hdelete := deleteRange_parts kept junk [] m rfl rfl (nodup_of_pointers_cons hnodup) hD
      have hlen : (kept ++ m :: (junk ++ D ++ [])).length =
          kept.length + 1 + junk.length + D.length := by
        simp only [List.length_append, List.length_cons, List.length_nil]
        omega
      rw [← hlen] at hdelete
      show Option.bind (deleteRange _ _ (kept ++ m :: (junk ++ D ++ [])).length _) _ = _
      rw [hdelete]
      show some ((kept ++ m :: (junk ++ D ++ [])).take (kept.length + 1), _) = _
      rw [take_parts]
      exact congrArg some (Prod.ext rfl (List.append_nil _).symm)
  | cons y R ih =>
      show Option.bind (round heap n _) _ = _
      by_cases heq : m.equal heap y = true
      -- the run gets longer
      · rw [round_of_eq hfirst halive heq, compact_cons_of_eq heq, Option.bind_some]
        have hassoc : D ++ y :: R = D ++ [y] ++ R := List.append_cons D y R
        have hassoc' : junk ++ D ++ y :: R = junk ++ (D ++ [y]) ++ R := by simp
        rw [hassoc] at hnodup halive
        rw [hassoc']
        have hrest := ih kept junk (D ++ [y]) m deleted (n := n + 1)
          (by simp only [List.length_append, List.length_singleton]; omega) hnodup halive
        refine hrest.trans ?_
        rw [pointers_append]
        have hcons : pointers (y :: (compact (RbsNode.equal heap) m R).2) =
            pointers [y] ++ pointers (compact (RbsNode.equal heap) m R).2 :=
          pointers_append [y] _
        rw [hcons]
        simp only [List.append_assoc]
      -- the run ends and is deleted, and `y` begins the next one
      · have hDR := nodup_of_pointers_cons hnodup
        rw [pointers_append, List.nodup_append] at hDR
        obtain ⟨hDnodup, hRnodup, hdisjoint⟩ := hDR
        obtain ⟨junk', hlen, hround⟩ := round_of_ne hfirst hDnodup halive heq
        rw [hround, compact_cons_of_ne heq, Option.bind_some]
        have hR : ∀ p ∈ pointers (y :: R), p ∉ deleted ++ pointers D := by
          intro p hp
          rw [List.mem_append]
          rintro (hdel | hpD)
          · apply halive p _ hdel
            apply mem_pointers_cons
            rw [pointers_append]
            exact List.mem_append_right _ hp
          · exact hdisjoint p hpD p hp rfl
        have hrest := ih (kept ++ [m]) junk' [] y (deleted ++ pointers D) (n := n + 1)
          (by simp only [List.length_append, List.length_singleton, List.length_nil]; omega)
          hRnodup hR
        have hbeg : (kept ++ [m]).length + 1 + junk'.length = n + 1 := by
          simp only [List.length_append, List.length_singleton]
          omega
        rw [hbeg, List.length_append, List.length_singleton] at hrest
        refine hrest.trans ?_
        simp [pointers]

end Removal

/-- What is left of a list and what is deleted: the kept and the dropped elements. -/
theorem removeDuplicationAt_cons {x : RbsNode} {xs : List RbsNode}
    (howned : (pointers (x :: xs)).Nodup) :
    removeDuplicationAt heap (x :: xs) =
      some (x :: (compact (RbsNode.equal heap) x xs).1,
        pointers (compact (RbsNode.equal heap) x xs).2) := by
  unfold removeDuplicationAt
  rw [if_neg (List.cons_ne_nil x xs)]
  exact Removal.loop_eq xs [] [] [] x [] rfl howned (fun _ _ => List.not_mem_nil)

end Loop

/-! ## The order -/

namespace RbsNode

variable {w : ℕ} {lt : BitVec w → BitVec w → Bool} {heap : Pointer → NewBeliefState w}

/-- What an answer says: its belief state, if it has one, and the id of its query. -/
def content (heap : Pointer → NewBeliefState w) (rbs : RbsNode) :
    Option (NewBeliefState w) × Qid :=
  (rbs.belief_state.map heap, rbs.qid)

section Equal

variable {a b : RbsNode}

/-- Answers with belief states are equal when they say the same, and all markers are equal. -/
lemma equal_iff : a.equal heap b = true ↔
    (a.belief_state = none ∧ b.belief_state = none) ∨
      (a.belief_state ≠ none ∧ a.content heap = b.content heap) := by
  obtain ⟨bs, q⟩ := a
  obtain ⟨bs', q'⟩ := b
  cases bs with
  | none =>
      cases bs' with
      | none => simp [equal]
      | some p' => simp [equal]
  | some p =>
      cases bs' with
      | none => simp [equal, content]
      | some p' => simp [equal, content]

lemma isNone_of_content_eq (h : a.content heap = b.content heap) :
    a.belief_state = none ↔ b.belief_state = none := by
  have hbs := (Prod.mk.inj h).1
  rw [← Option.map_eq_none_iff (f := heap), hbs, Option.map_eq_none_iff]

lemma equal_trans {c : RbsNode} (hab : a.equal heap b = true) (hbc : b.equal heap c = true) :
    a.equal heap c = true := by
  rw [equal_iff] at hab hbc ⊢
  rcases hab with ⟨ha, hb⟩ | ⟨ha, hab⟩
  · rcases hbc with ⟨-, hc⟩ | ⟨hb', -⟩
    · exact Or.inl ⟨ha, hc⟩
    · exact absurd hb hb'
  · rcases hbc with ⟨hb, -⟩ | ⟨-, hbc⟩
    · exact absurd ((isNone_of_content_eq hab).2 hb) ha
    · exact Or.inr ⟨ha, hab.trans hbc⟩

end Equal

lemma less_iff {s t : NewBeliefState w} : less lt s t = true ↔
    lt s.status_bit t.status_bit = true ∨
      (s.status_bit = t.status_bit ∧ lt s.value_bit t.value_bit = true) := by
  unfold less
  rw [Bool.or_eq_true, Bool.and_eq_true, beq_iff_eq]

variable [IsStrictTotalOrder (BitVec w) (fun a b => lt a b = true)]

section Less

variable {s t u : NewBeliefState w}

lemma less_irrefl : ¬ less lt s s = true := by
  rw [less_iff]
  rintro (h | ⟨-, h⟩)
  · exact irrefl_of (fun a b => lt a b = true) _ h
  · exact irrefl_of (fun a b => lt a b = true) _ h

lemma less_trans (hst : less lt s t = true) (htu : less lt t u = true) : less lt s u = true := by
  rw [less_iff] at *
  rcases hst with hst | ⟨hst, hst'⟩
  · rcases htu with htu | ⟨htu, -⟩
    · exact Or.inl (trans_of (fun a b => lt a b = true) hst htu)
    · exact Or.inl (htu ▸ hst)
  · rcases htu with htu | ⟨htu, htu'⟩
    · exact Or.inl (hst ▸ htu)
    · exact Or.inr ⟨hst.trans htu, trans_of (fun a b => lt a b = true) hst' htu'⟩

variable (lt) in
lemma less_trichotomous (s t : NewBeliefState w) :
    less lt s t = true ∨ s = t ∨ less lt t s = true := by
  rcases trichotomous_of (fun a b => lt a b = true) s.status_bit t.status_bit with h | h | h
  · exact Or.inl (less_iff.2 (Or.inl h))
  · rcases trichotomous_of (fun a b => lt a b = true) s.value_bit t.value_bit with h' | h' | h'
    · exact Or.inl (less_iff.2 (Or.inr ⟨h, h'⟩))
    · exact Or.inr (Or.inl (NewBeliefState.ext h h'))
    · exact Or.inr (Or.inr (less_iff.2 (Or.inr ⟨h.symm, h'⟩)))
  · exact Or.inr (Or.inr (less_iff.2 (Or.inl h)))

end Less

section Compare

variable {a b c : RbsNode}

/-- `my_compare` of two belief states. -/
lemma myCompare_some {p p' : Pointer} {q q' : Qid} :
    myCompare lt heap ⟨some p, q⟩ ⟨some p', q'⟩ = true ↔
      less lt (heap p) (heap p') = true ∨ (heap p = heap p' ∧ q < q') := by
  unfold myCompare
  simp only
  by_cases hless : less lt (heap p) (heap p') = true
  · simp [hless]
  · by_cases heq : heap p = heap p'
    · simp [heq, less_irrefl]
    · simp [hless, heq]

lemma myCompare_irrefl (a : RbsNode) : ¬ myCompare lt heap a a = true := by
  obtain ⟨bs, q⟩ := a
  cases bs with
  | none => exact Bool.false_ne_true
  | some p =>
      rw [myCompare_some]
      rintro (h | ⟨-, h⟩)
      · exact less_irrefl h
      · exact absurd h (BitVec.lt_irrefl q)

lemma myCompare_trans (hab : myCompare lt heap a b = true) (hbc : myCompare lt heap b c = true) :
    myCompare lt heap a c = true := by
  obtain ⟨bs, q⟩ := a
  obtain ⟨bs', q'⟩ := b
  obtain ⟨bs'', q''⟩ := c
  cases bs with
  | none => exact absurd hab Bool.false_ne_true
  | some p =>
      cases bs'' with
      | none => rfl
      | some p'' =>
          cases bs' with
          | none => exact absurd hbc Bool.false_ne_true
          | some p' =>
              rw [myCompare_some] at *
              rcases hab with hab | ⟨hab, hq⟩
              · rcases hbc with hbc | ⟨hbc, -⟩
                · exact Or.inl (less_trans hab hbc)
                · exact Or.inl (hbc ▸ hab)
              · rcases hbc with hbc | ⟨hbc, hq'⟩
                · exact Or.inl (hab ▸ hbc)
                · exact Or.inr ⟨hab.trans hbc, BitVec.lt_trans hq hq'⟩

variable (lt) in
/-- Answers that are not equal are in order, one way or the other. -/
lemma myCompare_of_not_equal (h : ¬ a.equal heap b = true) :
    myCompare lt heap a b = true ∨ myCompare lt heap b a = true := by
  obtain ⟨bs, q⟩ := a
  obtain ⟨bs', q'⟩ := b
  cases bs with
  | none =>
      cases bs' with
      | none => exact absurd rfl h
      | some p' => exact Or.inr rfl
  | some p =>
      cases bs' with
      | none => exact Or.inl rfl
      | some p' =>
          rw [myCompare_some, myCompare_some]
          rcases less_trichotomous lt (heap p) (heap p') with hless | heq | hless
          · exact Or.inl (Or.inl hless)
          · have hq : q ≠ q' := by
              rintro rfl
              apply h
              rw [equal_iff]
              exact Or.inr ⟨Option.some_ne_none p, by simp [content, heq]⟩
            rcases Nat.lt_or_gt_of_ne (mt BitVec.eq_of_toNat_eq hq) with hlt | hlt
            · exact Or.inl (Or.inr ⟨heq, hlt⟩)
            · exact Or.inr (Or.inr ⟨heq.symm, hlt⟩)
          · exact Or.inr (Or.inl hless)

lemma not_myCompare_of_equal (h : a.equal heap b = true) : ¬ myCompare lt heap a b = true := by
  obtain ⟨bs, q⟩ := a
  obtain ⟨bs', q'⟩ := b
  cases bs with
  | none => exact Bool.false_ne_true
  | some p =>
      cases bs' with
      | none => exact absurd h Bool.false_ne_true
      | some p' =>
          rw [equal, Bool.and_eq_true, beq_iff_eq, beq_iff_eq] at h
          obtain ⟨hheap, rfl⟩ := h
          rw [myCompare_some, hheap]
          rintro (hless | ⟨-, hlt⟩)
          · exact less_irrefl hless
          · exact absurd hlt (BitVec.lt_irrefl _)

/-- Incomparable answers are the equal ones. -/
lemma incomparable_iff : (¬ myCompare lt heap a b = true ∧ ¬ myCompare lt heap b a = true) ↔
    a.equal heap b = true := by
  constructor
  · rintro ⟨hab, hba⟩
    by_contra h
    rcases myCompare_of_not_equal lt h with hlt | hlt
    · exact hab hlt
    · exact hba hlt
  · intro h
    have h' : b.equal heap a = true := by
      rw [equal_iff] at h ⊢
      rcases h with ⟨ha, hb⟩ | ⟨ha, h⟩
      · exact Or.inl ⟨hb, ha⟩
      · exact Or.inr ⟨fun hb => ha ((isNone_of_content_eq h).2 hb), h.symm⟩
    exact ⟨not_myCompare_of_equal h, not_myCompare_of_equal h'⟩

/-- What is not before something that is not before a third is not before the third. -/
lemma not_myCompare_trans (hba : ¬ myCompare lt heap b a = true)
    (hcb : ¬ myCompare lt heap c b = true) : ¬ myCompare lt heap c a = true := by
  intro hca
  by_cases hab : a.equal heap b = true
  · have hbc : ¬ myCompare lt heap b c = true := fun hbc => hba (myCompare_trans hbc hca)
    have hequal := equal_trans hab (incomparable_iff.1 ⟨hbc, hcb⟩)
    exact (incomparable_iff.2 hequal).2 hca
  · rcases myCompare_of_not_equal lt hab with hlt | hlt
    · exact hcb (myCompare_trans hca hlt)
    · exact hba hlt

variable (lt heap) in
/-- `my_compare` is a strict weak ordering. -/
lemma isStrictWeakOrder_myCompare :
    IsStrictWeakOrder RbsNode (fun a b => myCompare lt heap a b = true) where
  irrefl := myCompare_irrefl
  trans _ _ _ := myCompare_trans
  incomp_trans a b c hab hbc := by
    rw [incomparable_iff] at *
    exact equal_trans hab hbc

end Compare

end RbsNode

/-! ## Sorting and removing duplicates -/

section Sorted

variable {w : ℕ} {lt : BitVec w → BitVec w → Bool} {heap : Pointer → NewBeliefState w}
  [IsStrictTotalOrder (BitVec w) (fun a b => lt a b = true)] {rbsl : List RbsNode}

variable (lt heap rbsl) in
/-- No element of the sorted list is before an earlier one. -/
lemma pairwise_sortNodes :
    (sortNodes lt heap rbsl).Pairwise (fun a b => ¬ RbsNode.myCompare lt heap b a = true) := by
  have hle : ∀ a b, (!RbsNode.myCompare lt heap b a) = true ↔
      ¬ RbsNode.myCompare lt heap b a = true := by
    intro a b
    rw [Bool.not_eq_true', ← Bool.not_eq_true]
  have hsorted := @List.pairwise_mergeSort RbsNode (fun a b => !RbsNode.myCompare lt heap b a)
    (fun a b c hab hbc =>
      (hle a c).2 (RbsNode.not_myCompare_trans ((hle a b).1 hab) ((hle b c).1 hbc)))
    (by
      intro a b
      rw [Bool.or_eq_true, hle, hle, ← not_and_or]
      rintro ⟨hba, hab⟩
      exact RbsNode.myCompare_irrefl a (RbsNode.myCompare_trans hab hba))
    rbsl
  exact hsorted.imp (fun h => (hle _ _).1 h)

/-- At most one marker: two markers of the list are the same. -/
lemma eq_of_markers (hnull : (rbsl.filter (fun a => a.belief_state.isNone)).length ≤ 1)
    {a b : RbsNode}
    (ha : a ∈ rbsl) (hb : b ∈ rbsl) (hna : a.belief_state = none) (hnb : b.belief_state = none) :
    a = b := by
  have hmem : ∀ c ∈ rbsl, c.belief_state = none →
      c ∈ rbsl.filter (fun a => a.belief_state.isNone) := by
    intro c hc hnc
    exact List.mem_filter.2 ⟨hc, Option.isNone_iff_eq_none.2 hnc⟩
  have ha' := hmem a ha hna
  have hb' := hmem b hb hnb
  generalize rbsl.filter (fun a => a.belief_state.isNone) = markers at hnull ha' hb'
  match markers with
  | [] => exact absurd ha' List.not_mem_nil
  | [m] => rw [List.mem_singleton.1 ha', List.mem_singleton.1 hb']
  | _ :: _ :: _ => exact absurd hnull (by simp)

/-- Equal elements of such a list say the same. -/
lemma content_eq_of_equal (hnull : (rbsl.filter (fun a => a.belief_state.isNone)).length ≤ 1)
    {a b : RbsNode} (ha : a ∈ rbsl) (hb : b ∈ rbsl) (h : a.equal heap b = true) :
    a.content heap = b.content heap := by
  rw [RbsNode.equal_iff] at h
  rcases h with ⟨hna, hnb⟩ | ⟨-, h⟩
  · rw [eq_of_markers hnull ha hb hna hnb]
  · exact h

variable (lt heap) in
/-- Sorting with `my_compare`, which is a strict weak ordering, and removing duplicates: the answers
that are left say what the list says, once each and in order, with the marker last, and the belief
states deleted, once each, are those that are not held any more. -/
theorem sort_removeDuplication (hne : rbsl ≠ []) (howned : (pointers rbsl).Nodup)
    (hnull : (rbsl.filter (fun a => a.belief_state.isNone)).length ≤ 1) :
    IsStrictWeakOrder RbsNode (fun a b => RbsNode.myCompare lt heap a b = true) ∧
      ∃ result deleted, removeDuplicationAt heap (sortNodes lt heap rbsl) = some (result, deleted) ∧
        result.Pairwise (fun a b => RbsNode.myCompare lt heap a b = true) ∧
        (∀ c, c ∈ result.map (RbsNode.content heap) ↔ c ∈ rbsl.map (RbsNode.content heap)) ∧
        (∀ pre x post, result = pre ++ x :: post → x.belief_state = none → post = []) ∧
        deleted.Nodup ∧ ∀ p, p ∈ deleted ↔ p ∈ pointers rbsl ∧ p ∉ pointers result := by
  refine ⟨RbsNode.isStrictWeakOrder_myCompare lt heap, ?_⟩
  have hperm : (sortNodes lt heap rbsl).Perm rbsl := List.mergeSort_perm _ _
  have hsorted := pairwise_sortNodes lt heap rbsl
  have hnil : sortNodes lt heap rbsl ≠ [] := fun hnil => hne (hnil ▸ hperm).symm.eq_nil
  obtain ⟨x, xs, hcons⟩ := List.exists_cons_of_ne_nil hnil
  rw [hcons] at hperm hsorted ⊢
  have hpointers : (pointers (x :: xs)).Nodup := (hperm.filterMap _).nodup_iff.2 howned
  have hlt : ∀ a b : RbsNode, ¬ RbsNode.myCompare lt heap b a = true → ¬ a.equal heap b = true →
      RbsNode.myCompare lt heap a b = true :=
    fun a b hle hab => (RbsNode.myCompare_of_not_equal lt hab).resolve_right hle
  have htrans : ∀ a b c : RbsNode, RbsNode.myCompare lt heap a b = true →
      RbsNode.myCompare lt heap b c = true → RbsNode.myCompare lt heap a c = true :=
    fun _ _ _ => RbsNode.myCompare_trans
  have hpairwise := pairwise_kept htrans hlt hsorted
  -- two elements the loop takes for equal say the same, because there is only one end marker
  have hequal : ∀ a ∈ x :: xs, ∀ b ∈ xs, a.equal heap b = true → a.content heap = b.content heap :=
    fun a ha b hb => content_eq_of_equal hnull (hperm.subset ha)
      (hperm.subset (List.mem_cons_of_mem x hb))
  have hall :
      (x :: (compact (RbsNode.equal heap) x xs).1 ++ (compact (RbsNode.equal heap) x xs).2).Perm
      rbsl := ((perm (RbsNode.equal heap) x xs).cons x).trans hperm
  -- a pointer is kept or dropped, and not both
  have hdropped : (pointers (x :: (compact (RbsNode.equal heap) x xs).1) ++
      pointers (compact (RbsNode.equal heap) x xs).2).Nodup := by
    rw [← pointers_append]
    exact (hall.filterMap _).nodup_iff.2 howned
  refine ⟨_, _, removeDuplicationAt_cons hpointers, hpairwise, ?_, ?_, ?_, ?_⟩
  · intro c
    rw [List.mem_map, List.mem_map]
    constructor
    · rintro ⟨a, ha, rfl⟩
      refine ⟨a, hperm.subset ?_, rfl⟩
      rcases List.mem_cons.1 ha with rfl | ha
      · exact List.mem_cons_self
      · exact List.mem_cons_of_mem x (mem_of_mem_kept ha)
    · rintro ⟨a, ha, rfl⟩
      exact exists_kept_eq hequal (hperm.symm.subset ha)
  · intro pre y post hsplit hy
    rw [hsplit, List.pairwise_append] at hpairwise
    apply List.eq_nil_iff_forall_not_mem.2
    intro z hz
    have hyz := (List.pairwise_cons.1 hpairwise.2.1).1 z hz
    unfold RbsNode.myCompare at hyz
    rw [hy] at hyz
    exact Bool.false_ne_true hyz
  · exact hdropped.of_append_right
  · intro p
    have hmem : p ∈ pointers rbsl ↔
        p ∈ pointers (x :: (compact (RbsNode.equal heap) x xs).1) ∨
          p ∈ pointers (compact (RbsNode.equal heap) x xs).2 := by
      rw [← List.mem_append, ← pointers_append]
      exact (hall.filterMap RbsNode.belief_state).mem_iff.symm
    rw [hmem]
    constructor
    · intro hp
      exact ⟨Or.inr hp, fun hp' => (List.nodup_append.1 hdropped).2.2 p hp' p hp rfl⟩
    · rintro ⟨hp | hp, hnot⟩
      · exact absurd hp hnot
      · exact hp

end Sorted

/-- The order of `bvector` is strict and total. -/
instance (w : ℕ) : IsStrictTotalOrder (BitVec w) (fun a b => bvectorLt a b = true) where
  irrefl a h := absurd (of_decide_eq_true h) (Nat.lt_irrefl _)
  trans a b c hab hbc :=
    decide_eq_true (Nat.lt_trans (of_decide_eq_true hab) (of_decide_eq_true hbc))
  trichotomous a b hab hba := by
    apply ReturnedBeliefState.reverse_toNat_inj.1
    exact Nat.le_antisymm (Nat.le_of_not_lt (fun h => hba (decide_eq_true h)))
      (Nat.le_of_not_lt (fun h => hab (decide_eq_true h)))

/-- Two equal answers around a marker. -/
def aroundMarker : List RbsNode := [⟨some 0, 1⟩, ⟨none, 1⟩, ⟨some 1, 1⟩]

/-- One of the two belief states is deleted. -/
theorem sort_removeDuplication_aroundMarker :
    ∃ result deleted, removeDuplicationAt (fun _ => NewBeliefState.empty 4)
        (sortNodes bvectorLt (fun _ => NewBeliefState.empty 4) aroundMarker) =
          some (result, deleted) ∧
      ∀ p, p ∈ deleted ↔ p ∈ pointers aroundMarker ∧ p ∉ pointers result := by
  have hne : aroundMarker ≠ [] := List.cons_ne_nil _ _
  obtain ⟨-, result, deleted, hrun, -, -, -, -, hdeleted⟩ :=
    sort_removeDuplication bvectorLt (fun _ => NewBeliefState.empty 4) hne (by decide) (by decide)
  exact ⟨result, deleted, hrun, hdeleted⟩

/-! ## The lists of answers -/

section Returned

variable {bso : BeliefStateOffset} {heap : Pointer → NewBeliefState bso.width}

/-- The answer an object stands for. -/
def RbsNode.returned (heap : Pointer → NewBeliefState bso.width) (rbs : RbsNode) :
    ReturnedBeliefState bso :=
  ⟨rbs.belief_state.map heap, rbs.qid⟩

lemma myCompare_returned (a b : RbsNode) :
    RbsNode.myCompare bvectorLt heap a b =
      ReturnedBeliefState.myCompare (a.returned heap) (b.returned heap) := by
  obtain ⟨bs, q⟩ := a
  obtain ⟨bs', q'⟩ := b
  cases bs with
  | none => rfl
  | some p =>
      cases bs' with
      | none => rfl
      | some p' => rfl

lemma equal_returned (a b : RbsNode) :
    a.equal heap b = ReturnedBeliefState.equal (a.returned heap) (b.returned heap) := by
  obtain ⟨bs, q⟩ := a
  obtain ⟨bs', q'⟩ := b
  cases bs with
  | none =>
      cases bs' with
      | none => rfl
      | some p' => rfl
  | some p =>
      cases bs' with
      | none => rfl
      | some p' => rfl

/-- The answers that are left are those of the list of answers, sorted and without repetitions. -/
theorem map_returned_removeDuplication {rbsl result : List RbsNode} {deleted : List Pointer}
    (howned : (pointers rbsl).Nodup)
    (h : removeDuplicationAt heap (sortNodes bvectorLt heap rbsl) = some (result, deleted)) :
    result.map (RbsNode.returned heap) =
      ReturnedBeliefState.sortUnique (rbsl.map (RbsNode.returned heap)) := by
  have hsort : (sortNodes bvectorLt heap rbsl).map (RbsNode.returned heap) =
      (rbsl.map (RbsNode.returned heap)).mergeSort
        (fun rbs1 rbs2 => !ReturnedBeliefState.myCompare rbs2 rbs1) := by
    apply List.map_mergeSort
    intro a _ b _
    rw [myCompare_returned]
  unfold ReturnedBeliefState.sortUnique ReturnedBeliefState.removeDuplication
  rw [← hsort]
  have hperm : (sortNodes bvectorLt heap rbsl).Perm rbsl := List.mergeSort_perm _ _
  generalize sortNodes bvectorLt heap rbsl = sorted at h hperm
  cases sorted with
  | nil => exact absurd h (Option.some_ne_none _).symm
  | cons x xs =>
      rw [removeDuplicationAt_cons ((hperm.filterMap _).nodup_iff.2 howned), Option.some_inj,
        Prod.mk.injEq] at h
      rw [← h.1, kept_eq_destutter']
      exact List.map_destutter (l := x :: xs) (fun a _ b _ => by rw [equal_returned])

end Returned

end Dmcs
