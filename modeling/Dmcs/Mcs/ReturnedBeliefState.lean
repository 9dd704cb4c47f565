import Mathlib.Data.List.Destutter
import Mathlib.Data.List.Sort
import Mathlib.Data.Prod.Lex
import Mathlib.Order.WithBot
import Dmcs.Mcs.StreamingJoiner

/-!
# Sorting and deduplicating answers (`ReturnedBeliefState`)

`my_compare` orders belief states by their bits and then by the ids of their queries, with the end
markers last; `operator==` takes any two end markers for equal, whatever their queries.  On a list
that ends with its only end marker, sorting and removing duplicates keeps exactly the elements of
the list, once each, and leaves the end marker at the end (`sortUnique_batch`).

The order is total on states with their ids and puts the end markers last, so sorting puts equal
elements next to each other.  `operator==` is coarser than the order on end markers, which matters
only when a list has several of them.  The list that is sorted in the code ends with its only end
marker; the removal itself, in place and with the deletions, is in `RemoveDuplication`.
-/

namespace Dmcs

variable {bso : BeliefStateOffset}

/-- `bvector::operator<`: the first bit in which two vectors differ decides. -/
def bvectorLt {w : ℕ} (a b : BitVec w) : Bool := decide (a.reverse.toNat < b.reverse.toNat)

/-- `NewBeliefState::operator<`. -/
def NewBeliefState.lt {w : ℕ} (s t : NewBeliefState w) : Bool :=
  bvectorLt s.status_bit t.status_bit ||
    (s.status_bit == t.status_bit && bvectorLt s.value_bit t.value_bit)

namespace ReturnedBeliefState

/-- The end marker of a query has no belief state. -/
def isEndMarker (rbs : ReturnedBeliefState bso) : Bool := rbs.beliefState.isNone

/-- `my_compare`. -/
def myCompare (rbs1 rbs2 : ReturnedBeliefState bso) : Bool :=
  match rbs1.beliefState, rbs2.beliefState with
  | none, _ => false
  | some _, none => true
  | some s, some t =>
      if s.lt t then true
      else if s == t then decide (rbs1.qid < rbs2.qid)
      else false

/-- `operator==`. -/
def equal (rbs1 rbs2 : ReturnedBeliefState bso) : Bool :=
  match rbs1.beliefState, rbs2.beliefState with
  | none, none => true
  | some s, some t => s == t && rbs1.qid == rbs2.qid
  | _, _ => false

/-- `remove_duplication`: an element is kept if it differs from the last one kept. -/
def removeDuplication (rbsl : List (ReturnedBeliefState bso)) : List (ReturnedBeliefState bso) :=
  rbsl.destutter (fun mid first => ¬ equal mid first)

/-- `output_list->sort(my_compare)` and `remove_duplication(output_list)`. -/
def sortUnique (rbsl : List (ReturnedBeliefState bso)) : List (ReturnedBeliefState bso) :=
  removeDuplication (rbsl.mergeSort (fun rbs1 rbs2 => !myCompare rbs2 rbs1))

/-- What `my_compare` compares; end markers come last. -/
def key (rbs : ReturnedBeliefState bso) : WithTop (ℕ ×ₗ ℕ ×ₗ ℕ) :=
  match rbs.beliefState with
  | none => ⊤
  | some s =>
      ↑(toLex (s.status_bit.reverse.toNat, toLex (s.value_bit.reverse.toNat, rbs.qid.toNat)))

section Order

variable {w : ℕ} {a b : BitVec w} {x y : ReturnedBeliefState bso}

lemma reverse_toNat_inj : a.reverse.toNat = b.reverse.toNat ↔ a = b := by
  constructor
  · intro h
    refine BitVec.eq_of_getMsbD_eq (fun i _ => ?_)
    rw [← BitVec.getLsbD_reverse, BitVec.eq_of_toNat_eq h, BitVec.getLsbD_reverse]
  · intro h
    rw [h]

lemma isEndMarker_iff : isEndMarker x = true ↔ key x = ⊤ := by
  cases hx : x.beliefState with
  | none => simp [isEndMarker, key, hx]
  | some s => simp [isEndMarker, key, hx]

lemma key_of_some {s : NewBeliefState bso.width} (hx : x.beliefState = some s) :
    key x = ↑(toLex (s.status_bit.reverse.toNat,
      toLex (s.value_bit.reverse.toNat, x.qid.toNat))) := by
  rw [key, hx]

/-- `my_compare` is the strict order of the keys. -/
lemma myCompare_iff : myCompare x y = true ↔ key x < key y := by
  cases hx : x.beliefState with
  | none => simp [myCompare, key, hx]
  | some s =>
      cases hy : y.beliefState with
      | none => simp [myCompare, key, hx, hy]
      | some t =>
          have hlt : s.lt t = true ↔ s.status_bit.reverse.toNat < t.status_bit.reverse.toNat ∨
              s.status_bit.reverse.toNat = t.status_bit.reverse.toNat ∧
                s.value_bit.reverse.toNat < t.value_bit.reverse.toNat := by
            simp [NewBeliefState.lt, bvectorLt, reverse_toNat_inj]
          have heq : (s == t) = true ↔
              s.status_bit.reverse.toNat = t.status_bit.reverse.toNat ∧
                s.value_bit.reverse.toNat = t.value_bit.reverse.toNat := by
            rw [beq_iff_eq, NewBeliefState.ext_iff, reverse_toNat_inj, reverse_toNat_inj]
          rw [key_of_some hx, key_of_some hy, WithTop.coe_lt_coe, Prod.Lex.toLex_lt_toLex,
            Prod.Lex.toLex_lt_toLex]
          simp only [myCompare, hx, hy]
          by_cases h : s.lt t = true
          · rw [if_pos h]
            have := hlt.mp h
            simp only [true_iff]
            omega
          · have hnlt := mt hlt.mpr h
            rw [if_neg h]
            by_cases h' : (s == t) = true
            · have := heq.mp h'
              rw [if_pos h', decide_eq_true_eq, BitVec.lt_def]
              omega
            · have hne := mt heq.mpr h'
              simp only [if_neg h', Bool.false_eq_true, false_iff]
              omega

/-- Models with the same key are the same. -/
lemma eq_of_key_eq (hx : isEndMarker x = false) (h : key x = key y) : x = y := by
  obtain ⟨bs, q⟩ := x
  obtain ⟨bs', q'⟩ := y
  cases bs with
  | none => cases hx
  | some s =>
      cases bs' with
      | none => simp [key] at h
      | some t =>
          simp only [key, WithTop.coe_inj, toLex_inj, Prod.mk.injEq, reverse_toNat_inj] at h
          obtain ⟨hstatus, hvalue, hq⟩ := h
          rw [NewBeliefState.ext hstatus hvalue, BitVec.eq_of_toNat_eq hq]

/-- `operator==` sees no difference between end markers, and sees every other. -/
lemma equal_iff : equal x y = true ↔ isEndMarker x = true ∧ isEndMarker y = true ∨ x = y := by
  obtain ⟨bs, q⟩ := x
  obtain ⟨bs', q'⟩ := y
  cases bs <;> cases bs' <;> simp [equal, isEndMarker]

end Order

section Batch

variable {models : List (ReturnedBeliefState bso)} {marker x y : ReturnedBeliefState bso}

/-- In a batch, only the last element is an end marker. -/
lemma eq_of_isEndMarker (hmodels : ∀ x ∈ models, isEndMarker x = false)
    (hx : x ∈ models ++ [marker]) (hend : isEndMarker x = true) : x = marker := by
  rcases List.mem_append.mp hx with hx | hx
  · rw [hmodels x hx] at hend
    cases hend
  · exact List.mem_singleton.mp hx

/-- In a batch, elements with the same key are the same. -/
lemma eq_of_key_eq_of_mem (hmodels : ∀ x ∈ models, isEndMarker x = false)
    (hx : x ∈ models ++ [marker]) (hy : y ∈ models ++ [marker]) (h : key x = key y) : x = y := by
  cases hend : isEndMarker x with
  | false => exact eq_of_key_eq hend h
  | true =>
      have hendy : isEndMarker y = true := by
        rw [isEndMarker_iff, ← h, ← isEndMarker_iff]
        exact hend
      rw [eq_of_isEndMarker hmodels hx hend, eq_of_isEndMarker hmodels hy hendy]

/-- The order of the sorted batch. -/
def Before (x y : ReturnedBeliefState bso) : Prop := key x < key y ∨ x = y

instance : Std.Antisymm (@Before bso) where
  antisymm x y hxy hyx := by
    rcases hxy with hxy | hxy
    · rcases hyx with hyx | hyx
      · exact absurd hyx hxy.asymm
      · exact hyx.symm
    · exact hxy

/-- The list that is sorted has the elements of the batch in the order of their keys. -/
lemma pairwise_sort (hmodels : ∀ x ∈ models, isEndMarker x = false) :
    ((models ++ [marker]).mergeSort (fun rbs1 rbs2 => !myCompare rbs2 rbs1)).Pairwise Before := by
  have hle : ∀ x y : ReturnedBeliefState bso, (!myCompare y x) = true ↔ key x ≤ key y := by
    intro x y
    rw [Bool.not_eq_true', ← Bool.not_eq_true, myCompare_iff, not_lt]
  have hsorted := @List.pairwise_mergeSort (ReturnedBeliefState bso)
    (fun rbs1 rbs2 => !myCompare rbs2 rbs1)
    (fun x y z hxy hyz => (hle x z).mpr (((hle x y).mp hxy).trans ((hle y z).mp hyz)))
    (fun x y => by
      rw [Bool.or_eq_true, hle, hle]
      exact le_total _ _)
    (models ++ [marker])
  refine hsorted.imp_of_mem ?_
  intro x y hx hy hxy
  rw [List.mem_mergeSort] at hx hy
  rcases ((hle x y).mp hxy).lt_or_eq with hlt | heq
  · exact Or.inl hlt
  · exact Or.inr (eq_of_key_eq_of_mem hmodels hx hy heq)

/-- On a sorted batch, `remove_duplication` removes exactly the repetitions. -/
lemma sortUnique_eq_dedup (hmodels : ∀ x ∈ models, isEndMarker x = false) :
    sortUnique (models ++ [marker]) =
      ((models ++ [marker]).mergeSort (fun rbs1 rbs2 => !myCompare rbs2 rbs1)).dedup := by
  have hsorted := @pairwise_sort bso models marker hmodels
  unfold sortUnique removeDuplication
  set sorted := (models ++ [marker]).mergeSort (fun rbs1 rbs2 => !myCompare rbs2 rbs1) with hs
  have hiff : ∀ x ∈ sorted, ∀ y ∈ sorted, ¬ equal x y = true ↔ id x ≠ id y := by
    intro x hx y hy
    rw [hs, List.mem_mergeSort] at hx hy
    rw [equal_iff, not_iff_not]
    constructor
    · rintro (⟨hendx, hendy⟩ | h)
      · exact (eq_of_isEndMarker hmodels hx hendx).trans
          (eq_of_isEndMarker hmodels hy hendy).symm
      · exact h
    · exact Or.inr
  have hdestutter : (sorted.destutter (fun x y => ¬ equal x y = true)).map id =
      (sorted.map id).destutter (· ≠ ·) := List.map_destutter hiff
  rw [List.map_id, List.map_id] at hdestutter
  rw [hdestutter, hsorted.destutter_eq_dedup]

/-- What is sent of a batch: each of its elements once, the end marker last. -/
theorem sortUnique_batch (hmodels : ∀ x ∈ models, isEndMarker x = false)
    (hmarker : isEndMarker marker = true) :
    ∃ sorted, sortUnique (models ++ [marker]) = sorted ++ [marker] ∧
      (sorted ++ [marker]).Nodup ∧ (∀ x, x ∈ sorted ↔ x ∈ models) := by
  have hmem : ∀ x, x ∈ sortUnique (models ++ [marker]) ↔ x ∈ models ++ [marker] := by
    intro x
    rw [sortUnique_eq_dedup hmodels, List.mem_dedup, List.mem_mergeSort]
  have hnodup : (sortUnique (models ++ [marker])).Nodup := by
    rw [sortUnique_eq_dedup hmodels]
    exact List.nodup_dedup _
  have hpairwise : (sortUnique (models ++ [marker])).Pairwise Before := by
    rw [sortUnique_eq_dedup hmodels]
    exact (pairwise_sort hmodels).sublist (List.dedup_sublist _)
  obtain ⟨sorted, rest, hsplit⟩ :=
    List.append_of_mem ((hmem marker).mpr (List.mem_append_right _ (List.mem_singleton.mpr rfl)))
  rw [hsplit] at hmem hnodup hpairwise
  -- nothing comes after the greatest key
  have hrest : rest = [] := by
    refine List.eq_nil_iff_forall_not_mem.mpr (fun x hx => ?_)
    have hbefore := (List.pairwise_cons.mp (List.pairwise_append.mp hpairwise).2.1).1 x hx
    have hfresh := (List.nodup_cons.mp (List.nodup_append.mp hnodup).2.1).1
    rcases hbefore with hlt | rfl
    · rw [isEndMarker_iff.mp hmarker] at hlt
      exact not_top_lt hlt
    · exact hfresh hx
  subst hrest
  refine ⟨sorted, hsplit, hnodup, fun x => ?_⟩
  have hne : marker ∉ sorted := fun h =>
    (List.nodup_append.mp hnodup).2.2 marker h marker (List.mem_singleton.mpr rfl) rfl
  have hnmodel : marker ∉ models := fun h => by
    rw [hmodels marker h] at hmarker
    cases hmarker
  have hx := hmem x
  simp only [List.mem_append, List.mem_singleton] at hx
  by_cases h : x = marker
  · subst h
    exact iff_of_false hne hnmodel
  · simpa [h] using hx

end Batch

end ReturnedBeliefState

end Dmcs
