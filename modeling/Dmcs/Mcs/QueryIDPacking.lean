import Dmcs.Mcs.QueryID

/-!
# Packing and unpacking query ids (`QueryID`, `query_id`)

The constructor of `QueryID` searches for the shift of the query order: the first one from 4 on that
leaves a multiple of three for the context id, the neighbour offset and the neighbour id.
`searchQueryOrderShift_spec` says that the six fields then fill the word, whatever its width, and
`new_eq_layout` that a 64-bit word has the shifts and masks of the accessors.

`queryId_packing` says that an id is taken apart the way it was put together, and that setting and
unsetting one neighbour field leaves everything else alone.

## The argument

An id is a union of fields, each shifted to its place (`packFields`).  The places do not overlap if
each field ends where the next one begins and each value fits into its width (`Tiles`).  Then the
value of a field is read back, by induction on the list of fields: the field itself is read from its
own part, and the other parts have no bit in it.  `tiles_sixFields` checks the six fields of the
layout.

Setting a field is a union with a shifted value and unsetting it an intersection with a mask; both
are read bit by bit, and a bit outside of the field stays what it was.
-/

namespace Dmcs

namespace QueryID

/-! ## The constructor -/

/-- The loop of the constructor; `left` is `s - query_order_shift - query_order_length -
joiner_offset_length`, which falls as the shift rises. -/
def searchQueryOrderShift : ℕ → ℕ → ℕ
  | 0, shift => shift
  | left + 1, shift =>
      if (left + 1) % 3 ≠ 0 then searchQueryOrderShift left (shift + 1) else shift

/-- The shifts and masks of the instance. -/
structure Layout where
  queryOrderShift : ℕ
  localContextShift : ℕ
  joinerOffsetShift : ℕ
  neighborOffsetShift : ℕ
  neighborIdShift : ℕ
  queryTypeMask : Qid
  queryOrderMask : Qid
  localContextMask : Qid
  joinerOffsetMask : Qid
  neighborOffsetMask : Qid
  neighborIdMask : Qid

/-- `QueryID::QueryID`, where `std::size_t` has 64 bits. -/
def Layout.new : Layout :=
  let s := 64
  let queryOrderLength := 24
  let joinerOffsetLength := 6
  let queryOrderShift := searchQueryOrderShift (s - 4 - queryOrderLength - joinerOffsetLength) 4
  let oneThirdLeft := (s - queryOrderShift - queryOrderLength - joinerOffsetLength) / 3
  let joinerOffsetShift := queryOrderShift + queryOrderLength
  let localContextShift := joinerOffsetShift + joinerOffsetLength
  let neighborOffsetShift := localContextShift + oneThirdLeft
  let neighborIdShift := neighborOffsetShift + oneThirdLeft
  { queryOrderShift := queryOrderShift
    localContextShift := localContextShift
    joinerOffsetShift := joinerOffsetShift
    neighborOffsetShift := neighborOffsetShift
    neighborIdShift := neighborIdShift
    queryTypeMask := setupMask 0 queryOrderShift
    queryOrderMask := setupMask queryOrderShift joinerOffsetShift
    localContextMask := setupMask localContextShift neighborOffsetShift
    joinerOffsetMask := setupMask joinerOffsetShift localContextShift
    neighborOffsetMask := setupMask neighborOffsetShift neighborIdShift
    neighborIdMask := setupMask neighborIdShift s }

/-- The search adds at most two bits to the query type, and what is left has three equal parts. -/
theorem searchQueryOrderShift_spec (left shift : ℕ) :
    ∃ more third, more ≤ 2 ∧ left = more + 3 * third ∧
      searchQueryOrderShift left shift = shift + more := by
  induction left generalizing shift with
  | zero => exact ⟨0, 0, by omega, rfl, rfl⟩
  | succ left ih =>
      rw [searchQueryOrderShift]
      by_cases h : (left + 1) % 3 = 0
      · rw [if_neg (not_not.2 h)]
        exact ⟨0, (left + 1) / 3, by omega, by omega, rfl⟩
      · rw [if_pos h]
        obtain ⟨more, third, hmore, hleft, hsearch⟩ := ih (shift + 1)
        refine ⟨more + 1, third, by omega, by omega, ?_⟩
        rw [hsearch]
        omega

/-! ## All fields of an id -/

/-- `query_id` with all six fields. -/
def queryIdOfFields (queryType ctxId joinerOffset neighborId neighborOffset queryOrder : ℕ) : Qid :=
  BitVec.ofNat 64 queryType ||| shifted queryOrder queryOrderShift |||
    shifted ctxId localContextShift ||| shifted joinerOffset joinerOffsetShift |||
    shifted neighborOffset neighborOffsetShift ||| shifted neighborId neighborIdShift

/-- `is_answer`. -/
def isAnswer (qid : Qid) : Bool := qid &&& setupMask 0 queryOrderShift == 3

/-- `qorder_from_qid`. -/
def qorderFromQid (qid : Qid) : ℕ := fieldFrom qid queryOrderShift joinerOffsetShift

/-- The shifts of the accessors, and the masks between them. -/
def layout : Layout where
  queryOrderShift := queryOrderShift
  localContextShift := localContextShift
  joinerOffsetShift := joinerOffsetShift
  neighborOffsetShift := neighborOffsetShift
  neighborIdShift := neighborIdShift
  queryTypeMask := setupMask 0 queryOrderShift
  queryOrderMask := setupMask queryOrderShift joinerOffsetShift
  localContextMask := setupMask localContextShift neighborOffsetShift
  joinerOffsetMask := setupMask joinerOffsetShift localContextShift
  neighborOffsetMask := setupMask neighborOffsetShift neighborIdShift
  neighborIdMask := setupMask neighborIdShift 64

/-- The instance has the shifts and masks the accessors use. -/
lemma new_eq_layout : Layout.new = layout := rfl

/-- The fields a joiner and the dispatchers set and unset. -/
inductive NeighborField
  | joinerOffset
  | neighborOffset
  | neighborId
  deriving DecidableEq

namespace NeighborField

/-- The bits a field has. -/
def width : NeighborField → ℕ
  | joinerOffset => 6
  | neighborOffset => 10
  | neighborId => 10

/-- `set_joiner_offset`, `set_neighbor_offset`, `set_neighbor_id`. -/
def set : NeighborField → Qid → ℕ → Qid
  | joinerOffset => setJoinerOffset
  | neighborOffset => setNeighborOffset
  | neighborId => setNeighborId

/-- `unset_joiner_offset`, `unset_neighbor_offset`, `unset_neighbor_id`. -/
def unset : NeighborField → Qid → Qid
  | joinerOffset => unsetJoinerOffset
  | neighborOffset => unsetNeighborOffset
  | neighborId => unsetNeighborId

/-- `joiner_offset_from_qid`, `neighbor_offset_from_qid`, `neighbor_id_from_qid`. -/
def read : NeighborField → Qid → ℕ
  | joinerOffset => joinerOffsetFromQid
  | neighborOffset => neighborOffsetFromQid
  | neighborId => receiverFromQid

/-- The first bit of a field. -/
def lo : NeighborField → ℕ
  | joinerOffset => joinerOffsetShift
  | neighborOffset => neighborOffsetShift
  | neighborId => neighborIdShift

/-- The three fields. -/
def all : List NeighborField := [neighborId, neighborOffset, joinerOffset]

end NeighborField

/-- Setting fields one after the other. -/
def setFields (value : NeighborField → ℕ) (fields : List NeighborField) (qid : Qid) : Qid :=
  fields.foldl (fun qid f => f.set qid (value f)) qid

/-- Unsetting fields one after the other. -/
def unsetFields (fields : List NeighborField) (qid : Qid) : Qid :=
  fields.foldl (fun qid f => f.unset qid) qid

/-- Two ids that differ at most in one neighbour field. -/
structure SameOutside (f : NeighborField) (qid qid' : Qid) : Prop where
  read : ∀ g, g ≠ f → g.read qid' = g.read qid
  qorder : qorderFromQid qid' = qorderFromQid qid
  ctxId : ctxIdFromQid qid' = ctxIdFromQid qid
  isShutdown : isShutdown qid' = isShutdown qid
  isRequest : isRequest qid' = isRequest qid
  isAnswer : isAnswer qid' = isAnswer qid

/-! ## Reading a field -/

section Field

variable {lo hi : ℕ} {qid : Qid}

lemma testBit_fieldFrom (hhi : hi ≤ 64) (qid : Qid) (k : ℕ) :
    (fieldFrom qid lo hi).testBit k = (decide (lo + k < hi) && qid.getLsbD (lo + k)) := by
  have hlo : lo ≤ lo + k := Nat.le_add_right lo k
  rw [fieldFrom, BitVec.testBit_toNat, BitVec.getLsbD_ushiftRight, BitVec.getLsbD_and,
    getLsbD_setupMask hhi, decide_eq_true hlo, Bool.true_and, Bool.and_comm]

/-- A field depends on its own bits only. -/
lemma fieldFrom_congr (hhi : hi ≤ 64) {qid' : Qid}
    (h : ∀ i, lo ≤ i → i < hi → qid'.getLsbD i = qid.getLsbD i) :
    fieldFrom qid' lo hi = fieldFrom qid lo hi := by
  apply Nat.eq_of_testBit_eq
  intro k
  rw [testBit_fieldFrom hhi, testBit_fieldFrom hhi]
  by_cases hk : lo + k < hi
  · rw [h (lo + k) (Nat.le_add_right lo k) hk]
  · rw [decide_eq_false hk, Bool.false_and, Bool.false_and]

lemma fieldFrom_or (hhi : hi ≤ 64) (a b : Qid) :
    fieldFrom (a ||| b) lo hi = fieldFrom a lo hi ||| fieldFrom b lo hi := by
  apply Nat.eq_of_testBit_eq
  intro k
  rw [Nat.testBit_or, testBit_fieldFrom hhi, testBit_fieldFrom hhi, testBit_fieldFrom hhi,
    BitVec.getLsbD_or, Bool.and_or_distrib_left]

/-- A value is read back from its field. -/
lemma fieldFrom_shifted (hle : lo ≤ hi) (hhi : hi ≤ 64) {value : ℕ}
    (hvalue : value < 2 ^ (hi - lo)) : fieldFrom (shifted value lo) lo hi = value := by
  apply Nat.eq_of_testBit_eq
  intro k
  rw [testBit_fieldFrom hhi, getLsbD_shifted, Nat.add_sub_cancel_left]
  by_cases hk : lo + k < hi
  · have h64 : lo + k < 64 := lt_of_lt_of_le hk hhi
    simp [hk, h64]
  · have hbit : value.testBit k = false :=
      Nat.testBit_lt_two_pow (lt_of_lt_of_le hvalue (Nat.pow_le_pow_right (by omega) (by omega)))
    simp [hbit]

/-- A value in another field is not seen. -/
lemma fieldFrom_shifted_of_disjoint (hhi : hi ≤ 64) {value shift width : ℕ}
    (hvalue : value < 2 ^ width) (h : shift + width ≤ lo ∨ hi ≤ shift) :
    fieldFrom (shifted value shift) lo hi = 0 := by
  apply Nat.eq_of_testBit_eq
  intro k
  rw [testBit_fieldFrom hhi, Nat.zero_testBit]
  by_cases hk : lo + k < hi
  · have hbit : (shifted value shift).getLsbD (lo + k) = false := by
      rcases h with h | h
      · exact getLsbD_shifted_of_lt hvalue _ _ (by omega)
      · exact getLsbD_shifted_of_gt _ (by omega)
    rw [hbit, Bool.and_false]
  · rw [decide_eq_false hk, Bool.false_and]

/-- The verdicts compare the field of the query type. -/
lemma and_typeMask_beq (qid : Qid) {t : ℕ} (ht : t < 2 ^ 64) :
    (qid &&& setupMask 0 queryOrderShift == BitVec.ofNat 64 t) =
      (fieldFrom qid 0 queryOrderShift == t) := by
  rw [Bool.eq_iff_iff, beq_iff_eq, beq_iff_eq, fieldFrom, BitVec.ushiftRight_zero,
    ← BitVec.toNat_inj, BitVec.toNat_ofNat, Nat.mod_eq_of_lt ht]

/-- A bit set by `set_…` lies in the field. -/
lemma getLsbD_shifted_outside {value width shift i : ℕ} (hvalue : value < 2 ^ width)
    (h : i < shift ∨ shift + width ≤ i) : (shifted value shift).getLsbD i = false := by
  rcases h with h | h
  · exact getLsbD_shifted_of_gt value h
  · exact getLsbD_shifted_of_lt hvalue shift i h

end Field

/-! ## Setting and unsetting a field -/

namespace NeighborField

variable {f : NeighborField} {value : ℕ}

lemma set_eq (f : NeighborField) (qid : Qid) (value : ℕ) :
    f.set qid value = qid ||| shifted value f.lo := by
  cases f <;> rfl

lemma unset_eq (f : NeighborField) (qid : Qid) :
    f.unset qid = qid &&& ~~~(setupMask f.lo (f.lo + f.width)) := by
  cases f <;> rfl

lemma read_eq (f : NeighborField) (qid : Qid) :
    f.read qid = fieldFrom qid f.lo (f.lo + f.width) := by
  cases f <;> rfl

/-- The three fields lie above the type and the order, beside the context id, inside the word. -/
lemma lo_bounds (f : NeighborField) : joinerOffsetShift ≤ f.lo ∧ f.lo + f.width ≤ 64 ∧
    (f.lo + f.width ≤ localContextShift ∨ neighborOffsetShift ≤ f.lo) := by
  cases f <;> decide

/-- Two of them do not overlap. -/
lemma disjoint {f g : NeighborField} (h : g ≠ f) :
    g.lo + g.width ≤ f.lo ∨ f.lo + f.width ≤ g.lo := by
  cases f <;> cases g <;> first | exact absurd rfl h | decide

/-- Setting a field changes its own bits only. -/
lemma getLsbD_set (qid : Qid) (hvalue : value < 2 ^ f.width) {i : ℕ}
    (h : i < f.lo ∨ f.lo + f.width ≤ i) : (f.set qid value).getLsbD i = qid.getLsbD i := by
  rw [set_eq, BitVec.getLsbD_or, getLsbD_shifted_outside hvalue h, Bool.or_false]

/-- Unsetting a field clears its bits. -/
lemma getLsbD_unset (f : NeighborField) (qid : Qid) (i : ℕ) :
    (f.unset qid).getLsbD i =
      (qid.getLsbD i && !(decide (f.lo ≤ i) && decide (i < f.lo + f.width))) := by
  rw [unset_eq, BitVec.getLsbD_and, BitVec.getLsbD_not, getLsbD_setupMask f.lo_bounds.2.1]
  by_cases hi : i < 64
  · rw [decide_eq_true hi, Bool.true_and]
  · rw [BitVec.getLsbD_of_ge qid i (Nat.le_of_not_lt hi), Bool.false_and, Bool.false_and]

lemma getLsbD_unset_outside (qid : Qid) {i : ℕ} (h : i < f.lo ∨ f.lo + f.width ≤ i) :
    (f.unset qid).getLsbD i = qid.getLsbD i := by
  rw [getLsbD_unset]
  rcases h with h | h
  · rw [decide_eq_false (Nat.not_le.2 h), Bool.false_and, Bool.not_false, Bool.and_true]
  · rw [decide_eq_false (Nat.not_lt.2 h), Bool.and_false, Bool.not_false, Bool.and_true]

/-- An id whose bits differ in one field only reads the same elsewhere. -/
lemma sameOutside_of_getLsbD {qid qid' : Qid}
    (h : ∀ i, i < f.lo ∨ f.lo + f.width ≤ i → qid'.getLsbD i = qid.getLsbD i) :
    SameOutside f qid qid' := by
  obtain ⟨hlo, hhi, hcontext⟩ := f.lo_bounds
  have hbelow : queryOrderShift ≤ joinerOffsetShift := by decide
  have htype : fieldFrom qid' 0 queryOrderShift = fieldFrom qid 0 queryOrderShift :=
    fieldFrom_congr (by decide) (fun i _ hi => h i (Or.inl (by omega)))
  have hverdict : ∀ t < 2 ^ 64, (qid' &&& setupMask 0 queryOrderShift == BitVec.ofNat 64 t) =
      (qid &&& setupMask 0 queryOrderShift == BitVec.ofNat 64 t) := by
    intro t ht
    rw [and_typeMask_beq qid' ht, and_typeMask_beq qid ht, htype]
  constructor
  · intro g hg
    rw [read_eq, read_eq]
    apply fieldFrom_congr g.lo_bounds.2.1
    intro i hi hi'
    apply h
    rcases disjoint hg with hdis | hdis
    · exact Or.inl (by omega)
    · exact Or.inr (by omega)
  · exact fieldFrom_congr (by decide) (fun i _ hi => h i (Or.inl (by omega)))
  · apply fieldFrom_congr (by decide)
    intro i hi hi'
    apply h
    rcases hcontext with hcontext | hcontext
    · exact Or.inr (by omega)
    · exact Or.inl (by omega)
  · exact hverdict 1 (by norm_num)
  · exact hverdict 2 (by norm_num)
  · exact hverdict 3 (by norm_num)

end NeighborField

open NeighborField

variable {value : NeighborField → ℕ} {qid : Qid} {i : ℕ}

/-- Setting fields leaves the bits outside the fields alone. -/
lemma getLsbD_setFields (hvalue : ∀ f, value f < 2 ^ f.width) (fields : List NeighborField)
    (h : ∀ f : NeighborField, i < f.lo ∨ f.lo + f.width ≤ i) :
    (setFields value fields qid).getLsbD i = qid.getLsbD i := by
  induction fields generalizing qid with
  | nil => rfl
  | cons f fields ih =>
      show (setFields value fields (f.set qid (value f))).getLsbD i = _
      rw [ih, getLsbD_set qid (hvalue f) (h f)]

lemma getLsbD_unsetFields (fields : List NeighborField) (qid : Qid) (i : ℕ) :
    (unsetFields fields qid).getLsbD i = (qid.getLsbD i &&
      fields.all (fun f => !(decide (f.lo ≤ i) && decide (i < f.lo + f.width)))) := by
  induction fields generalizing qid with
  | nil => exact (Bool.and_true _).symm
  | cons f fields ih =>
      show (unsetFields fields (f.unset qid)).getLsbD i = _
      rw [ih, getLsbD_unset, List.all_cons, Bool.and_assoc]

/-- A field that reads zero has no bit. -/
lemma getLsbD_of_read_eq_zero {f : NeighborField} (h : f.read qid = 0) (hlo : f.lo ≤ i)
    (hhi : i < f.lo + f.width) : qid.getLsbD i = false := by
  have hbit : (fieldFrom qid f.lo (f.lo + f.width)).testBit (i - f.lo) = false := by
    rw [← read_eq, h, Nat.zero_testBit]
  have hsub : f.lo + (i - f.lo) = i := by omega
  rw [testBit_fieldFrom f.lo_bounds.2.1, hsub, decide_eq_true hhi, Bool.true_and] at hbit
  exact hbit

/-- Unsetting the three fields, in any order, takes back that they were set. -/
theorem unsetFields_setFields (hzero : ∀ f : NeighborField, f.read qid = 0)
    (hvalue : ∀ f, value f < 2 ^ f.width) (sets : List NeighborField) {unsets : List NeighborField}
    (hunsets : ∀ f, f ∈ unsets) : unsetFields unsets (setFields value sets qid) = qid := by
  apply BitVec.eq_of_getLsbD_eq
  intro i _
  rw [getLsbD_unsetFields]
  by_cases h : ∃ f : NeighborField, f.lo ≤ i ∧ i < f.lo + f.width
  · obtain ⟨f, hlo, hhi⟩ := h
    have hall : (unsets.all
        (fun f => !(decide (f.lo ≤ i) && decide (i < f.lo + f.width)))) = false := by
      rw [List.all_eq_false]
      exact ⟨f, hunsets f, by simp [hlo, hhi]⟩
    rw [hall, Bool.and_false, getLsbD_of_read_eq_zero (hzero f) hlo hhi]
  · have hout : ∀ f : NeighborField, i < f.lo ∨ f.lo + f.width ≤ i := by
      intro f
      by_contra hf
      exact h ⟨f, by omega, by omega⟩
    have hall : (unsets.all
        (fun f => !(decide (f.lo ≤ i) && decide (i < f.lo + f.width)))) = true := by
      rw [List.all_eq_true]
      intro f _
      rcases hout f with hf | hf
      · simp [hf]
      · simp [hf]
    rw [hall, Bool.and_true, getLsbD_setFields hvalue sets hout]

/-! ## Taking an id apart -/

section Decode

variable {queryType ctxId joinerOffset nid noff queryOrder : ℕ}

/-- The decoders and verdicts give back what was packed. -/
structure Decodes (queryType ctxId joinerOffset nid noff queryOrder : ℕ) (qid : Qid) : Prop where
  queryOrder : qorderFromQid qid = queryOrder
  ctxId : ctxIdFromQid qid = ctxId
  joinerOffset : joinerOffsetFromQid qid = joinerOffset
  neighborOffset : neighborOffsetFromQid qid = noff
  neighborId : receiverFromQid qid = nid
  isShutdown : isShutdown qid = (queryType == 1)
  isRequest : isRequest qid = (queryType == 2)
  isAnswer : isAnswer qid = (queryType == 3)

/-- A value at its place in a word. -/
structure Placed where
  value : ℕ
  shift : ℕ
  width : ℕ

/-- All values of a word. -/
def packFields (fields : List Placed) : Qid :=
  fields.foldr (fun f qid => shifted f.value f.shift ||| qid) 0

/-- The values fit, and each begins where or after the one before ends. -/
structure Tiles (fields : List Placed) : Prop where
  pairwise : fields.Pairwise (fun f g => f.shift + f.width ≤ g.shift)
  fits : ∀ f ∈ fields, f.value < 2 ^ f.width ∧ f.shift + f.width ≤ 64

lemma Tiles.tail {f : Placed} {fields : List Placed} (h : Tiles (f :: fields)) : Tiles fields :=
  ⟨(List.pairwise_cons.1 h.pairwise).2, fun g hg => h.fits g (List.mem_cons_of_mem f hg)⟩

/-- A value packed before all fields is not seen in the others. -/
lemma fieldFrom_packFields_of_disjoint {lo hi : ℕ} (hhi : hi ≤ 64) {fields : List Placed}
    (hfits : ∀ f ∈ fields, f.value < 2 ^ f.width)
    (h : ∀ f ∈ fields, f.shift + f.width ≤ lo ∨ hi ≤ f.shift) :
    fieldFrom (packFields fields) lo hi = 0 := by
  induction fields with
  | nil =>
      apply Nat.eq_of_testBit_eq
      intro k
      show (fieldFrom 0#64 lo hi).testBit k = _
      rw [testBit_fieldFrom hhi, BitVec.getLsbD_zero, Bool.and_false, Nat.zero_testBit]
  | cons f fields ih =>
      rw [List.forall_mem_cons] at hfits h
      show fieldFrom (shifted f.value f.shift ||| packFields fields) lo hi = 0
      rw [fieldFrom_or hhi, fieldFrom_shifted_of_disjoint hhi hfits.1 h.1, ih hfits.2 h.2]
      rfl

/-- Every value is read back from its place. -/
lemma fieldFrom_packFields {fields : List Placed} (h : Tiles fields) {f : Placed}
    (hf : f ∈ fields) :
    fieldFrom (packFields fields) f.shift (f.shift + f.width) = f.value := by
  induction fields with
  | nil => exact absurd hf List.not_mem_nil
  | cons g fields ih =>
      show fieldFrom (shifted g.value g.shift ||| packFields fields) _ _ = _
      have hhi := (h.fits f hf).2
      have hafter := (List.pairwise_cons.1 h.pairwise).1
      rw [fieldFrom_or hhi]
      rcases List.mem_cons.1 hf with rfl | hf
      · have hvalue : f.value < 2 ^ (f.shift + f.width - f.shift) := by
          rw [Nat.add_sub_cancel_left]
          exact (h.fits f hf).1
        rw [fieldFrom_shifted (Nat.le_add_right _ _) hhi hvalue,
          fieldFrom_packFields_of_disjoint hhi (fun g hg => (h.tail.fits g hg).1)
            (fun g hg => Or.inr (hafter g hg)), Nat.or_zero]
      · rw [ih h.tail hf, fieldFrom_shifted_of_disjoint hhi (h.fits g List.mem_cons_self).1
          (Or.inl (hafter f hf)), Nat.zero_or]

/-- The six fields of an id, from the lowest bit on. -/
def sixFields (queryType ctxId joinerOffset nid noff queryOrder : ℕ) : List Placed :=
  [⟨queryType, 0, 4⟩, ⟨queryOrder, queryOrderShift, 24⟩, ⟨joinerOffset, joinerOffsetShift, 6⟩,
    ⟨ctxId, localContextShift, 10⟩, ⟨noff, neighborOffsetShift, 10⟩, ⟨nid, neighborIdShift, 10⟩]

lemma queryIdOfFields_eq_packFields :
    queryIdOfFields queryType ctxId joinerOffset nid noff queryOrder =
      packFields (sixFields queryType ctxId joinerOffset nid noff queryOrder) := by
  apply BitVec.eq_of_getLsbD_eq
  intro i _
  have htype : BitVec.ofNat 64 queryType = shifted queryType 0 := (BitVec.shiftLeft_zero _).symm
  unfold queryIdOfFields packFields sixFields
  simp only [htype, List.foldr_cons, List.foldr_nil, BitVec.getLsbD_or, BitVec.ofNat_eq_ofNat,
    BitVec.getLsbD_zero, Bool.false_or, Bool.or_assoc, Bool.or_comm, Bool.or_left_comm]

/-- The six fields fill the word without a gap. -/
lemma tiles_sixFields (htype : queryType < 2 ^ 4) (hctx : ctxId < 2 ^ 10)
    (hjoiner : joinerOffset < 2 ^ 6) (hnid : nid < 2 ^ 10) (hnoff : noff < 2 ^ 10)
    (horder : queryOrder < 2 ^ 24) :
    Tiles (sixFields queryType ctxId joinerOffset nid noff queryOrder) := by
  constructor
  · unfold sixFields queryOrderShift joinerOffsetShift localContextShift neighborOffsetShift
      neighborIdShift
    simp
  · unfold sixFields
    simp only [List.forall_mem_cons]
    exact ⟨⟨htype, by decide⟩, ⟨horder, by decide⟩, ⟨hjoiner, by decide⟩, ⟨hctx, by decide⟩,
      ⟨hnoff, by decide⟩, ⟨hnid, by decide⟩, fun _ h => absurd h List.not_mem_nil⟩

/-- Fields that fit are read back from the id, each by its own accessor. -/
theorem decodes_queryIdOfFields (htype : queryType < 2 ^ 4) (hctx : ctxId < 2 ^ 10)
    (hjoiner : joinerOffset < 2 ^ 6) (hnid : nid < 2 ^ 10) (hnoff : noff < 2 ^ 10)
    (horder : queryOrder < 2 ^ 24) :
    Decodes queryType ctxId joinerOffset nid noff queryOrder
      (queryIdOfFields queryType ctxId joinerOffset nid noff queryOrder) := by
  have hread : ∀ f ∈ sixFields queryType ctxId joinerOffset nid noff queryOrder,
      fieldFrom (queryIdOfFields queryType ctxId joinerOffset nid noff queryOrder)
        f.shift (f.shift + f.width) = f.value := by
    intro f hf
    rw [queryIdOfFields_eq_packFields]
    exact fieldFrom_packFields (tiles_sixFields htype hctx hjoiner hnid hnoff horder) hf
  unfold sixFields at hread
  simp only [List.forall_mem_cons] at hread
  obtain ⟨hreadType, hreadOrder, hreadJoiner, hreadCtx, hreadNoff, hreadNid, -⟩ := hread
  have hverdict : ∀ t < 2 ^ 64,
      (queryIdOfFields queryType ctxId joinerOffset nid noff queryOrder &&&
        setupMask 0 queryOrderShift == BitVec.ofNat 64 t) = (queryType == t) := by
    intro t ht
    rw [and_typeMask_beq _ ht]
    exact congrArg (· == t) hreadType
  exact ⟨hreadOrder, hreadCtx, hreadJoiner, hreadNoff, hreadNid, hverdict 1 (by norm_num),
    hverdict 2 (by norm_num), hverdict 3 (by norm_num)⟩

end Decode

/-- The constructor computes the shifts and masks of the accessors; with them an id is taken apart
the way it was put together, setting and unsetting the three neighbour fields, in any order, gives
back the id, and each of these steps leaves the other fields and the verdicts alone. -/
theorem queryId_packing :
    Layout.new = layout ∧
      (∀ queryType ctxId joinerOffset nid noff queryOrder : ℕ, queryType < 2 ^ 4 → ctxId < 2 ^ 10 →
        joinerOffset < 2 ^ 6 → nid < 2 ^ 10 → noff < 2 ^ 10 → queryOrder < 2 ^ 24 →
        Decodes queryType ctxId joinerOffset nid noff queryOrder
          (queryIdOfFields queryType ctxId joinerOffset nid noff queryOrder)) ∧
      (∀ (qid : Qid) (value : NeighborField → ℕ), (∀ f : NeighborField, f.read qid = 0) →
        (∀ f, value f < 2 ^ f.width) → ∀ sets unsets : List NeighborField,
        sets.Perm all → unsets.Perm all → unsetFields unsets (setFields value sets qid) = qid) ∧
      ∀ (f : NeighborField) (qid : Qid) (value : ℕ), value < 2 ^ f.width →
        SameOutside f qid (f.set qid value) ∧ SameOutside f qid (f.unset qid) := by
  refine ⟨new_eq_layout, ?_, ?_, ?_⟩
  · intro queryType ctxId joinerOffset nid noff queryOrder htype hctx hjoiner hnid hnoff horder
    exact decodes_queryIdOfFields htype hctx hjoiner hnid hnoff horder
  · intro qid value hzero hvalue sets unsets _ hunsets
    apply unsetFields_setFields hzero hvalue sets
    intro f
    rw [hunsets.mem_iff]
    cases f <;> simp [all]
  · intro f qid value hvalue
    exact ⟨sameOutside_of_getLsbD (fun _ h => getLsbD_set qid hvalue h),
      sameOutside_of_getLsbD (fun _ h => getLsbD_unset_outside qid h)⟩

/-- An id of the context `1023` with its largest query order, and no neighbour fields. -/
def largestId : Qid := queryIdOfFields 2 1023 0 0 0 16777215

/-- All fields at their largest value are read back.  The id keeps its verdicts when the neighbour
fields are set to theirs, and these are taken off in another order than they were put on. -/
theorem queryId_packing_largest :
    Decodes 15 1023 63 1023 1023 16777215 (queryIdOfFields 15 1023 63 1023 1023 16777215) ∧
      unsetFields [.joinerOffset, .neighborId, .neighborOffset]
        (setFields (fun f => 2 ^ f.width - 1) [.neighborOffset, .joinerOffset, .neighborId]
          largestId) = largestId ∧
      ∀ f : NeighborField, SameOutside f largestId (f.set largestId (2 ^ f.width - 1)) := by
  obtain ⟨-, hdecodes, hrestores, houtside⟩ := queryId_packing
  have hvalue : ∀ f : NeighborField, 2 ^ f.width - 1 < 2 ^ f.width :=
    fun f => Nat.sub_lt (Nat.two_pow_pos _) Nat.one_pos
  refine ⟨?_, ?_, fun f => (houtside f largestId _ (hvalue f)).1⟩
  · exact hdecodes 15 1023 63 1023 1023 16777215 (by norm_num) (by norm_num) (by norm_num)
      (by norm_num) (by norm_num) (by norm_num)
  · refine hrestores largestId _ ?_ hvalue _ _ (by decide) (by decide)
    intro f
    cases f with
    | joinerOffset => rfl
    | neighborOffset => rfl
    | neighborId => rfl

end QueryID

end Dmcs
