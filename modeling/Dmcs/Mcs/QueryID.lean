import Mathlib.Data.Nat.Bitwise
import Mathlib.Tactic.Common
import Mathlib.Tactic.IntervalCases

/-!
# Query ids (`QueryID`)

A query id packs six fields into 64 bits: 4 bits query type, 24 bits query order, 6 bits joiner
offset, 10 bits context id, 10 bits neighbour offset and 10 bits neighbour id.  The setters `or` a
value into its field without cutting it to the width of the field, and the getters mask and shift.

A context forwards its own id with the three neighbour fields set; the neighbours echo it, and the
joiner reads the neighbour offset back and strips the three fields again.  `stripped_forward` and
`neighborOffset_forward` are what the joiner relies on.

All fields are read by `fieldFrom`, with the shift of the field and that of the next one, and
written by `shifted`.  `Plain` is an id whose neighbour fields are zero, as `query_id` makes it when
its arguments fit.  The three neighbour fields are set on the way to a neighbour and removed on the
way back, so the lemmas here are about a plain id, and about one field at a time.
-/

namespace Dmcs

/-- A query id. -/
abbrev Qid := BitVec 64

namespace QueryID

/-- `setupMask`: the bits from `lo` up to `hi`, set one after the other. -/
def setupMask (lo hi : ℕ) : Qid :=
  (List.range' lo (hi - lo)).foldl (fun mask i => mask ||| 1#64 <<< i) 0#64

/-- `QUERY_ORDER_SHIFT` for a 64-bit `std::size_t`; the other shifts follow. -/
def queryOrderShift : ℕ := 4

/-- `JOINER_OFFSET_SHIFT`. -/
def joinerOffsetShift : ℕ := 28

/-- `LOCAL_CONTEXT_SHIFT`. -/
def localContextShift : ℕ := 34

/-- `NEIGHBOR_OFFSET_SHIFT`. -/
def neighborOffsetShift : ℕ := 44

/-- `NEIGHBOR_ID_SHIFT`. -/
def neighborIdShift : ℕ := 54

/-- A value shifted to the position of its field. -/
def shifted (value shift : ℕ) : Qid := BitVec.ofNat 64 value <<< shift

/-- The field from `lo` up to `hi`. -/
def fieldFrom (qid : Qid) (lo hi : ℕ) : ℕ := ((qid &&& setupMask lo hi) >>> lo).toNat

/-- `query_id(ctx_id, query_order)`, of type `TYPE_REQUEST`. -/
def queryId (ctxId queryOrder : ℕ) : Qid :=
  2 ||| shifted queryOrder queryOrderShift ||| shifted ctxId localContextShift

/-- `shutdown_query_id(ctx_id, neighbor_id)`, of type `TYPE_SHUTDOWN`. -/
def shutdownQueryId (ctxId nid : ℕ) : Qid :=
  1 ||| shifted ctxId localContextShift ||| shifted nid neighborIdShift

/-- `is_shutdown`. -/
def isShutdown (qid : Qid) : Bool := qid &&& setupMask 0 queryOrderShift == 1

/-- `is_request`. -/
def isRequest (qid : Qid) : Bool := qid &&& setupMask 0 queryOrderShift == 2

/-- `ctxid_from_qid`, of which `invoker_from_qid` is a synonym. -/
def ctxIdFromQid (qid : Qid) : ℕ := fieldFrom qid localContextShift neighborOffsetShift

/-- `joiner_offset_from_qid`. -/
def joinerOffsetFromQid (qid : Qid) : ℕ := fieldFrom qid joinerOffsetShift localContextShift

/-- `neighbor_offset_from_qid`. -/
def neighborOffsetFromQid (qid : Qid) : ℕ := fieldFrom qid neighborOffsetShift neighborIdShift

/-- `receiver_from_qid`, the neighbour id. -/
def receiverFromQid (qid : Qid) : ℕ := fieldFrom qid neighborIdShift 64

/-- `set_neighbor_id`. -/
def setNeighborId (qid : Qid) (nid : ℕ) : Qid := qid ||| shifted nid neighborIdShift

/-- `set_neighbor_offset`. -/
def setNeighborOffset (qid : Qid) (noff : ℕ) : Qid := qid ||| shifted noff neighborOffsetShift

/-- `set_joiner_offset`. -/
def setJoinerOffset (qid : Qid) (joff : ℕ) : Qid := qid ||| shifted joff joinerOffsetShift

/-- `unset_neighbor_id`. -/
def unsetNeighborId (qid : Qid) : Qid := qid &&& ~~~(setupMask neighborIdShift 64)

/-- `unset_neighbor_offset`. -/
def unsetNeighborOffset (qid : Qid) : Qid :=
  qid &&& ~~~(setupMask neighborOffsetShift neighborIdShift)

/-- `unset_joiner_offset`. -/
def unsetJoinerOffset (qid : Qid) : Qid :=
  qid &&& ~~~(setupMask joinerOffsetShift localContextShift)

/-- The id under which `ask_neighbor` asks a neighbour. -/
def forwardQid (qid : Qid) (nid noff joff : ℕ) : Qid :=
  setJoinerOffset (setNeighborOffset (setNeighborId qid nid) noff) joff

/-- The id `ask_first_packs` compares with the one it was called with. -/
def strippedQid (qid : Qid) : Qid :=
  unsetJoinerOffset (unsetNeighborOffset (unsetNeighborId qid))

lemma isShutdown_of_isRequest {qid : Qid} (h : isRequest qid = true) : isShutdown qid = false := by
  rw [isRequest, beq_iff_eq] at h
  rw [isShutdown, h]
  rfl

lemma getLsbD_shifted (value shift i : ℕ) :
    (shifted value shift).getLsbD i =
      (decide (i < 64) && decide (shift ≤ i) && value.testBit (i - shift)) := by
  rw [shifted, BitVec.getLsbD_shiftLeft, BitVec.getLsbD_ofNat]
  by_cases hi : i < 64
  · by_cases hs : shift ≤ i
    · have h1 : ¬ i < shift := by omega
      have h2 : i - shift < 64 := by omega
      simp [hi, hs, h2]
    · have h1 : i < shift := by omega
      simp [hs, h1]
  · simp [hi]

lemma getLsbD_setupMask {lo hi : ℕ} (hhi : hi ≤ 64) (i : ℕ) :
    (setupMask lo hi).getLsbD i = (decide (lo ≤ i) && decide (i < hi)) := by
  have key : ∀ (n lo : ℕ) (m : Qid), lo + n ≤ 64 →
      ((List.range' lo n).foldl (fun mask i => mask ||| 1#64 <<< i) m).getLsbD i =
        (m.getLsbD i || (decide (lo ≤ i) && decide (i < lo + n))) := by
    intro n
    induction n with
    | zero => intro lo m _; simp
    | succ n ih =>
        intro lo m h
        rw [List.range'_succ, List.foldl_cons, ih (lo + 1) _ (by omega), BitVec.getLsbD_or]
        have hone : (1#64 <<< lo).getLsbD i = decide (i = lo) := by
          rw [BitVec.getLsbD_shiftLeft, BitVec.getLsbD_one]
          by_cases hi : i = lo
          · subst hi
            simp; omega
          · by_cases hlt : i < lo
            · simp [hlt, hi]
            · have : ¬ i - lo = 0 := by omega
              simp [this, hi]
        rw [hone, Bool.or_assoc]
        congr 1
        by_cases hi : i = lo
        · subst hi; simp
        · have h1 : lo + 1 ≤ i ↔ lo ≤ i := by omega
          have h2 : i < lo + 1 + n ↔ i < lo + (n + 1) := by omega
          simp [hi, h1, h2]
  by_cases h : lo ≤ hi
  · rw [setupMask, key _ _ _ (by omega)]
    simp only [BitVec.getLsbD_zero, Bool.false_or]
    congr 2
    exact propext ⟨fun h' => by omega, fun h' => by omega⟩
  · rw [setupMask, show hi - lo = 0 by omega]
    simp
    omega

/-- The bits a forwarded id adds lie in the three neighbour fields. -/
lemma getLsbD_forwardQid (qid : Qid) (nid noff joff i : ℕ) :
    (forwardQid qid nid noff joff).getLsbD i =
      (qid.getLsbD i || (shifted nid 54).getLsbD i || (shifted noff 44).getLsbD i ||
        (shifted joff 28).getLsbD i) := by
  simp only [forwardQid, setJoinerOffset, setNeighborOffset, setNeighborId, neighborIdShift,
    neighborOffsetShift, joinerOffsetShift, BitVec.getLsbD_or]

/-- A value that fits its field has no bit above it. -/
lemma getLsbD_shifted_of_lt {value width : ℕ} (h : value < 2 ^ width) (shift i : ℕ)
    (hi : shift + width ≤ i) : (shifted value shift).getLsbD i = false := by
  have hbit : value.testBit (i - shift) = false :=
    Nat.testBit_lt_two_pow (lt_of_lt_of_le h (Nat.pow_le_pow_right (by omega) (by omega)))
  simp [getLsbD_shifted, hbit]

lemma getLsbD_shifted_of_gt (value : ℕ) {shift i : ℕ} (hi : i < shift) :
    (shifted value shift).getLsbD i = false := by
  have : ¬ shift ≤ i := by omega
  simp [getLsbD_shifted, this]

/-- The id of a context: its order and its id fit their fields, the neighbour fields are empty. -/
structure Plain (qid : Qid) : Prop where
  joiner : ∀ i, 28 ≤ i → i < 34 → qid.getLsbD i = false
  neighbor : ∀ i, 44 ≤ i → qid.getLsbD i = false

/-- The type of a query is below its other fields. -/
lemma getLsbD_typeRequest {i : ℕ} (hi : 4 ≤ i) : (2 : Qid).getLsbD i = false := by
  by_cases h : i < 64
  · interval_cases i <;> rfl
  · exact BitVec.getLsbD_of_ge _ _ (by omega)

lemma plain_queryId {ctxId queryOrder : ℕ} (hctx : ctxId < 2 ^ 10) (horder : queryOrder < 2 ^ 24) :
    Plain (queryId ctxId queryOrder) := by
  refine ⟨fun i h1 h2 => ?_, fun i h1 => ?_⟩
  · rw [queryId, BitVec.getLsbD_or, BitVec.getLsbD_or, getLsbD_typeRequest (by omega),
      getLsbD_shifted_of_lt horder _ _ (by rw [queryOrderShift]; omega),
      getLsbD_shifted_of_gt _ (by rw [localContextShift]; omega)]
    rfl
  · rw [queryId, BitVec.getLsbD_or, BitVec.getLsbD_or, getLsbD_typeRequest (by omega),
      getLsbD_shifted_of_lt horder _ _ (by rw [queryOrderShift]; omega),
      getLsbD_shifted_of_lt hctx _ _ (by rw [localContextShift]; omega)]
    rfl

variable {qid : Qid} {noff joff : ℕ}

/-- Stripping the three fields gives back the id that was forwarded. -/
theorem stripped_forward (hq : Plain qid) (nid noff : ℕ) (hjoff : joff < 2 ^ 6) :
    strippedQid (forwardQid qid nid noff joff) = qid := by
  refine BitVec.eq_of_getLsbD_eq (fun i hi => ?_)
  simp only [strippedQid, unsetJoinerOffset, unsetNeighborOffset, unsetNeighborId,
    BitVec.getLsbD_and, BitVec.getLsbD_not, hi, decide_true, Bool.true_and,
    getLsbD_setupMask (le_refl 64), neighborIdShift, neighborOffsetShift, joinerOffsetShift,
    localContextShift, getLsbD_setupMask (show 54 ≤ 64 by omega),
    getLsbD_setupMask (show 34 ≤ 64 by omega), getLsbD_forwardQid]
  by_cases h1 : i < 28
  · rw [getLsbD_shifted_of_gt nid (by omega), getLsbD_shifted_of_gt noff (by omega),
      getLsbD_shifted_of_gt joff h1]
    have : ¬ 54 ≤ i ∧ ¬ 44 ≤ i ∧ ¬ 28 ≤ i := by omega
    simp [this]
  · by_cases h2 : i < 34
    · have : 28 ≤ i := by omega
      simp [hq.joiner i this h2, this, h2]
    · by_cases h3 : i < 44
      · rw [getLsbD_shifted_of_gt nid (by omega), getLsbD_shifted_of_gt noff h3,
          getLsbD_shifted_of_lt hjoff _ _ (by omega)]
        have : ¬ 54 ≤ i ∧ ¬ 44 ≤ i ∧ ¬ i < 34 := by omega
        simp [this]
      · have h4 : 44 ≤ i := by omega
        rw [hq.neighbor i h4]
        by_cases h5 : i < 54
        · simp [h4, h5]
        · have : 54 ≤ i := by omega
          simp [this, hi]

/-- The neighbour offset is read back. -/
theorem neighborOffset_forward (hq : Plain qid) (nid : ℕ) (hnoff : noff < 2 ^ 10)
    (hjoff : joff < 2 ^ 6) : neighborOffsetFromQid (forwardQid qid nid noff joff) = noff := by
  refine Nat.eq_of_testBit_eq (fun i => ?_)
  rw [neighborOffsetFromQid, fieldFrom, BitVec.testBit_toNat, BitVec.getLsbD_ushiftRight,
    BitVec.getLsbD_and, getLsbD_forwardQid, neighborOffsetShift, neighborIdShift,
    getLsbD_setupMask (show 54 ≤ 64 by omega)]
  by_cases hi : i < 10
  · rw [hq.neighbor _ (by omega), getLsbD_shifted_of_gt nid (by omega),
      getLsbD_shifted_of_lt hjoff _ _ (by omega), getLsbD_shifted]
    have : 44 + i < 64 ∧ 44 + i < 54 := by omega
    simp [this]
  · have h1 : noff.testBit i = false :=
      Nat.testBit_lt_two_pow (lt_of_lt_of_le hnoff (Nat.pow_le_pow_right (by omega) (by omega)))
    have h2 : ¬ 44 + i < 54 := by omega
    simp [h1, h2]

/-- The joiner offset that is read back has the bits of the offset that was set, and the bits of the
query order that reach into its field. -/
theorem testBit_joinerOffset_forward (ctxId queryOrder nid noff joff k : ℕ) :
    (joinerOffsetFromQid (forwardQid (queryId ctxId queryOrder) nid noff joff)).testBit k =
      (decide (k < 6) && (queryOrder.testBit (24 + k) || joff.testBit k)) := by
  rw [joinerOffsetFromQid, fieldFrom, BitVec.testBit_toNat, BitVec.getLsbD_ushiftRight,
    BitVec.getLsbD_and, getLsbD_forwardQid, joinerOffsetShift, localContextShift,
    getLsbD_setupMask (show 34 ≤ 64 by omega)]
  by_cases hk : k < 6
  · rw [queryId, BitVec.getLsbD_or, BitVec.getLsbD_or, getLsbD_typeRequest (by omega),
      getLsbD_shifted_of_gt ctxId (by rw [localContextShift]; omega),
      getLsbD_shifted_of_gt nid (by omega), getLsbD_shifted_of_gt noff (by omega),
      getLsbD_shifted, getLsbD_shifted, queryOrderShift]
    have hsub : 28 + k - 4 = 24 + k ∧ 28 + k - 28 = k := by omega
    have hlt : 28 + k < 64 ∧ 4 ≤ 28 + k ∧ 28 + k < 34 := by omega
    simp [hsub, hlt, hk]
  · have hge : ¬ 28 + k < 34 := by omega
    simp [hk, hge]

end QueryID

end Dmcs
