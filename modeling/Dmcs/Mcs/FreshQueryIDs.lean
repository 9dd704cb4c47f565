import Dmcs.Mcs.JoinIsolation
import Dmcs.Mcs.QueryIDPacking

/-!
# Fresh query ids (`NormalContext::process_request`)

Every call of the joiner gets a new id, `query_id(ctx_id, ++query_counter)`.  The counter has the
width of a word and is never reset; the order field of an id has 24 bits, and nothing keeps the
counter inside it.  `freshIds_iff` says that the ids of a run are fresh exactly as long as the
joiner has been called fewer than `2 ^ 24` times: the next id has the joiner offset 1.

## The argument

An id is made of the counter by a shift, and nothing cuts the counter to the width of its field.  As
long as it fits, the ids of one context differ in the order field and in nothing else; the bits of a
larger counter fall on the field of the joiner offset.  So the ids of the first `2 ^ 24 - 1` calls
are fresh, and the next one is not.

The thread here is the one of `JoinIsolation` without its joiner: `step_ofThread` says that every
run of that thread is one of this.
-/

namespace Dmcs

open QueryID

namespace QueryCounter

variable {I : Type*}

/-- The thread of a context.  `input` is the input of the loop of `process_request`, `NULL` outside;
`ids` are the ids made so far. -/
structure State (I : Type*) where
  queryCounter : BitVec 64
  input : Option I
  ids : List Qid

/-- A new context. -/
def State.init : State I := ⟨0, none, []⟩

/-- What the thread does next, with what the joiner returns: `first_join` for a new request,
`next_join` after `process_input` returned `false`, or leaving the loop after it returned `true`. -/
inductive Action (I : Type*)
  | request (input : Option I)
  | next (input : Option I)
  | stop

/-- `this_qid = query_id(ctx_id, ++query_counter)`, and a call of the joiner. -/
def State.call (ctxId : ℕ) (s : State I) (input : Option I) : State I :=
  let queryCounter := s.queryCounter + 1
  ⟨queryCounter, input, s.ids ++ [queryId ctxId queryCounter.toNat]⟩

/-- One step of the thread; the loop ends at `NULL`. -/
def step (ctxId : ℕ) (s : State I) : Action I → Option (State I)
  | .request input => if s.input.isSome then none else some (s.call ctxId input)
  | .next input => if s.input.isSome then some (s.call ctxId input) else none
  | .stop => if s.input.isSome then some { s with input := none } else none

/-- The step calls the joiner. -/
def Action.isCall : Action I → Bool
  | .request _ => true
  | .next _ => true
  | .stop => false

/-- How often a run calls the joiner. -/
def calls (actions : List (Action I)) : ℕ := actions.countP Action.isCall

/-- The decoders find a request of the context and three empty fields, and what `ask_neighbor` sets
in these fields is what they find afterwards. -/
structure IsFresh (ctxId : ℕ) (qid : Qid) : Prop where
  isRequest : isRequest qid = true
  context : ctxIdFromQid qid = ctxId
  empty : ∀ f : NeighborField, f.read qid = 0
  forward : ∀ nid noff joff, nid < 2 ^ 10 → noff < 2 ^ 10 → joff < 2 ^ 6 →
    receiverFromQid (forwardQid qid nid noff joff) = nid ∧
      neighborOffsetFromQid (forwardQid qid nid noff joff) = noff ∧
      joinerOffsetFromQid (forwardQid qid nid noff joff) = joff ∧
      ctxIdFromQid (forwardQid qid nid noff joff) = ctxId ∧
      QueryID.isRequest (forwardQid qid nid noff joff) = true

/-- The ids of a run are pairwise distinct and fresh. -/
def FreshIds (ctxId : ℕ) (s : State I) : Prop :=
  s.ids.Nodup ∧ ∀ qid ∈ s.ids, IsFresh ctxId qid

/-! ## One id -/

variable {ctxId queryOrder : ℕ}

/-- The id a context forwards has all six fields. -/
lemma forwardQid_queryId (ctxId queryOrder nid noff joff : ℕ) :
    forwardQid (queryId ctxId queryOrder) nid noff joff =
      queryIdOfFields 2 ctxId joff nid noff queryOrder := by
  apply BitVec.eq_of_getLsbD_eq
  intro i _
  have htwo : (2 : Qid) = BitVec.ofNat 64 2 := rfl
  unfold forwardQid setJoinerOffset setNeighborOffset setNeighborId queryId queryIdOfFields
  rw [htwo]
  simp only [BitVec.getLsbD_or, Bool.or_assoc, Bool.or_comm, Bool.or_left_comm]

lemma queryId_eq (ctxId queryOrder : ℕ) :
    queryId ctxId queryOrder = queryIdOfFields 2 ctxId 0 0 0 queryOrder := by
  have hzero : ∀ shift, shifted 0 shift = 0 := fun shift => BitVec.zero_shiftLeft shift
  rw [← forwardQid_queryId]
  unfold forwardQid setJoinerOffset setNeighborOffset setNeighborId
  rw [hzero, hzero, hzero]
  simp only [BitVec.ofNat_eq_ofNat, BitVec.or_zero]

/-- Only the word of the counter counts. -/
lemma queryId_toNat_ofNat (ctxId n : ℕ) :
    queryId ctxId (BitVec.ofNat 64 n).toNat = queryId ctxId n := by
  unfold queryId shifted
  rw [BitVec.ofNat_toNat, BitVec.setWidth_eq]

lemma isFresh_queryId (hctx : ctxId < 2 ^ 10) (horder : queryOrder < 2 ^ 24) :
    IsFresh ctxId (queryId ctxId queryOrder) := by
  have hdecodes : ∀ nid noff joff, nid < 2 ^ 10 → noff < 2 ^ 10 → joff < 2 ^ 6 →
      Decodes 2 ctxId joff nid noff queryOrder
        (queryIdOfFields 2 ctxId joff nid noff queryOrder) := by
    intro nid noff joff hnid hnoff hjoff
    exact decodes_queryIdOfFields (by norm_num) hctx hjoff hnid hnoff horder
  have hself := hdecodes 0 0 0 (by norm_num) (by norm_num) (by norm_num)
  rw [← queryId_eq] at hself
  refine ⟨hself.isRequest, hself.ctxId, ?_, ?_⟩
  · intro f
    cases f with
    | joinerOffset => exact hself.joinerOffset
    | neighborOffset => exact hself.neighborOffset
    | neighborId => exact hself.neighborId
  · intro nid noff joff hnid hnoff hjoff
    rw [forwardQid_queryId]
    have h := hdecodes nid noff joff hnid hnoff hjoff
    exact ⟨h.neighborId, h.neighborOffset, h.joinerOffset, h.ctxId, h.isRequest⟩

/-- Orders that fit their field make different ids. -/
lemma queryId_injective (hctx : ctxId < 2 ^ 10) {m n : ℕ} (hm : m < 2 ^ 24) (hn : n < 2 ^ 24)
    (h : queryId ctxId m = queryId ctxId n) : m = n := by
  have horder : ∀ k < 2 ^ 24, qorderFromQid (queryId ctxId k) = k := by
    intro k hk
    rw [queryId_eq]
    exact (decodes_queryIdOfFields (by norm_num) hctx (by norm_num) (by norm_num) (by norm_num)
      hk).queryOrder
  rw [← horder m hm, ← horder n hn, h]

/-- The first order that does not fit spills into the joiner offset. -/
lemma not_isFresh_queryId (ctxId : ℕ) : ¬ IsFresh ctxId (queryId ctxId (2 ^ 24)) := by
  intro h
  have hjoiner := (h.forward 0 0 0 (by norm_num) (by norm_num) (by norm_num)).2.2.1
  have hbit := testBit_joinerOffset_forward ctxId (2 ^ 24) 0 0 0 0
  rw [hjoiner, Nat.zero_testBit, Nat.testBit_two_pow_self] at hbit
  exact Bool.false_ne_true hbit

/-! ## Runs -/

/-- The counter counts the calls, and the ids are those of its values. -/
structure Counts (ctxId n : ℕ) (s : State I) : Prop where
  queryCounter : s.queryCounter = BitVec.ofNat 64 n
  ids : s.ids = (List.range n).map (fun i => queryId ctxId (i + 1))

lemma Counts.init (ctxId : ℕ) : Counts ctxId 0 (State.init : State I) := ⟨rfl, rfl⟩

lemma Counts.call {n : ℕ} {s : State I} (h : Counts ctxId n s) (input : Option I) :
    Counts ctxId (n + 1) (s.call ctxId input) := by
  have hcounter : s.queryCounter + 1 = BitVec.ofNat 64 (n + 1) := by
    rw [h.queryCounter, BitVec.ofNat_add]
    rfl
  refine ⟨hcounter, ?_⟩
  show s.ids ++ [queryId ctxId (s.queryCounter + 1).toNat] = _
  rw [hcounter, queryId_toNat_ofNat, h.ids, List.range_succ, List.map_append]
  rfl

lemma Counts.step {n : ℕ} {s s' : State I} {a : Action I} (h : Counts ctxId n s)
    (hstep : step ctxId s a = some s') : Counts ctxId (n + calls [a]) s' := by
  unfold QueryCounter.step at hstep
  cases a with
  | request input =>
      simp only at hstep
      split at hstep
      · exact absurd hstep (Option.some_ne_none _).symm
      · rw [← Option.some.inj hstep]
        exact h.call input
  | next input =>
      simp only at hstep
      split at hstep
      · rw [← Option.some.inj hstep]
        exact h.call input
      · exact absurd hstep (Option.some_ne_none _).symm
  | stop =>
      simp only at hstep
      split at hstep
      · rw [← Option.some.inj hstep]
        exact ⟨h.queryCounter, h.ids⟩
      · exact absurd hstep (Option.some_ne_none _).symm

lemma Counts.run {actions : List (Action I)} {n : ℕ} {s s' : State I} (h : Counts ctxId n s)
    (hrun : actions.foldlM (QueryCounter.step ctxId) s = some s') :
    Counts ctxId (n + calls actions) s' := by
  induction actions generalizing n s with
  | nil =>
      rw [← Option.some.inj hrun]
      exact h
  | cons a actions ih =>
      rw [List.foldlM_cons] at hrun
      obtain ⟨s₁, hstep, hrun⟩ := Option.bind_eq_some_iff.1 hrun
      have hcalls : calls (a :: actions) = calls [a] + calls actions := by
        unfold calls
        rw [← List.countP_append, List.singleton_append]
      rw [hcalls, ← Nat.add_assoc]
      exact ih (h.step hstep) hrun

/-- In every run the ids are pairwise distinct and fresh if and only if the joiner was called fewer
than `2 ^ 24` times.  `actions` are all steps of the run, of which only the calls of the joiner make
an id. -/
theorem freshIds_iff (hctx : ctxId < 2 ^ 10) {actions : List (Action I)} {s : State I}
    (hrun : actions.foldlM (step ctxId) State.init = some s) :
    FreshIds ctxId s ↔ calls actions < 2 ^ 24 := by
  have hids := ((Counts.init ctxId).run hrun).ids
  rw [Nat.zero_add] at hids
  unfold FreshIds
  rw [hids]
  constructor
  · rintro ⟨-, hfresh⟩
    by_contra hcalls
    apply not_isFresh_queryId ctxId
    apply hfresh
    rw [List.mem_map]
    refine ⟨2 ^ 24 - 1, List.mem_range.2 (by omega), ?_⟩
    rw [Nat.sub_add_cancel (Nat.one_le_two_pow)]
  · intro hcalls
    constructor
    · apply List.nodup_range.map_on
      intro i hi j hj hij
      rw [List.mem_range] at hi hj
      exact Nat.succ.inj (queryId_injective hctx (by omega) (by omega) hij)
    · rw [List.forall_mem_map]
      intro i hi
      rw [List.mem_range] at hi
      exact isFresh_queryId hctx (by omega)

/-- Requests whose first join has no result. -/
lemma run_replicate (ctxId n : ℕ) (s : State I) (hs : s.input = none) :
    ∃ s', (List.replicate n (Action.request (none : Option I))).foldlM (step ctxId) s = some s' ∧
      s'.input = none := by
  induction n generalizing s with
  | zero => exact ⟨s, rfl, hs⟩
  | succ n ih =>
      obtain ⟨s', hrun, hs'⟩ := ih (s.call ctxId none) rfl
      refine ⟨s', ?_, hs'⟩
      rw [List.replicate_succ, List.foldlM_cons]
      have hstep : step ctxId s (.request none) = some (s.call ctxId none) := by
        unfold step
        rw [hs]
        rfl
      rw [hstep]
      exact hrun

/-- One request that asks for two inputs. -/
theorem freshIds_iff_twoInputs :
    ∃ s : State Bool, [Action.request (some true), .next (some false), .next none].foldlM
      (step 1023) State.init = some s ∧ FreshIds 1023 s := by
  refine ⟨_, rfl, ?_⟩
  have hrun : [Action.request (some true), .next (some false), .next none].foldlM (step 1023)
      (State.init : State Bool) = some _ := rfl
  apply (freshIds_iff (by norm_num) hrun).2
  show 3 < 2 ^ 24
  norm_num

/-- After `2 ^ 24` requests the last id is not fresh. -/
theorem freshIds_fails :
    ¬ ∀ ctxId < 2 ^ 10, ∀ (actions : List (Action Unit)) (s : State Unit),
      actions.foldlM (step ctxId) State.init = some s → FreshIds ctxId s := by
  intro hall
  obtain ⟨s, hrun, -⟩ := run_replicate 0 (2 ^ 24) (State.init : State Unit) rfl
  have hids := ((Counts.init 0).run hrun).ids
  have hcalls : calls (List.replicate (2 ^ 24) (Action.request (none : Option Unit))) = 2 ^ 24 := by
    unfold calls
    rw [List.countP_replicate]
    rfl
  rw [Nat.zero_add, hcalls] at hids
  apply not_isFresh_queryId 0
  apply (hall 0 (by norm_num) _ s hrun).2
  rw [hids, List.mem_map]
  refine ⟨2 ^ 24 - 1, List.mem_range.2 (by omega), ?_⟩
  rw [Nat.sub_add_cancel (Nat.one_le_two_pow)]

/-! ## The thread with its joiner -/

section Simulation

open JoinIsolation StreamingJoiner

variable {bso : BeliefStateOffset} {c : Context} {env : Environment bso}

/-- The counter of a thread, and the ids it has made. -/
def ofThread (c : Context) (s : JoinIsolation.State bso) :
    State (Finset ℕ × NewBeliefState bso.width) where
  queryCounter := BitVec.ofNat 64 s.queryCounter
  input := s.processing
  ids := (List.range s.queryCounter).map (fun i => queryId c.ctxId (i + 1))

lemma call_ofThread (s : JoinIsolation.State bso) (joiner : StreamingJoiner.State bso)
    (processing : Option (Finset ℕ × NewBeliefState bso.width)) (fault : Option Fault) :
    ofThread c ⟨joiner, s.queryCounter + 1, processing, fault⟩ =
      (ofThread c s).call c.ctxId processing := by
  have hcounter : BitVec.ofNat 64 s.queryCounter + 1 = BitVec.ofNat 64 (s.queryCounter + 1) := by
    rw [BitVec.ofNat_add]
    rfl
  unfold ofThread State.call
  simp only
  rw [hcounter, queryId_toNat_ofNat, List.range_succ, List.map_append]
  rfl

/-- A call that comes back is a call of the counter. -/
lemma returned_ofThread {s s' : JoinIsolation.State bso} {history : Finset ℕ}
    {result : Except Fault (ReturnedBeliefState bso × StreamingJoiner.State bso)}
    (h : s.returned history result = some s') :
    ofThread c s' = (ofThread c s).call c.ctxId s'.processing := by
  unfold JoinIsolation.State.returned at h
  split at h
  · exact absurd h (Option.some_ne_none _).symm
  · rw [← Option.some.inj h]
    exact call_ofThread s _ _ _
  · rw [← Option.some.inj h]
    exact call_ofThread s _ _ _

/-- Every step of the thread with its joiner is a step of the counter. -/
theorem step_ofThread {s s' : JoinIsolation.State bso} {a : JoinIsolation.Action}
    (hstep : JoinIsolation.step c env s a = some s') :
    ∃ a', step c.ctxId (ofThread c s) a' = some (ofThread c s') := by
  unfold JoinIsolation.step at hstep
  cases a with
  | request history fuel =>
      simp only at hstep
      split at hstep
      · exact absurd hstep (Option.some_ne_none _).symm
      · rename_i hidle
        rw [Bool.or_eq_true, not_or] at hidle
        refine ⟨.request s'.processing, ?_⟩
        show (if s.processing.isSome then none else some _) = _
        rw [if_neg hidle.2, returned_ofThread hstep]
  | next fuel =>
      simp only at hstep
      split at hstep
      · rename_i hinput
        refine ⟨.next s'.processing, ?_⟩
        show (if s.processing.isSome then some _ else none) = _
        rw [hinput, returned_ofThread hstep]
        rfl
      · exact absurd hstep (Option.some_ne_none _).symm
  | stop =>
      simp only at hstep
      split at hstep
      · rename_i hinput
        refine ⟨.stop, ?_⟩
        show (if s.processing.isSome then some _ else none) = _
        rw [hinput, ← Option.some.inj hstep]
        rfl
      · exact absurd hstep (Option.some_ne_none _).symm

end Simulation

end QueryCounter

end Dmcs
