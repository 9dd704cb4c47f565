import Dmcs.Mcs.BridgeRuleEvaluator
import Dmcs.Parser.BridgeRuleGrammar

/-!
# From bridge rules to the solver input (`satisfied`, `DLVEvaluator::reset_process`)

`satisfied` and `evaluate_bridge_rules` over the rules as the table stores them, with packed ids and
with the assertions they make on the way: an id names a belief, its context has a block, and a
position lies inside the state.  `resetProcess` then walks over the heads with the cursor of the
belief state, looks every head up in the belief table of the context and appends its text to the
local program.

`resetProcess_facts` says what the solver reads: one fact for every head of a satisfied rule, in the
order of the addresses.

## The argument

A rule fires when all literals of its body hold (`BodyHolds`), and a verdict of the loop over the
body, when it reaches one, says whether they do.  The heads state collects the positions of the
heads of the rules that fire; it is a set, so a head that several rules share is there once.

`reset_process` walks over the `TRUE` bits of the heads state with the cursor, so the facts come in
the order of the positions, which for the beliefs of one context is the order of the addresses.  It
looks every position up as an address in the table of the context.  That no lookup fails is the
second half of `resetProcess_facts`: it is enough that every id of a rule is a position of the state
and every head a belief of the context.
-/

namespace Dmcs

open BitScan

variable {bso : BeliefStateOffset}

/-! ## Rules with packed ids -/

/-- Position of a belief in a state; `contextID` asserts that the id names a belief, and the context
indexes the vector of offsets. -/
def ID.globalAddress (bso : BeliefStateOffset) (id : ID) : Option ℕ :=
  if id.isBelief = true ∧ id.contextID.toNat < bso.noBlocks then
    some (id.address + bso.startingOffset id.contextID.toNat)
  else none

namespace NewBeliefState

variable {w : ℕ}

/-- `test(pos)` with its assertion. -/
def testAt (s : NewBeliefState w) (pos : ℕ) : Option TruthVal :=
  if pos < w then some (s.test pos) else none

/-- `set(pos)` with its assertion. -/
def setAt (s : NewBeliefState w) (pos : ℕ) : Option (NewBeliefState w) :=
  if pos < w then some (s.set pos .dmcsTrue) else none

end NewBeliefState

namespace StoredBridgeRule

/-- The loop of `satisfied` over the body. -/
def satisfiedLoop (input : NewBeliefState bso.width) : List ID → Option Bool
  | [] => some true
  | it :: body => do
      let val ← (it.globalAddress bso).bind input.testAt
      if it.isNaf then
        if val = .dmcsTrue then some false else satisfiedLoop input body
      else if val ≠ .dmcsTrue then some false
      else satisfiedLoop input body

/-- `satisfied(r, input)`. -/
def satisfied (r : StoredBridgeRule) (input : NewBeliefState bso.width) : Option Bool :=
  satisfiedLoop input r.body

/-- One round of the loop over the table. -/
def evaluate (input h : NewBeliefState bso.width) (r : StoredBridgeRule) :
    Option (NewBeliefState bso.width) := do
  if ← r.satisfied input then
    let global_address ← r.head.globalAddress bso
    h.setAt global_address
  else some h

end StoredBridgeRule

/-- `evaluate_bridge_rules`: the heads belief state. -/
def BridgeRuleTable.evaluateBridgeRules (brtab : BridgeRuleTable)
    (input : NewBeliefState bso.width) : Option (NewBeliefState bso.width) :=
  brtab.rules.foldlM (StoredBridgeRule.evaluate input) (NewBeliefState.empty bso.width)

namespace DLVEvaluator

/-- The address `reset_process` computes for a position: `std::size_t` subtraction, cut off to the
32 bits of an `IDAddress`. -/
def addressOf (bso : BeliefStateOffset) (ctx_id pos : ℕ) : ℕ :=
  (BitVec.ofNat 64 pos - BitVec.ofNat 64 (bso.startingOffset ctx_id)).toNat % 2 ^ 32

/-- The loop over the heads; `btab->getByID` throws for an address that is not in the table.  `fuel`
bounds the number of positions. -/
def writeHeads (btab : BeliefTable) (ctx_id : ℕ) (head_input : NewBeliefState bso.width) :
    ℕ → ℕ → Text → Option Text
  | 0, _, _ => none
  | fuel + 1, pos, programStream =>
      if pos = 0 then some programStream
      else do
        let id : ID := ⟨ID.MAINKIND_BELIEF ||| BitVec.ofNat 32 ctx_id, addressOf bso ctx_id pos⟩
        let belief ← btab.getByID id
        writeHeads btab ctx_id head_input fuel (head_input.getNext pos)
          (programStream ++ belief.text ++ ".\n".toList)

/-- What `reset_process` writes to the solver: the local program and the heads. -/
def resetProcess (btab : BeliefTable) (ctx_id : ℕ) (local_kb : Text)
    (head_input : NewBeliefState bso.width) : Option Text :=
  writeHeads btab ctx_id head_input (bso.width + 1) head_input.getFirst local_kb

end DLVEvaluator

/-! ## When a rule fires -/

/-- A positive literal is `TRUE` in the input, a negated one is not. -/
def ID.HoldsIn (input : NewBeliefState bso.width) (l : ID) : Prop :=
  input.test (l.address + bso.startingOffset l.contextID.toNat) = .dmcsTrue ↔ l.isNaf = false

/-- The id passes the assertions: it names a belief at a position of the state. -/
def ID.Inside (bso : BeliefStateOffset) (l : ID) : Prop :=
  ∃ pos, l.globalAddress bso = some pos ∧ pos < bso.width

instance (l : ID) : Decidable (l.Inside bso) :=
  decidable_of_iff ((l.globalAddress bso).any (· < bso.width) = true)
    ((Option.any_eq_true ..).trans (by simp only [decide_eq_true_eq]; exact Iff.rfl))

section

variable {input : NewBeliefState bso.width} {l : ID}

lemma ID.globalAddress_eq {pos : ℕ} (h : l.globalAddress bso = some pos) :
    pos = l.address + bso.startingOffset l.contextID.toNat := by
  unfold ID.globalAddress at h
  split at h
  · exact (Option.some_inj.1 h).symm
  · exact absurd h.symm (Option.some_ne_none pos)

/-- What `test` reads is the value of the literal's belief. -/
lemma ID.testAt_eq {val : TruthVal} (h : (l.globalAddress bso).bind input.testAt = some val) :
    val = input.test (l.address + bso.startingOffset l.contextID.toNat) := by
  obtain ⟨pos, hpos, htest⟩ := Option.bind_eq_some_iff.1 h
  unfold NewBeliefState.testAt at htest
  split at htest
  · rw [← globalAddress_eq hpos]
    exact (Option.some_inj.1 htest).symm
  · exact absurd htest.symm (Option.some_ne_none val)

lemma ID.Inside.testAt_isSome (hl : l.Inside bso) (input : NewBeliefState bso.width) :
    ((l.globalAddress bso).bind input.testAt).isSome = true := by
  obtain ⟨pos, hpos, hlt⟩ := hl
  rw [hpos, Option.bind_some, NewBeliefState.testAt, if_pos hlt]
  rfl

end

namespace StoredBridgeRule

/-- Every literal of the body holds. -/
def BodyHolds (r : StoredBridgeRule) (input : NewBeliefState bso.width) : Prop :=
  ∀ l ∈ r.body, l.HoldsIn input

/-- All ids of the rule pass the assertions. -/
def Inside (bso : BeliefStateOffset) (r : StoredBridgeRule) : Prop :=
  ∀ l ∈ r.head :: r.body, l.Inside bso

instance (r : StoredBridgeRule) : Decidable (r.Inside bso) :=
  inferInstanceAs (Decidable (∀ l ∈ r.head :: r.body, l.Inside bso))

section

variable {input : NewBeliefState bso.width}

/-- One literal of the body. -/
lemma satisfiedLoop_cons {it : ID} {val : TruthVal}
    (hval : (it.globalAddress bso).bind input.testAt = some val) (body : List ID) :
    (it.HoldsIn input → satisfiedLoop input (it :: body) = satisfiedLoop input body) ∧
      (¬ it.HoldsIn input → satisfiedLoop input (it :: body) = some false) := by
  unfold ID.HoldsIn
  rw [satisfiedLoop, hval, ← ID.testAt_eq hval]
  cases hnaf : it.isNaf with
  | true =>
      by_cases htrue : val = .dmcsTrue
      · simp [htrue]
      · simp [htrue]
  | false =>
      by_cases htrue : val = .dmcsTrue
      · simp [htrue]
      · simp [htrue]

/-- The verdict of the loop, when it reaches one. -/
lemma satisfiedLoop_spec {body : List ID} {b : Bool} (h : satisfiedLoop input body = some b) :
    b = true ↔ ∀ l ∈ body, l.HoldsIn input := by
  induction body with
  | nil =>
      rw [satisfiedLoop, Option.some_inj] at h
      simp [← h]
  | cons it body ih =>
      rw [List.forall_mem_cons]
      cases hval : (it.globalAddress bso).bind input.testAt with
      | none =>
          rw [satisfiedLoop, hval] at h
          exact absurd h.symm (Option.some_ne_none b)
      | some val =>
          obtain ⟨hholds, hfails⟩ := satisfiedLoop_cons hval body
          by_cases hit : it.HoldsIn input
          · rw [hholds hit] at h
            rw [ih h]
            exact ⟨fun hall => ⟨hit, hall⟩, And.right⟩
          · rw [hfails hit, Option.some_inj] at h
            rw [← h]
            exact ⟨fun hfalse => absurd hfalse Bool.false_ne_true, fun hall => absurd hall.1 hit⟩

lemma satisfied_spec {r : StoredBridgeRule} {b : Bool} (h : r.satisfied input = some b) :
    b = true ↔ r.BodyHolds input :=
  satisfiedLoop_spec h

/-- No assertion fails on a rule that is inside. -/
lemma satisfiedLoop_isSome (input : NewBeliefState bso.width) {body : List ID}
    (hbody : ∀ l ∈ body, l.Inside bso) : ∃ b, satisfiedLoop input body = some b := by
  induction body with
  | nil => exact ⟨true, rfl⟩
  | cons it body ih =>
      rw [List.forall_mem_cons] at hbody
      obtain ⟨val, hval⟩ := Option.isSome_iff_exists.1 (hbody.1.testAt_isSome input)
      obtain ⟨hholds, hfails⟩ := satisfiedLoop_cons hval body
      by_cases hit : it.HoldsIn input
      · rw [hholds hit]
        exact ih hbody.2
      · exact ⟨false, hfails hit⟩

end

/-! ## The heads belief state -/

section

variable {input h h' : NewBeliefState bso.width} {r : StoredBridgeRule}

/-- Where the head of a rule is. -/
def position (bso : BeliefStateOffset) (r : StoredBridgeRule) : ℕ :=
  r.head.address + bso.startingOffset r.head.contextID.toNat

/-- One rule sets the bit of its head if its body holds, and no other bit. -/
lemma evaluate_spec (he : r.evaluate input h = some h') (i : ℕ) :
    (h'.status_bit.getLsbD i = true ↔
        h.status_bit.getLsbD i = true ∨ (r.BodyHolds input ∧ i = r.position bso)) ∧
      (h'.value_bit.getLsbD i = true ↔
        h.value_bit.getLsbD i = true ∨ (r.BodyHolds input ∧ i = r.position bso)) := by
  unfold evaluate at he
  obtain ⟨b, hb, he⟩ := Option.bind_eq_some_iff.1 he
  have hspec := satisfied_spec hb
  cases b with
  | false =>
      have hnot : ¬ r.BodyHolds input := fun hbody => Bool.false_ne_true (hspec.2 hbody)
      rw [if_neg Bool.false_ne_true, Option.some_inj] at he
      rw [he]
      simp [hnot]
  | true =>
      rw [if_pos rfl] at he
      obtain ⟨pos, hpos, hset⟩ := Option.bind_eq_some_iff.1 he
      unfold NewBeliefState.setAt at hset
      split at hset
      case isFalse => exact absurd hset.symm (Option.some_ne_none h')
      case isTrue hlt =>
        obtain rfl := Option.some_inj.1 hset
        rw [ID.globalAddress_eq hpos] at hlt ⊢
        have hbody : r.BodyHolds input := hspec.1 rfl
        rw [NewBeliefState.set_status, NewBeliefState.set_value]
        by_cases hi : i = r.position bso
        · have hw : i < bso.width := by
            rw [hi]
            exact hlt
          rw [if_pos ⟨hi, hw⟩, if_pos ⟨hi, hw⟩]
          simp [hbody, hi]
        · rw [if_neg (fun hand => hi hand.1), if_neg (fun hand => hi hand.1)]
          simp [hi]

/-- No assertion fails on a rule that is inside. -/
lemma evaluate_isSome (input h : NewBeliefState bso.width) (hr : r.Inside bso) :
    ∃ h', r.evaluate input h = some h' := by
  unfold Inside at hr
  rw [List.forall_mem_cons] at hr
  obtain ⟨⟨pos, hpos, hlt⟩, hbody⟩ := hr
  obtain ⟨b, hb⟩ := satisfiedLoop_isSome input hbody
  unfold evaluate satisfied
  rw [hb, hpos]
  cases b with
  | false => exact ⟨h, rfl⟩
  | true => exact ⟨h.set pos .dmcsTrue, if_pos hlt⟩

end

end StoredBridgeRule

namespace BridgeRuleTable

variable {brtab : BridgeRuleTable} {input heads : NewBeliefState bso.width}

lemma foldlM_evaluate_spec {rules : List StoredBridgeRule} {h h' : NewBeliefState bso.width}
    (he : rules.foldlM (StoredBridgeRule.evaluate input) h = some h') (i : ℕ) :
    (h'.status_bit.getLsbD i = true ↔ h.status_bit.getLsbD i = true ∨
        ∃ r ∈ rules, r.BodyHolds input ∧ i = r.position bso) ∧
      (h'.value_bit.getLsbD i = true ↔ h.value_bit.getLsbD i = true ∨
        ∃ r ∈ rules, r.BodyHolds input ∧ i = r.position bso) := by
  induction rules generalizing h with
  | nil =>
      rw [List.foldlM_nil] at he
      obtain rfl := Option.some_inj.1 he
      simp
  | cons r rules ih =>
      rw [List.foldlM_cons] at he
      obtain ⟨h₁, hr, he⟩ := Option.bind_eq_some_iff.1 he
      obtain ⟨hstatus, hvalue⟩ := StoredBridgeRule.evaluate_spec hr i
      obtain ⟨hstatus', hvalue'⟩ := ih he
      constructor
      · rw [hstatus', hstatus, List.exists_mem_cons_iff, or_assoc]
      · rw [hvalue', hvalue, List.exists_mem_cons_iff, or_assoc]

/-- The heads state: the bits of the heads whose rules fire. -/
lemma evaluateBridgeRules_spec (he : brtab.evaluateBridgeRules input = some heads) (i : ℕ) :
    (heads.status_bit.getLsbD i = true ↔
        ∃ r ∈ brtab.rules, r.BodyHolds input ∧ i = r.position bso) ∧
      (heads.value_bit.getLsbD i = true ↔
        ∃ r ∈ brtab.rules, r.BodyHolds input ∧ i = r.position bso) := by
  obtain ⟨hstatus, hvalue⟩ := foldlM_evaluate_spec he i
  rw [hstatus, hvalue]
  simp

lemma evaluateBridgeRules_isSome (input : NewBeliefState bso.width)
    (hrules : ∀ r ∈ brtab.rules, r.Inside bso) :
    ∃ heads, brtab.evaluateBridgeRules input = some heads := by
  unfold evaluateBridgeRules
  generalize NewBeliefState.empty bso.width = h
  generalize brtab.rules = rules at hrules
  induction rules generalizing h with
  | nil => exact ⟨h, rfl⟩
  | cons r rules ih =>
      rw [List.forall_mem_cons] at hrules
      obtain ⟨h', hr⟩ := StoredBridgeRule.evaluate_isSome input h hrules.1
      obtain ⟨heads, hheads⟩ := ih h' hrules.2
      refine ⟨heads, ?_⟩
      rw [List.foldlM_cons, hr]
      exact hheads

end BridgeRuleTable

/-! ## The unpacked rules -/

namespace StoredBridgeRule

def literal (l : ID) : BridgeLiteral := ⟨⟨l.contextID.toNat, l.address⟩, l.isNaf⟩

/-- The rule behind the packed ids. -/
def unpack (r : StoredBridgeRule) (hbody : r.body ≠ []) : BridgeRule :=
  ⟨⟨r.head.contextID.toNat, r.head.address⟩, r.body.map literal, mt List.map_eq_nil_iff.1 hbody⟩

variable {r : StoredBridgeRule} {input h h' : NewBeliefState bso.width}

lemma holds_literal (l : ID) : (literal l).holds input = true ↔ l.HoldsIn input := by
  unfold BridgeLiteral.holds literal ID.HoldsIn BeliefId.globalAddress
  cases l.isNaf with
  | true => simp
  | false => simp

lemma satisfied_unpack (hbody : r.body ≠ []) :
    (r.unpack hbody).satisfied input = true ↔ r.BodyHolds input := by
  unfold BridgeRule.satisfied unpack BodyHolds
  simp only [List.all_map, List.all_eq_true, Function.comp_apply, holds_literal]

lemma evaluate_unpack (hbody : r.body ≠ []) (he : r.evaluate input h = some h') :
    h' = if (r.unpack hbody).satisfied input then
      h.set ((r.unpack hbody).head.globalAddress bso) .dmcsTrue else h := by
  unfold evaluate at he
  obtain ⟨b, hb, he⟩ := Option.bind_eq_some_iff.1 he
  have hsame : (r.unpack hbody).satisfied input = b := by
    rw [Bool.eq_iff_iff, satisfied_unpack, satisfied_spec hb]
  rw [hsame]
  cases b with
  | false => exact (Option.some_inj.1 he).symm
  | true =>
      obtain ⟨pos, hpos, hset⟩ := Option.bind_eq_some_iff.1 he
      unfold NewBeliefState.setAt at hset
      split at hset
      · rw [ID.globalAddress_eq hpos] at hset
        exact (Option.some_inj.1 hset).symm
      · exact absurd hset.symm (Option.some_ne_none h')

end StoredBridgeRule

/-- When no assertion fails, the packed rules give the heads of the rules behind them. -/
theorem BridgeRuleTable.evaluateBridgeRules_unpack {brtab : BridgeRuleTable}
    {input heads : NewBeliefState bso.width} (hbody : ∀ r ∈ brtab.rules, r.body ≠ [])
    (he : brtab.evaluateBridgeRules input = some heads) :
    heads = Dmcs.evaluateBridgeRules (brtab.rules.pmap StoredBridgeRule.unpack hbody) input := by
  unfold BridgeRuleTable.evaluateBridgeRules at he
  unfold Dmcs.evaluateBridgeRules
  generalize NewBeliefState.empty bso.width = h at he ⊢
  generalize brtab.rules = rules at hbody he ⊢
  induction rules generalizing h with
  | nil => exact (Option.some_inj.1 he).symm
  | cons r rules ih =>
      rw [List.foldlM_cons] at he
      obtain ⟨h₁, hr, he⟩ := Option.bind_eq_some_iff.1 he
      rw [List.pmap_cons, List.foldl_cons,
        ← StoredBridgeRule.evaluate_unpack (hbody r List.mem_cons_self) hr]
      exact ih _ _ he

/-! ## The program for the solver -/

namespace DLVEvaluator

/-- A head as a fact of the program. -/
def fact (b : Belief) : Text := b.text ++ ".\n".toList

/-- The belief `reset_process` looks up for a position. -/
def beliefAt (bso : BeliefStateOffset) (btab : BeliefTable) (ctx_id pos : ℕ) : Option Belief :=
  btab.getByID ⟨ID.MAINKIND_BELIEF ||| BitVec.ofNat 32 ctx_id, addressOf bso ctx_id pos⟩

section

variable {btab : BeliefTable} {ctx_id : ℕ} {head_input : NewBeliefState bso.width}

-- The induction is on the `TRUE` bits the cursor still has in front of it.
lemma writeHeads_eq {l : List ℕ} {fuel pos : ℕ} (hpos : pos ≠ 0)
    (habove : above head_input.trueBits pos = l) (hfuel : l.length + 1 < fuel)
    (programStream : Text) :
    writeHeads btab ctx_id head_input fuel pos programStream =
      ((pos :: l).mapM (beliefAt bso btab ctx_id)).map
        (fun bs => programStream ++ bs.flatMap fact) := by
  induction l generalizing fuel pos programStream with
  | nil =>
      obtain ⟨fuel, rfl⟩ : ∃ n, fuel = n + 2 := ⟨fuel - 2, by grind⟩
      rw [writeHeads, if_neg hpos, NewBeliefState.getNext_eq, nextOne_of_above_nil habove]
      show (beliefAt bso btab ctx_id pos).bind _ = _
      rw [List.mapM_cons, List.mapM_nil]
      cases beliefAt bso btab ctx_id pos with
      | none => rfl
      | some b => simp [writeHeads, fact]
  | cons x l ih =>
      obtain ⟨fuel, rfl⟩ : ∃ n, fuel = n + 1 := ⟨fuel - 1, by omega⟩
      obtain ⟨hnext, hlt, -, habove'⟩ := nextOne_of_above_cons habove
      rw [writeHeads, if_neg hpos, NewBeliefState.getNext_eq, hnext]
      show (beliefAt bso btab ctx_id pos).bind _ = _
      rw [List.mapM_cons]
      cases beliefAt bso btab ctx_id pos with
      | none => rfl
      | some b =>
          have hlen : l.length + 1 < fuel := by
            rw [List.length_cons] at hfuel
            omega
          have hx := ih (Nat.ne_of_gt (Nat.zero_lt_of_lt hlt)) habove' hlen
            (programStream ++ b.text ++ ".\n".toList)
          show writeHeads btab ctx_id head_input fuel x _ = _
          rw [hx]
          cases (x :: l).mapM (beliefAt bso btab ctx_id) with
          | none => rfl
          | some bs => simp [fact, List.append_assoc]

/-- The cursor visits every head once, if position 0 is not one: it ends the loop. -/
lemma resetProcess_eq {local_kb : Text} (hzero : head_input.trueBits.getLsbD 0 = false) :
    resetProcess btab ctx_id local_kb head_input =
      ((ones head_input.trueBits).mapM (beliefAt bso btab ctx_id)).map
        (fun bs => local_kb ++ bs.flatMap fact) := by
  unfold resetProcess
  rw [NewBeliefState.getFirst_eq]
  cases hones : ones head_input.trueBits with
  | nil =>
      unfold firstOne
      rw [hones]
      simp [writeHeads]
  | cons x l =>
      obtain ⟨hfirst, hx, habove⟩ := ones_eq_cons hones
      rw [hfirst]
      apply writeHeads_eq
      · rintro rfl
        rw [hx] at hzero
        exact absurd hzero.symm Bool.false_ne_true
      · exact habove
      · have hlen : (ones head_input.trueBits).length ≤ bso.width :=
          (List.length_filter_le _ _).trans_eq List.length_range
        rw [hones, List.length_cons] at hlen
        omega

/-- The address of a head comes back from its position. -/
lemma addressOf_add {a : ℕ} (ha : a < 2 ^ 32) :
    addressOf bso ctx_id (a + bso.startingOffset ctx_id) = a := by
  unfold addressOf
  rw [BitVec.ofNat_add, BitVec.add_sub_cancel, BitVec.toNat_ofNat,
    Nat.mod_eq_of_lt (a := a) (by omega), Nat.mod_eq_of_lt ha]

/-- A context as `reset_process` puts it into an id. -/
lemma kind_eq (hctx : ctx_id < 2 ^ 16) :
    ID.MAINKIND_BELIEF ||| BitVec.ofNat 32 ctx_id = Belief.kindOf ctx_id := by
  have hofNat : BitVec.ofNat 32 ctx_id = (BitVec.ofNat 16 ctx_id).setWidth 32 := by
    apply BitVec.eq_of_toNat_eq
    rw [BitVec.toNat_setWidth, BitVec.toNat_ofNat, BitVec.toNat_ofNat, Nat.mod_eq_of_lt hctx]
  rw [hofNat]
  rfl

/-- So the belief with this address is found. -/
lemma beliefAt_add {a : ℕ} (hctx : ctx_id < 2 ^ 16) (ha : a < 2 ^ 32) :
    beliefAt bso btab ctx_id (a + bso.startingOffset ctx_id) =
      btab.beliefs.find? (fun b => b.address = a) := by
  unfold beliefAt BeliefTable.getByID
  rw [addressOf_add ha, kind_eq hctx, if_pos (Belief.isBelief_kindOf ctx_id a)]

/-- What `evaluate_bridge_rules` and `reset_process` make of an input: the heads and the program. -/
def evaluatorInput (brtab : BridgeRuleTable) (btab : BeliefTable) (ctx_id : ℕ) (local_kb : Text)
    (input : NewBeliefState bso.width) : Option (NewBeliefState bso.width × Text) := do
  let heads ← brtab.evaluateBridgeRules input
  let program ← resetProcess btab ctx_id local_kb heads
  some (heads, program)

end

/-! ## The facts -/

section Facts

variable {brtab : BridgeRuleTable} {ctx_id : ℕ} {input heads : NewBeliefState bso.width}

/-- The rules have heads of this context, which are not its epsilon. -/
def OwnHeads (brtab : BridgeRuleTable) (ctx_id : ℕ) : Prop :=
  ∀ r ∈ brtab.rules, r.head.contextID.toNat = ctx_id ∧ 1 ≤ r.head.address ∧ r.head.address < 2 ^ 32

/-- An address is the head of a rule whose body holds. -/
def Derived (brtab : BridgeRuleTable) (input : NewBeliefState bso.width) (a : ℕ) : Prop :=
  ∃ r ∈ brtab.rules, r.head.address = a ∧ r.BodyHolds input

lemma exists_position_iff (hown : OwnHeads brtab ctx_id) {i : ℕ} :
    (∃ r ∈ brtab.rules, r.BodyHolds input ∧ i = r.position bso) ↔
      ∃ a, Derived brtab input a ∧ i = a + bso.startingOffset ctx_id := by
  constructor
  · rintro ⟨r, hr, hbody, rfl⟩
    refine ⟨r.head.address, ⟨r, hr, rfl, hbody⟩, ?_⟩
    unfold StoredBridgeRule.position
    rw [(hown r hr).1]
  · rintro ⟨a, ⟨r, hr, rfl, hbody⟩, rfl⟩
    refine ⟨r, hr, hbody, ?_⟩
    unfold StoredBridgeRule.position
    rw [(hown r hr).1]

/-- The addresses the cursor visits, in their order. -/
lemma exists_addresses (hown : OwnHeads brtab ctx_id)
    (he : brtab.evaluateBridgeRules input = some heads) :
    ∃ as : List ℕ, as.Pairwise (· < ·) ∧ (∀ a, a ∈ as ↔ Derived brtab input a) ∧
      ones heads.trueBits = as.map (· + bso.startingOffset ctx_id) := by
  have hmem : ∀ i, i ∈ ones heads.trueBits ↔
      ∃ a, Derived brtab input a ∧ i = a + bso.startingOffset ctx_id := by
    intro i
    obtain ⟨hstatus, hvalue⟩ := brtab.evaluateBridgeRules_spec he i
    rw [mem_ones, NewBeliefState.trueBits_getLsbD, Bool.and_eq_true, hstatus, hvalue, and_self]
    exact exists_position_iff hown
  refine ⟨(ones heads.trueBits).map (· - bso.startingOffset ctx_id), ?_, ?_, ?_⟩
  · rw [List.pairwise_map]
    apply (ones_sorted heads.trueBits).imp_of_mem
    intro i j hi hj hij
    obtain ⟨a, -, rfl⟩ := (hmem i).1 hi
    obtain ⟨b, -, rfl⟩ := (hmem j).1 hj
    omega
  · intro a
    rw [List.mem_map]
    constructor
    · rintro ⟨i, hi, rfl⟩
      obtain ⟨b, hb, rfl⟩ := (hmem i).1 hi
      rw [Nat.add_sub_cancel]
      exact hb
    · intro ha
      exact ⟨a + bso.startingOffset ctx_id, (hmem _).2 ⟨a, ha, rfl⟩, Nat.add_sub_cancel a _⟩
  · rw [List.map_map]
    refine ((List.map_congr_left ?_).trans (List.map_id _)).symm
    intro i hi
    obtain ⟨a, -, rfl⟩ := (hmem i).1 hi
    show a + _ - _ + _ = a + _
    rw [Nat.add_sub_cancel]

/-- A lookup of addresses that succeeds finds beliefs with these addresses. -/
lemma mapM_find?_eq_some {beliefs bs : List Belief} {as : List ℕ}
    (h : as.mapM (fun a => beliefs.find? (fun b => b.address = a)) = some bs) :
    bs.map Belief.address = as ∧ ∀ b ∈ bs, b ∈ beliefs := by
  induction as generalizing bs with
  | nil =>
      rw [List.mapM_nil] at h
      obtain rfl := Option.some_inj.1 h
      exact ⟨rfl, fun b hb => absurd hb List.not_mem_nil⟩
  | cons a as ih =>
      rw [List.mapM_cons] at h
      obtain ⟨b, hb, h⟩ := Option.bind_eq_some_iff.1 h
      obtain ⟨bs', hbs', h⟩ := Option.bind_eq_some_iff.1 h
      obtain rfl := Option.some_inj.1 h
      obtain ⟨hmap, hmem⟩ := ih hbs'
      constructor
      · have haddress : b.address = a := by simpa using List.find?_some hb
        rw [List.map_cons, hmap, haddress]
      · rw [List.forall_mem_cons]
        exact ⟨List.mem_of_find?_eq_some hb, hmem⟩

/-- It succeeds if they are all there. -/
lemma mapM_find?_isSome {beliefs : List Belief} {as : List ℕ}
    (h : ∀ a ∈ as, ∃ b ∈ beliefs, b.address = a) :
    ∃ bs, as.mapM (fun a => beliefs.find? (fun b => b.address = a)) = some bs := by
  induction as with
  | nil => exact ⟨[], rfl⟩
  | cons a as ih =>
      rw [List.forall_mem_cons] at h
      obtain ⟨⟨b, hb, hba⟩, has⟩ := h
      obtain ⟨bs, hbs⟩ := ih has
      have hfound : (beliefs.find? (fun b => b.address = a)).isSome = true := by
        rw [List.find?_isSome]
        exact ⟨b, hb, decide_eq_true hba⟩
      obtain ⟨b', hb'⟩ := Option.isSome_iff_exists.1 hfound
      refine ⟨b' :: bs, ?_⟩
      rw [List.mapM_cons, hb', hbs]
      rfl

lemma mapM_congr_of_mem {f g : ℕ → Option Belief} {as : List ℕ} (h : ∀ a ∈ as, f a = g a) :
    as.mapM f = as.mapM g := by
  induction as with
  | nil => rfl
  | cons a as ih =>
      rw [List.forall_mem_cons] at h
      rw [List.mapM_cons, List.mapM_cons, h.1, ih h.2]

/-- What `reset_process` writes, in terms of the addresses it visits. -/
lemma resetProcess_of_addresses {btab : BeliefTable} {local_kb : Text}
    (hown : OwnHeads brtab ctx_id) {as : List ℕ} (hmem : ∀ a, a ∈ as ↔ Derived brtab input a)
    (hones : ones heads.trueBits = as.map (· + bso.startingOffset ctx_id)) :
    resetProcess btab ctx_id local_kb heads =
      (as.mapM (fun a => btab.beliefs.find? (fun b => b.address = a))).map
        (fun bs => local_kb ++ bs.flatMap fact) := by
  have hrange : ∀ a ∈ as, ctx_id < 2 ^ 16 ∧ 1 ≤ a ∧ a < 2 ^ 32 := by
    intro a ha
    obtain ⟨r, hr, rfl, -⟩ := (hmem a).1 ha
    obtain ⟨hctx, hlow, hhigh⟩ := hown r hr
    rw [← hctx]
    exact ⟨ID.contextID_lt r.head, hlow, hhigh⟩
  have hzero : heads.trueBits.getLsbD 0 = false := by
    rw [Bool.eq_false_iff, ne_eq, ← mem_ones, hones, List.mem_map]
    rintro ⟨a, ha, hsum⟩
    have hlow := (hrange a ha).2.1
    omega
  have hlookup : ∀ a ∈ as, beliefAt bso btab ctx_id (a + bso.startingOffset ctx_id) =
      btab.beliefs.find? (fun b => b.address = a) :=
    fun a ha => beliefAt_add (hrange a ha).1 (hrange a ha).2.2
  rw [resetProcess_eq hzero, hones, List.mapM_map]
  exact congrArg _ (mapM_congr_of_mem hlookup)

/-- The solver gets one fact for every head with a satisfied rule, in the order of the addresses,
and the heads state has no other bit.  The run gets through if the ids of the rules are positions of
the state and the heads are beliefs of the context. -/
theorem resetProcess_facts {btab : BeliefTable} (local_kb : Text) (hown : OwnHeads brtab ctx_id) :
    (∀ heads program,
      evaluatorInput brtab btab ctx_id local_kb input = some (heads, program) →
        ∃ bs : List Belief, (bs.map Belief.address).Pairwise (· < ·) ∧
          (∀ b ∈ bs, b ∈ btab.beliefs) ∧
          (∀ a, a ∈ bs.map Belief.address ↔ Derived brtab input a) ∧
          program = local_kb ++ bs.flatMap fact ∧
          ∀ i, (heads.status_bit.getLsbD i = true ↔
              ∃ b ∈ bs, i = b.address + bso.startingOffset ctx_id) ∧
            heads.value_bit.getLsbD i = heads.status_bit.getLsbD i) ∧
      ((∀ r ∈ brtab.rules, r.Inside bso ∧ ∃ b ∈ btab.beliefs, b.address = r.head.address) →
        ∃ heads program,
          evaluatorInput brtab btab ctx_id local_kb input = some (heads, program)) := by
  constructor
  · intro heads program hrun
    obtain ⟨heads', he, hrun⟩ := Option.bind_eq_some_iff.1 hrun
    obtain ⟨program', hp, hrun⟩ := Option.bind_eq_some_iff.1 hrun
    obtain ⟨rfl, rfl⟩ := Prod.mk.inj (Option.some_inj.1 hrun)
    obtain ⟨as, hsorted, hmem, hones⟩ := exists_addresses hown he
    rw [resetProcess_of_addresses hown hmem hones] at hp
    obtain ⟨bs, hbs, rfl⟩ := Option.map_eq_some_iff.1 hp
    obtain ⟨rfl, hstored⟩ := mapM_find?_eq_some hbs
    refine ⟨bs, hsorted, hstored, hmem, rfl, ?_⟩
    intro i
    obtain ⟨hstatus, hvalue⟩ := brtab.evaluateBridgeRules_spec he i
    constructor
    · rw [hstatus, exists_position_iff hown]
      constructor
      · rintro ⟨a, ha, rfl⟩
        obtain ⟨b, hb, rfl⟩ := List.mem_map.1 ((hmem a).2 ha)
        exact ⟨b, hb, rfl⟩
      · rintro ⟨b, hb, rfl⟩
        exact ⟨b.address, (hmem b.address).1 (List.mem_map_of_mem hb), rfl⟩
    · rw [Bool.eq_iff_iff, hstatus, hvalue]
  · intro hrules
    obtain ⟨heads, he⟩ :=
      brtab.evaluateBridgeRules_isSome input (fun r hr => (hrules r hr).1)
    obtain ⟨as, -, hmem, hones⟩ := exists_addresses hown he
    have hknown : ∀ a ∈ as, ∃ b ∈ btab.beliefs, b.address = a := by
      intro a ha
      obtain ⟨r, hr, rfl, -⟩ := (hmem a).1 ha
      exact (hrules r hr).2
    obtain ⟨bs, hbs⟩ := mapM_find?_isSome hknown
    refine ⟨heads, local_kb ++ bs.flatMap fact, ?_⟩
    unfold evaluatorInput
    rw [he]
    show (resetProcess btab ctx_id local_kb heads).bind _ = _
    rw [resetProcess_of_addresses hown hmem hones, hbs]
    rfl

/-- An input of a system with two blocks of two beliefs: only `(1:2)` is `TRUE`. -/
def twoBlocks : NewBeliefState (BeliefStateOffset.ofSucc 1 1).width :=
  (NewBeliefState.empty _).set 5 .dmcsTrue

/-- Two rules of context 0 with one head: `a ← not (1:1)` and `a ← (1:2)`. -/
def sharedHead : BridgeRuleTable where
  rules :=
    [⟨Belief.literal 0 1 false, [Belief.literal 1 1 true]⟩,
      ⟨Belief.literal 0 1 false, [Belief.literal 1 2 false]⟩]
  nodup := by decide

/-- The signature of context 0. -/
def sharedHeadBeliefs : BeliefTable where
  beliefs := [Belief.ofContext 0 0 "eps".toList, Belief.ofContext 0 1 "a".toList]
  nextAddress := 2
  address_nodup := by decide
  text_nodup := by decide
  isBelief_of_mem := by decide

/-- Both rules of `sharedHead` fire, and the solver reads `a` once. -/
theorem resetProcess_facts_sharedHead :
    ∃ heads, evaluatorInput sharedHead sharedHeadBeliefs 0 [] twoBlocks =
      some (heads, "a.\n".toList) := by
  have hown : OwnHeads sharedHead 0 := by
    unfold OwnHeads
    decide
  obtain ⟨heads, program, hrun⟩ := (resetProcess_facts [] hown).2
    (show ∀ r ∈ sharedHead.rules, r.Inside (BeliefStateOffset.ofSucc 1 1) ∧
      ∃ b ∈ sharedHeadBeliefs.beliefs, b.address = r.head.address by decide +kernel)
  have hprogram : (evaluatorInput sharedHead sharedHeadBeliefs 0 [] twoBlocks).map Prod.snd =
      some "a.\n".toList := by decide +kernel
  rw [hrun, Option.map_some, Option.some_inj] at hprogram
  exact ⟨heads, hrun.trans (congrArg (fun program => some (heads, program)) hprogram)⟩

end Facts

end DLVEvaluator

end Dmcs
