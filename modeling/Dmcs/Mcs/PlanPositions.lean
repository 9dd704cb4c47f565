import Dmcs.Mcs.Guess
import Dmcs.Mcs.ResetProcess
import Dmcs.Parser.BridgeRuleInvariants
import Dmcs.Parser.QueryPlanInvariants
import Dmcs.Parser.ReturnPlanEntries

/-!
# The positions computed from accepted plans

The addresses of beliefs are free numbers in a query plan and in a return plan.  Whoever uses one
adds it to the offset of a block: the two `init` functions for the bits to be guessed, the parser of
return plans for the bits of an interface, `satisfied` and `evaluate_bridge_rules` for the beliefs
of a rule, and the parser of answer sets.  They assert that the position lies inside the state, not
that it lies inside the block.

`Computes` lists the positions, with the context each is computed for, and `insideBlocks_iff` says
which plans keep them inside their blocks.

## The argument

A position is the offset of a block plus an address.  It lies in the block and is not its epsilon
bit if and only if the address is between `1` and `SIZE_BS`.  The kind of an id has 16 bits for a
context, so a context beyond that is computed with other bits (`FitsID`).

`Computes` has one constructor for each place in the code that computes a position, and the lemmas
`computes_of_guess`, `computes_of_returned`, `computes_of_rule` and `computes_of_handleLiteral` tie
a constructor to the function it is about.  `InsideBlocks.no_alias` is what it is good for: two
beliefs of different contexts never share a position.
-/

namespace Dmcs

open BitScan
open QueryPlanGrammar (ContextQueryPlan)

variable {bso : BeliefStateOffset}

/-! ## Positions in a block -/

namespace BeliefStateOffset

/-- `abs_pos` in `test` and `set` with a context, and their assertions. -/
def absPos (bso : BeliefStateOffset) (ctx_id pos : ℕ) : Option ℕ :=
  if ctx_id < bso.noBlocks ∧ bso.startingOffset ctx_id + pos < bso.width then
    some (bso.startingOffset ctx_id + pos)
  else none

/-- The positions of the beliefs of context `c`, after the epsilon bit. -/
def InBlock (bso : BeliefStateOffset) (c pos : ℕ) : Prop :=
  c * (bso.sizeBs + 1) + 1 ≤ pos ∧ pos ≤ c * (bso.sizeBs + 1) + bso.sizeBs

lemma absPos_eq_some {ctx_id pos abs_pos : ℕ} :
    bso.absPos ctx_id pos = some abs_pos ↔ ctx_id < bso.noBlocks ∧ abs_pos < bso.width ∧
      abs_pos = bso.startingOffset ctx_id + pos := by
  unfold absPos
  split
  · rename_i h
    rw [Option.some_inj]
    constructor
    · rintro rfl
      exact ⟨h.1, h.2, rfl⟩
    · rintro ⟨-, -, rfl⟩
      rfl
  · rename_i h
    constructor
    · intro hnone
      exact absurd hnone.symm (Option.some_ne_none abs_pos)
    · rintro ⟨hctx, hlt, rfl⟩
      exact absurd ⟨hctx, hlt⟩ h

lemma inBlock_startingOffset_add {c a : ℕ} :
    bso.InBlock c (bso.startingOffset c + a) ↔ 1 ≤ a ∧ a ≤ bso.sizeBs := by
  unfold InBlock
  rw [startingOffset_eq]
  omega

lemma InBlock.exists_add {c pos : ℕ} (h : bso.InBlock c pos) :
    ∃ a, (1 ≤ a ∧ a ≤ bso.sizeBs) ∧ pos = bso.startingOffset c + a := by
  obtain ⟨a, ha⟩ : ∃ a, pos = bso.startingOffset c + a := by
    apply Nat.exists_eq_add_of_le
    rw [startingOffset_eq]
    exact Nat.le_of_succ_le h.1
  rw [ha] at h
  exact ⟨a, inBlock_startingOffset_add.1 h, ha⟩

/-- A position in a block is no epsilon position. -/
lemma InBlock.ne_startingOffset {c pos : ℕ} (h : bso.InBlock c pos) (d : ℕ) :
    pos ≠ bso.startingOffset d := by
  obtain ⟨a, ha, rfl⟩ := h.exists_add
  intro heq
  have hmod := bso.startingOffset_mod d
  rw [← heq, add_mod bso ha.2] at hmod
  exact absurd hmod (Nat.one_le_iff_ne_zero.1 ha.1)

/-- Blocks have no position in common. -/
lemma InBlock.unique {c d pos : ℕ} (h : bso.InBlock c pos) (h' : bso.InBlock d pos) : c = d := by
  obtain ⟨a, ha, rfl⟩ := h.exists_add
  obtain ⟨a', ha', heq⟩ := h'.exists_add
  calc c = bso.blockOf (bso.startingOffset c + a) := (bso.blockOf_add ha.2).symm
    _ = bso.blockOf (bso.startingOffset d + a') := by rw [heq]
    _ = d := bso.blockOf_add ha'.2

end BeliefStateOffset

/-! ## The ids of entered beliefs -/

namespace Belief

variable {c address : ℕ} {naf : Bool}

/-- Only 16 bits of the context get into a kind. -/
lemma kindOf_mod (c : ℕ) : kindOf (c % 2 ^ 16) = kindOf c := by
  unfold kindOf
  rw [show BitVec.ofNat 16 (c % 2 ^ 16) = BitVec.ofNat 16 c by
    apply BitVec.eq_of_toNat_eq
    rw [BitVec.toNat_ofNat, BitVec.toNat_ofNat, Nat.mod_mod]]

lemma literal_mod (c address : ℕ) (naf : Bool) :
    literal (c % 2 ^ 16) address naf = literal c address naf := by
  unfold literal
  rw [kindOf_mod]

lemma contextID_literal_mod : (literal c address naf).contextID.toNat = c % 2 ^ 16 := by
  rw [← literal_mod]
  exact contextID_literal (Nat.mod_lt c (by decide)) address naf

lemma isBelief_literal : (literal c address naf).isBelief = true := by
  unfold literal ID.isBelief kindOf
  rw [BitVec.and_or_distrib_right, BitVec.and_or_distrib_right,
    setWidth_and_of_zeros _ (by decide)]
  cases naf with
  | true => rfl
  | false => rfl

/-- A belief is its own positive literal. -/
lemma literal_false : literal c address false = ⟨kindOf c, address⟩ := by
  unfold literal
  rw [if_neg Bool.false_ne_true, BitVec.or_zero]

/-- Where the evaluator looks for a belief of context `c`. -/
lemma globalAddress_literal {pos : ℕ} :
    (literal c address naf).globalAddress bso = some pos ↔
      c % 2 ^ 16 < bso.noBlocks ∧ pos = address + bso.startingOffset (c % 2 ^ 16) := by
  unfold ID.globalAddress
  rw [contextID_literal_mod, show (literal c address naf).address = address from rfl]
  split
  · rename_i h
    rw [Option.some_inj]
    exact ⟨fun heq => ⟨h.2, heq.symm⟩, fun heq => heq.2.symm⟩
  · rename_i h
    constructor
    · intro hnone
      exact absurd hnone.symm (Option.some_ne_none pos)
    · intro heq
      exact absurd ⟨isBelief_literal, heq.1⟩ h

end Belief

namespace BeliefTable

variable {c : ℕ} {table : BeliefTable} {text : Text}

lemma id_of_entered {b : Belief} (h : QueryPlanGrammar.Entered c b) :
    b.id = Belief.literal c b.address false := by
  obtain ⟨address, p, as, -, rfl⟩ := h
  exact Belief.literal_false.symm

/-- A lookup finds a belief of the table, or it gives the id that names none. -/
lemma getIDByString_cases (table : BeliefTable) (text : Text) :
    (∃ b ∈ table.beliefs, table.getIDByString text = b.id) ∨
      table.getIDByString text = ID.ID_FAIL := by
  unfold getIDByString
  cases hfind : table.beliefs.find? (fun b => b.text = text) with
  | some b => exact Or.inl ⟨b, List.mem_of_find?_eq_some hfind, rfl⟩
  | none => exact Or.inr rfl

/-- In a signature that was entered for a context. -/
lemma getIDByString_entered (h : QueryPlanGrammar.EnteredTable c table) (text : Text) :
    (∃ b ∈ table.beliefs, table.getIDByString text = Belief.literal c b.address false) ∨
      table.getIDByString text = ID.ID_FAIL := by
  obtain ⟨b, hb, heq⟩ | hfail := table.getIDByString_cases text
  · refine Or.inl ⟨b, hb, ?_⟩
    rw [heq, id_of_entered (h b hb)]
  · exact Or.inr hfail

end BeliefTable

/-! ## The positions -/

/-- Plans that the parsers accept, and the context of the daemon that reads them. -/
structure AcceptedPlans (bso : BeliefStateOffset) where
  queryText : Text
  plan : List (ℕ × ContextQueryPlan)
  plan_accepted : QueryPlanGrammar.parseStream queryText = .ok plan
  returnText : Text
  returnPlan : List (ℕ × NewBeliefState bso.width)
  returnPlan_accepted : ReturnPlanGrammar.parseStream bso returnText = .ok returnPlan
  ctxID : ℕ

namespace AcceptedPlans

/-- `pos` is computed for a belief of context `c`.  The rules and the answer sets are no part of
the plans, so they may name any belief. -/
inductive Computes (p : AcceptedPlans bso) : ℕ → ℕ → Prop
  /-- `CycleBreaker::init`, for every context with an input signature. -/
  | guess {c pos : ℕ} {qp : ContextQueryPlan} {table : BeliefTable} {b : Belief}
      (hqp : (c, qp) ∈ p.plan) (htable : qp.groundInputSignature = some table)
      (hb : b ∈ table.beliefs) (hpos : bso.absPos c b.address = some pos) : Computes p c pos
  /-- `activateBits`. -/
  | returned {pos : ℕ} {entries : List (ℕ × List (ℕ × ℕ))} {e : ℕ × List (ℕ × ℕ)} {b : ℕ × ℕ}
      (hentries : ReturnPlanGrammar.readStream p.returnText = .ok entries) (he : e ∈ entries)
      (hb : b ∈ e.2) (hpos : bso.absPos b.1 b.2 = some pos) : Computes p b.1 pos
  /-- `satisfied`, for a literal over the atom `(c:text)`. -/
  | body {c pos : ℕ} {l : ID} (hl : BridgeRuleGrammar.IsLiteral p.plan p.ctxID c l)
      (hpos : l.globalAddress bso = some pos) (hlt : pos < bso.width) : Computes p c pos
  /-- `evaluate_bridge_rules`. -/
  | head {pos : ℕ} {id : ID} (hid : BridgeRuleGrammar.IsHead p.plan p.ctxID id)
      (hpos : id.globalAddress bso = some pos) (hlt : pos < bso.width) : Computes p p.ctxID pos
  /-- `handleLiteral`, with the local signature. -/
  | answerSet {pos : ℕ} {id : ID} (hid : BridgeRuleGrammar.IsHead p.plan p.ctxID id)
      (hfound : id ≠ ID.ID_FAIL) (hpos : bso.absPos p.ctxID id.address = some pos) :
      Computes p p.ctxID pos

/-- Every position lies in the block of its context, after the epsilon bit. -/
def InsideBlocks (p : AcceptedPlans bso) : Prop := ∀ c pos, p.Computes c pos → bso.InBlock c pos

end AcceptedPlans

/-! ### What the users compute -/

namespace AcceptedPlans

variable {p : AcceptedPlans bso}

/-- The rules of an accepted file. -/
lemma computes_of_rule {text : Text} {brtab : BridgeRuleTable} {neighbors : List NewNeighbor}
    (h : BridgeRuleGrammar.parseStream p.plan p.ctxID text = .ok (brtab, neighbors))
    {r : StoredBridgeRule} (hr : r ∈ brtab.rules) :
    (∀ pos, r.head.globalAddress bso = some pos → pos < bso.width → p.Computes p.ctxID pos) ∧
      ∀ l ∈ r.body, ∃ c, ∀ pos, l.globalAddress bso = some pos → pos < bso.width →
        p.Computes c pos := by
  obtain ⟨hhead, hbody⟩ := BridgeRuleGrammar.lookedUp_of_parseStream h r hr
  refine ⟨fun pos hpos hlt => Computes.head hhead hpos hlt, fun l hl => ?_⟩
  obtain ⟨c, hc⟩ := hbody l hl
  exact ⟨c, fun pos hpos hlt => Computes.body hc hpos hlt⟩

/-- A literal of an answer set writes at a computed position. -/
lemma computes_of_handleLiteral {qp : ContextQueryPlan} {btab : BeliefTable}
    (hqp : p.plan.lookup p.ctxID = some qp) (hbtab : qp.localSignature = some btab)
    {source : Option Char × Text} {s s' : NewBeliefState bso.width} {u : Unit}
    (h : DLVResultGrammar.handleLiteral bso btab p.ctxID source s = some (s', u)) :
    ∃ pos v, s' = s.set pos v ∧ p.Computes p.ctxID pos := by
  unfold DLVResultGrammar.handleLiteral at h
  simp only at h
  split at h
  · rename_i hset
    refine ⟨_, _, (Prod.mk.inj (Option.some.inj h)).1.symm, ?_⟩
    apply Computes.answerSet ⟨qp, btab, source.2, hqp, hbtab, rfl⟩ hset.1
    exact BeliefStateOffset.absPos_eq_some.2 ⟨hset.2.1, hset.2.2, rfl⟩
  · exact absurd h.symm (Option.some_ne_none _)

/-- One round of the loop of `CycleBreaker::init`, with the assertions of `set`. -/
def guessSignature (bso : BeliefStateOffset) (total : NewBeliefState bso.width)
    (e : ℕ × ContextQueryPlan) : Option (NewBeliefState bso.width) :=
  match e.2.groundInputSignature with
  | none => some total
  | some table =>
      table.beliefs.foldlM (fun total b => do
          let abs_pos ← bso.absPos e.1 b.address
          some (total.set abs_pos .dmcsTrue))
        (total.setEpsilon bso e.1)

/-- `total_guessing_input`; the loop of `NormalContext::init` is the same over some contexts. -/
def totalGuessingInput (bso : BeliefStateOffset) (plan : List (ℕ × ContextQueryPlan)) :
    Option (NewBeliefState bso.width) :=
  plan.foldlM (guessSignature bso) (NewBeliefState.empty bso.width)

/-- The loop over an input signature, when no assertion fails. -/
lemma status_of_signature {c : ℕ} {beliefs : List Belief} {s s' : NewBeliefState bso.width}
    (h : beliefs.foldlM (fun total b => do
      let abs_pos ← bso.absPos c b.address
      some (total.set abs_pos .dmcsTrue)) s = some s') {i : ℕ}
    (hi : s'.status_bit.getLsbD i = true) :
    s.status_bit.getLsbD i = true ∨ ∃ b ∈ beliefs, bso.absPos c b.address = some i := by
  induction beliefs generalizing s with
  | nil =>
      rw [← Option.some.inj h] at hi
      exact Or.inl hi
  | cons b beliefs ih =>
      rw [List.foldlM_cons] at h
      obtain ⟨next, hnext, h⟩ := Option.bind_eq_some_iff.1 h
      obtain ⟨pos, hpos, hset⟩ := Option.bind_eq_some_iff.1 hnext
      rcases ih h with hnext | ⟨b', hb', hi⟩
      · rw [← Option.some.inj hset, NewBeliefState.set_status] at hnext
        split at hnext
        · rename_i heq
          rw [← heq.1] at hpos
          exact Or.inr ⟨b, List.mem_cons_self, hpos⟩
        · exact Or.inl hnext
      · exact Or.inr ⟨b', List.mem_cons_of_mem b hb', hi⟩

lemma computes_of_guessSignature {e : ℕ × ContextQueryPlan} (he : e ∈ p.plan)
    {s s' : NewBeliefState bso.width} (h : guessSignature bso s e = some s') {i : ℕ}
    (hi : s'.status_bit.getLsbD i = true) :
    s.status_bit.getLsbD i = true ∨ (∃ c, i = bso.startingOffset c) ∨ ∃ c, p.Computes c i := by
  unfold guessSignature at h
  cases htable : e.2.groundInputSignature with
  | none =>
      rw [htable] at h
      rw [← Option.some.inj h] at hi
      exact Or.inl hi
  | some table =>
      rw [htable] at h
      rcases status_of_signature h hi with hs | ⟨b, hb, hpos⟩
      · rw [NewBeliefState.setEpsilon_status] at hs
        split at hs
        · rename_i heq
          exact Or.inr (Or.inl ⟨e.1, heq.1⟩)
        · exact Or.inl hs
      · exact Or.inr (Or.inr ⟨e.1, Computes.guess he htable hb hpos⟩)

/-- Only epsilon bits and computed positions are guessed. -/
lemma computes_of_guess {total : NewBeliefState bso.width}
    (h : totalGuessingInput bso p.plan = some total) {i : ℕ}
    (hi : total.status_bit.getLsbD i = true) :
    (∃ c, i = bso.startingOffset c) ∨ ∃ c, p.Computes c i := by
  have hloop : ∀ (plan : List (ℕ × ContextQueryPlan)) (s : NewBeliefState bso.width),
      (∀ e ∈ plan, e ∈ p.plan) → plan.foldlM (guessSignature bso) s = some total →
      s.status_bit.getLsbD i = true ∨ (∃ c, i = bso.startingOffset c) ∨ ∃ c, p.Computes c i := by
    intro plan
    induction plan with
    | nil =>
        intro s _ hs
        rw [← Option.some.inj hs] at hi
        exact Or.inl hi
    | cons e plan ih =>
        intro s hsub hs
        rw [List.foldlM_cons] at hs
        obtain ⟨next, hnext, hs⟩ := Option.bind_eq_some_iff.1 hs
        rcases ih next (fun x hx => hsub x (List.mem_cons_of_mem e hx)) hs with hstatus | hrest
        · exact computes_of_guessSignature (hsub e List.mem_cons_self) hnext hstatus
        · exact Or.inr hrest
  rcases hloop p.plan _ (fun _ he => he) h with hempty | hrest
  · rw [NewBeliefState.empty_status] at hempty
    exact absurd hempty Bool.false_ne_true
  · exact hrest

/-- In the states of the return plan only epsilon bits and computed positions have a status. -/
lemma computes_of_returned {e : ℕ × NewBeliefState bso.width} (he : e ∈ p.returnPlan) {i : ℕ}
    (hi : e.2.status_bit.getLsbD i = true) :
    (∃ c < bso.noBlocks, i = bso.startingOffset c) ∨ ∃ c, p.Computes c i := by
  obtain ⟨entries, hentries, hplan, hset⟩ :=
    ReturnPlanGrammar.readStream_of_parseStream p.returnPlan_accepted
  rw [hplan] at he
  obtain ⟨entry, hentry, rfl⟩ := List.mem_map.1 he
  unfold ReturnPlanGrammar.stateOf at hi
  rw [NewContext.foldl_set_status (by simp) (fun b : ℕ × ℕ => bso.startingOffset b.1 + b.2)] at hi
  rcases hi with hi | ⟨hlt, b, hb, rfl⟩
  · left
    have hepsilon := (NewContext.foldl_set_status (by simp) bso.startingOffset i _ _).1
      (show ((List.range bso.noBlocks).foldl (fun s c => s.set (bso.startingOffset c) .dmcsTrue)
        (NewBeliefState.empty bso.width)).status_bit.getLsbD i = true from hi)
    rw [NewBeliefState.empty_status] at hepsilon
    obtain hfalse | ⟨-, c, hc, rfl⟩ := hepsilon
    · exact absurd hfalse Bool.false_ne_true
    · exact ⟨c, List.mem_range.1 hc, rfl⟩
  · right
    refine ⟨b.1, Computes.returned hentries hentry hb ?_⟩
    exact BeliefStateOffset.absPos_eq_some.2 ⟨(hset entry hentry b hb).1, hlt, rfl⟩

end AcceptedPlans

/-! ## The addresses that fit -/

namespace BeliefStateOffset

/-- `a` addresses a belief of context `c`, or the assertions of `set` and `test` stop it. -/
def Fits (bso : BeliefStateOffset) (c a : ℕ) : Prop :=
  c < bso.noBlocks → bso.startingOffset c + a < bso.width → 1 ≤ a ∧ a ≤ bso.sizeBs

/-- The same for the evaluator of bridge rules, which adds the address to the offset of the block
that the low 16 bits of the context name. -/
def FitsID (bso : BeliefStateOffset) (c a : ℕ) : Prop :=
  c % 2 ^ 16 < bso.noBlocks → bso.startingOffset (c % 2 ^ 16) + a < bso.width →
    2 ^ 16 * (c / 2 ^ 16) * (bso.sizeBs + 1) + 1 ≤ a ∧
      a ≤ 2 ^ 16 * (c / 2 ^ 16) * (bso.sizeBs + 1) + bso.sizeBs

/-- With less than `2 ^ 16` contexts this is the same condition. -/
lemma fitsID_iff_fits {c a : ℕ} (hc : c < 2 ^ 16) : bso.FitsID c a ↔ bso.Fits c a := by
  unfold FitsID Fits
  rw [Nat.mod_eq_of_lt hc, Nat.div_eq_of_lt hc, Nat.mul_zero, Nat.zero_mul, Nat.zero_add,
    Nat.zero_add]

lemma fits_iff {c a : ℕ} :
    bso.Fits c a ↔ ∀ pos, bso.absPos c a = some pos → bso.InBlock c pos := by
  unfold Fits
  constructor
  · intro h pos hpos
    obtain ⟨hc, hlt, rfl⟩ := absPos_eq_some.1 hpos
    exact inBlock_startingOffset_add.2 (h hc hlt)
  · intro h hc hlt
    exact inBlock_startingOffset_add.1 (h _ (absPos_eq_some.2 ⟨hc, hlt, rfl⟩))

/-- The block of a context and the one its low bits name. -/
lemma inBlock_mod {c a : ℕ} :
    bso.InBlock c (a + bso.startingOffset (c % 2 ^ 16)) ↔
      2 ^ 16 * (c / 2 ^ 16) * (bso.sizeBs + 1) + 1 ≤ a ∧
        a ≤ 2 ^ 16 * (c / 2 ^ 16) * (bso.sizeBs + 1) + bso.sizeBs := by
  have hsplit : c * (bso.sizeBs + 1) =
      2 ^ 16 * (c / 2 ^ 16) * (bso.sizeBs + 1) + c % 2 ^ 16 * (bso.sizeBs + 1) := by
    rw [← Nat.add_mul, Nat.div_add_mod]
  unfold InBlock
  rw [hsplit, startingOffset_eq]
  omega

lemma fitsID_iff {c a : ℕ} {naf : Bool} :
    bso.FitsID c a ↔ ∀ pos, (Belief.literal c a naf).globalAddress bso = some pos →
      pos < bso.width → bso.InBlock c pos := by
  unfold FitsID
  constructor
  · intro h pos hpos hlt
    obtain ⟨hc, rfl⟩ := Belief.globalAddress_literal.1 hpos
    rw [Nat.add_comm] at hlt
    exact inBlock_mod.2 (h hc hlt)
  · intro h hc hlt
    rw [Nat.add_comm] at hlt
    exact inBlock_mod.1 (h _ (Belief.globalAddress_literal.2 ⟨hc, rfl⟩) hlt)

end BeliefStateOffset

namespace AcceptedPlans

/-- All addresses of the plans fit. -/
structure AddressesFit (p : AcceptedPlans bso) : Prop where
  /-- The guessed beliefs. -/
  guessed : ∀ e ∈ p.plan, ∀ table ∈ e.2.groundInputSignature, ∀ b ∈ table.beliefs,
    bso.Fits e.1 b.address
  /-- The beliefs of the other contexts in the bodies of rules. -/
  neighbor : ∀ e ∈ p.plan, e.1 ≠ p.ctxID → ∀ table ∈ e.2.groundInputSignature,
    ∀ b ∈ table.beliefs, bso.FitsID e.1 b.address
  /-- The context's own beliefs, in rules and in answer sets. -/
  own : ∀ e ∈ p.plan, e.1 = p.ctxID → ∀ table ∈ e.2.localSignature, ∀ b ∈ table.beliefs,
    bso.FitsID e.1 b.address ∧ bso.Fits e.1 b.address
  /-- The beliefs returned to a parent. -/
  returned : ∀ entries, ReturnPlanGrammar.readStream p.returnText = .ok entries → ∀ e ∈ entries,
    ∀ b ∈ e.2, 1 ≤ b.2 ∧ b.2 ≤ bso.sizeBs

end AcceptedPlans

namespace BridgeRuleGrammar

variable {plan : List (ℕ × ContextQueryPlan)} {ctxID c : ℕ}

/-- The literals a rule can have are those of the beliefs in the signature that is looked into. -/
lemma isLiteral_iff (h : QueryPlanGrammar.EnteredMap plan) {l : ID} :
    IsLiteral plan ctxID c l ↔ ∃ qp table, (c, qp) ∈ plan ∧
      (if c = ctxID then qp.localSignature else qp.groundInputSignature) = some table ∧
      ∃ b ∈ table.beliefs, ∃ naf, l = Belief.literal c b.address naf := by
  constructor
  · rintro ⟨text, id, naf, ⟨mgr, mgr', hatom⟩, hl⟩
    obtain ⟨qp, table, hqp, htable, rfl, -⟩ := getBridgeAtom_eq_some.1 hatom
    have hmem : (c, qp) ∈ plan := (QueryPlanGrammar.lookup_eq_some_iff_mem h.nodup).1 hqp
    have hentered : QueryPlanGrammar.EnteredTable c table := by
      rw [show c = qp.ctx from h.key _ hmem]
      split at htable
      · exact (h.entered _ hmem).localSignature table htable
      · exact (h.entered _ hmem).groundInputSignature table htable
    obtain ⟨b, hb, hid⟩ | hfail := BeliefTable.getIDByString_entered hentered text
    · rw [hid, Belief.literal_false, Belief.literalFromBelief_kindOf] at hl
      exact ⟨qp, table, hmem, htable, b, hb, naf, (Option.some.inj hl).symm⟩
    · rw [hfail] at hl
      unfold ID.literalFromBelief at hl
      rw [if_neg (by decide)] at hl
      exact absurd hl.symm (Option.some_ne_none l)
  · rintro ⟨qp, table, hmem, htable, b, hb, naf, rfl⟩
    have hentered : QueryPlanGrammar.Entered c b := by
      rw [show c = qp.ctx from h.key _ hmem]
      split at htable
      · exact (h.entered _ hmem).localSignature table htable b hb
      · exact (h.entered _ hmem).groundInputSignature table htable b hb
    refine ⟨b.text, b.id, naf, ⟨Semantics.init, meet ctxID c qp Semantics.init, ?_⟩, ?_⟩
    · apply getBridgeAtom_eq_some.2
      refine ⟨qp, table, (QueryPlanGrammar.lookup_eq_some_iff_mem h.nodup).2 hmem, htable, ?_, rfl⟩
      exact (BeliefTable.getIDByString_of_mem hb).symm
    · rw [BeliefTable.id_of_entered hentered, Belief.literal_false,
        Belief.literalFromBelief_kindOf]

/-- The heads a rule can have, apart from the id that names no belief. -/
lemma isHead_iff (h : QueryPlanGrammar.EnteredMap plan) {id : ID} (hid : id ≠ ID.ID_FAIL) :
    IsHead plan ctxID id ↔ ∃ qp table, (ctxID, qp) ∈ plan ∧ qp.localSignature = some table ∧
      ∃ b ∈ table.beliefs, id = Belief.literal ctxID b.address false := by
  have hentered : ∀ {qp table}, (ctxID, qp) ∈ plan → qp.localSignature = some table →
      QueryPlanGrammar.EnteredTable ctxID table := by
    intro qp table hmem htable
    rw [show ctxID = qp.ctx from h.key _ hmem]
    exact (h.entered _ hmem).localSignature table htable
  constructor
  · rintro ⟨qp, table, text, hqp, htable, rfl⟩
    have hmem : (ctxID, qp) ∈ plan := (QueryPlanGrammar.lookup_eq_some_iff_mem h.nodup).1 hqp
    obtain hfound | hfail := BeliefTable.getIDByString_entered (hentered hmem htable) text
    · exact ⟨qp, table, hmem, htable, hfound⟩
    · exact absurd hfail hid
  · rintro ⟨qp, table, hmem, htable, b, hb, rfl⟩
    refine ⟨qp, table, b.text, (QueryPlanGrammar.lookup_eq_some_iff_mem h.nodup).2 hmem, htable, ?_⟩
    rw [BeliefTable.getIDByString_of_mem hb, BeliefTable.id_of_entered (hentered hmem htable b hb)]

end BridgeRuleGrammar

namespace AcceptedPlans

variable {p : AcceptedPlans bso}

lemma literal_ne_ID_FAIL {c a : ℕ} {naf : Bool} : Belief.literal c a naf ≠ ID.ID_FAIL :=
  BeliefTable.ne_ID_FAIL Belief.isBelief_literal

lemma AddressesFit.insideBlocks (h : p.AddressesFit) : p.InsideBlocks := by
  have hentered := QueryPlanGrammar.entered_of_parseStream p.plan_accepted
  intro c pos hpos
  cases hpos with
  | guess hqp htable hb hpos =>
      exact BeliefStateOffset.fits_iff.1 (h.guessed _ hqp _ htable _ hb) pos hpos
  | returned hentries he hb hpos =>
      obtain ⟨-, -, rfl⟩ := BeliefStateOffset.absPos_eq_some.1 hpos
      exact BeliefStateOffset.inBlock_startingOffset_add.2 (h.returned _ hentries _ he _ hb)
  | body hl hpos hlt =>
      obtain ⟨qp, table, hmem, htable, b, hb, naf, rfl⟩ :=
        (BridgeRuleGrammar.isLiteral_iff hentered).1 hl
      have hfits : bso.FitsID c b.address := by
        split at htable
        · rename_i hown
          exact (h.own _ hmem hown table htable b hb).1
        · rename_i hother
          exact h.neighbor _ hmem hother table htable b hb
      exact BeliefStateOffset.fitsID_iff.1 hfits pos hpos hlt
  | head hid hpos hlt =>
      rename_i id
      have hfound : id ≠ ID.ID_FAIL := by
        rintro rfl
        unfold ID.globalAddress at hpos
        rw [if_neg (fun hbelief => absurd hbelief.1 (by decide))] at hpos
        exact absurd hpos.symm (Option.some_ne_none pos)
      obtain ⟨qp, table, hmem, htable, b, hb, rfl⟩ :=
        (BridgeRuleGrammar.isHead_iff hentered hfound).1 hid
      exact BeliefStateOffset.fitsID_iff.1 (h.own _ hmem rfl table htable b hb).1 pos hpos hlt
  | answerSet hid hfound hpos =>
      obtain ⟨qp, table, hmem, htable, b, hb, rfl⟩ :=
        (BridgeRuleGrammar.isHead_iff hentered hfound).1 hid
      exact BeliefStateOffset.fits_iff.1 (h.own _ hmem rfl table htable b hb).2 pos hpos

lemma InsideBlocks.addressesFit (h : p.InsideBlocks) : p.AddressesFit := by
  have hentered := QueryPlanGrammar.entered_of_parseStream p.plan_accepted
  refine ⟨?_, ?_, ?_, ?_⟩
  · intro e he table htable b hb
    exact BeliefStateOffset.fits_iff.2 (fun pos hpos => h _ _ (Computes.guess he htable hb hpos))
  · intro e he hother table htable b hb
    apply BeliefStateOffset.fitsID_iff.2
    intro pos hpos hlt
    refine h _ _ (Computes.body ((BridgeRuleGrammar.isLiteral_iff hentered).2 ?_) hpos hlt)
    refine ⟨e.2, table, he, ?_, b, hb, false, rfl⟩
    rw [if_neg hother]
    exact htable
  · intro e he hown table htable b hb
    have hhead : BridgeRuleGrammar.IsHead p.plan p.ctxID (Belief.literal e.1 b.address false) := by
      rw [hown]
      apply (BridgeRuleGrammar.isHead_iff hentered literal_ne_ID_FAIL).2
      refine ⟨e.2, table, ?_, htable, b, hb, rfl⟩
      rw [← hown]
      exact he
    constructor
    · apply BeliefStateOffset.fitsID_iff.2
      intro pos hpos hlt
      rw [show e.1 = p.ctxID from hown]
      exact h _ _ (Computes.head hhead hpos hlt)
    · apply BeliefStateOffset.fits_iff.2
      intro pos hpos
      rw [hown] at hpos hhead ⊢
      exact h _ _ (Computes.answerSet hhead literal_ne_ID_FAIL hpos)
  · intro entries hentries e he b hb
    obtain ⟨entries', hentries', -, hset⟩ :=
      ReturnPlanGrammar.readStream_of_parseStream p.returnPlan_accepted
    obtain rfl := Except.ok.inj (hentries.symm.trans hentries')
    have hpos := BeliefStateOffset.absPos_eq_some.2
      ⟨(hset e he b hb).1, (hset e he b hb).2, rfl⟩
    exact BeliefStateOffset.inBlock_startingOffset_add.1
      (h _ _ (Computes.returned hentries he hb hpos))

/-- The positions stay inside their blocks exactly when the addresses fit.  Nothing is assumed of
the two plans but that the parsers accept them, and nothing of the rules and the answer sets. -/
theorem insideBlocks_iff (bso : BeliefStateOffset) (p : AcceptedPlans bso) :
    p.InsideBlocks ↔ p.AddressesFit :=
  ⟨InsideBlocks.addressesFit, AddressesFit.insideBlocks⟩

/-- Then no belief has the position of an epsilon bit or of a belief of another context. -/
lemma InsideBlocks.no_alias (h : p.InsideBlocks) {c pos : ℕ} (hpos : p.Computes c pos) :
    (∀ d, pos ≠ bso.startingOffset d) ∧ ∀ d, p.Computes d pos → d = c :=
  ⟨(h c pos hpos).ne_startingOffset, fun d hd => (h d pos hd).unique (h c pos hpos)⟩

/-! ### Two contexts with one belief each -/

/-- The parsers read the plans of a daemon. -/
def read (bso : BeliefStateOffset) (queryText returnText : Text) (ctxID : ℕ) :
    Option (AcceptedPlans bso) :=
  match hplan : QueryPlanGrammar.parseStream queryText with
  | .error _ => none
  | .ok plan =>
      match hreturn : ReturnPlanGrammar.parseStream bso returnText with
      | .error _ => none
      | .ok returnPlan => some ⟨queryText, plan, hplan, returnText, returnPlan, hreturn, ctxID⟩

/-- A belief of context `0` has the address `2`, where the block of context `1` begins. -/
def strayPlan : Text :=
  "[\x7bContextId:0,HostName:\"h\",Port:1,Constants:[a],InputSignature:\x7b2:[b]\x7d,\x7d]".toList

def plainReturnPlan : Text :=
  "[\x7bContextId:1,ReturnSignature:[\x7bContextId:1,ReturnBeliefs:[1]\x7d]\x7d]".toList

/-- Both plans are accepted, and the guessed bit is the epsilon bit of context `1`. -/
theorem stray_address_leaves_block :
    ∃ p : AcceptedPlans (BeliefStateOffset.ofSucc 1 0), p.queryText = strayPlan ∧
      p.returnText = plainReturnPlan ∧ ¬ p.InsideBlocks := by
  have hread : (read (BeliefStateOffset.ofSucc 1 0) strayPlan plainReturnPlan 1).map
      (fun p => (p.queryText, p.returnText, p.plan.any (fun e => e.1 = 0 &&
        e.2.groundInputSignature.any (fun t => t.beliefs.any (fun b => b.address = 2))))) =
      some (strayPlan, plainReturnPlan, true) := by decide +kernel
  obtain ⟨p, -, heq⟩ := Option.map_eq_some_iff.1 hread
  obtain ⟨hquery, heq⟩ := Prod.mk.inj heq
  obtain ⟨hreturn, hstray⟩ := Prod.mk.inj heq
  refine ⟨p, hquery, hreturn, fun h => ?_⟩
  obtain ⟨e, he, hentry⟩ := List.any_eq_true.1 hstray
  rw [Bool.and_eq_true, decide_eq_true_eq] at hentry
  obtain ⟨table, htable, hbeliefs⟩ := (Option.any_eq_true _ _).1 hentry.2
  obtain ⟨b, hb, haddress⟩ := List.any_eq_true.1 hbeliefs
  have hfits := h.addressesFit.guessed e he table htable b hb
  rw [hentry.1, of_decide_eq_true haddress] at hfits
  exact absurd (hfits (by decide) (by decide)) (by decide)

end AcceptedPlans

end Dmcs
