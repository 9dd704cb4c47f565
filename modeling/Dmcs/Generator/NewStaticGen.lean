import Dmcs.Mcs.BeliefTable
import Dmcs.Mcs.NewBeliefState

/-!
# The plans the generator writes (`new_staticGen`)

The generator of test cases writes a query plan and a return plan for every context.  Both walk over
the `TRUE` bits of one block of an interface state with `getNext` and print the addresses they meet;
`walk` is that loop.

A query plan lists the beliefs of tables.  The order in which a hashed index is printed is not
specified, so a table is printed in the order of its list.  The functions that print a table return
an `Option`: looking up a belief throws when its address is unknown, storing it asserts that it is
new, and the first token of a text is read without a test that there is one.
-/

namespace Dmcs

namespace NewStaticGen

/-- The loop over the bits of a block: `check_bit = getNext(check_bit)` until there is none up to
`lastBit`. -/
def walk {w : ℕ} (bs : NewBeliefState w) (lastBit : ℕ) : ℕ → ℕ → List ℕ
  | 0, _ => []
  | fuel + 1, checkBit =>
      let next := bs.getNext checkBit
      if next > lastBit ∨ next = 0 then [] else next :: walk bs lastBit fuel next

section Plans

variable (bso : BeliefStateOffset)

/-- The bound of the loop: the last block is handled apart. -/
def lastBit (ctx : ℕ) : ℕ :=
  if ctx = bso.noBlocks - 1 then bso.width else bso.startingOffset (ctx + 1) - 1

/-- The local ids of the `TRUE` beliefs of a block, in the order of the loop. -/
def localIds (bs : NewBeliefState bso.width) (ctx : ℕ) : List ℕ :=
  (walk bs (lastBit bso ctx) (bso.width + 1) (bso.startingOffset ctx)).map
    (fun bit => bit - bso.startingOffset ctx)

/-! ## Return plans -/

/-- Numbers with a comma and a blank between them. -/
def commaSeparated : List ℕ → Text
  | [] => []
  | n :: ns => decimal n ++ ns.flatMap (fun n => ", ".toList ++ decimal n)

/-- One block of a return signature; a block whose epsilon bit is not `TRUE` is left out. -/
def writeReturnBeliefs (bs : NewBeliefState bso.width) (count : ℕ) : Text :=
  if bs.test (bso.startingOffset count) = .dmcsTrue then
    "      \x7b\n        ContextId: ".toList ++ decimal count ++
      ",\n        ReturnBeliefs: [".toList ++ commaSeparated (localIds bso bs count) ++
      "]\n      \x7d,\n".toList
  else []

/-- `write_return_signature_to_file`. -/
def writeReturnSignature (bs : NewBeliefState bso.width) (ctx_id : ℕ) : Text :=
  "  \x7b\n    ContextId: ".toList ++ decimal ctx_id ++ ",\n    ReturnSignature:\n    [\n".toList ++
    (List.range bso.noBlocks).flatMap (writeReturnBeliefs bso bs) ++ "   ]\n  \x7d,\n".toList

/-- A return plan: the signatures of the parents, between brackets. -/
def writeReturnPlan (entries : List (ℕ × NewBeliefState bso.width)) : Text :=
  "[\n".toList ++ entries.flatMap (fun e => writeReturnSignature bso e.2 e.1) ++ "]\n".toList

/-! ## Query plans -/

def BASE_PORT : ℕ := 5000

/-- The tokens of a text between the characters `,`, `(` and `)`; empty tokens are dropped. -/
def tokens (text : Text) : List Text :=
  (text.splitOnP (fun c => c = ',' || c = '(' || c = ')')).filter (fun t => !t.isEmpty)

/-- The line of a belief in a signature. -/
def genPrintBelief (b : Belief) : Option Text :=
  if b.address = 0 then some []
  else
    match tokens b.text with
    | [] => none
    | t :: ts =>
        some ("        ".toList ++ decimal b.address ++ ": [".toList ++ t ++
          ts.flatMap (fun t => ", ".toList ++ t) ++ "],\n".toList)

/-- `BeliefTable::gen_print`. -/
def genPrint (t : BeliefTable) : Option Text := do
  let lines ← t.beliefs.mapM genPrintBelief
  some ("      \x7b\n".toList ++ lines.flatten ++ "      \x7d,\n".toList)

/-- `write_belief_table_to_file`. -/
def writeBeliefTable (btab : BeliefTable) (signature_kind : Text) (ctx_id : ℕ) : Option Text := do
  let table ← genPrint btab
  some ("  \x7b\n    ContextId: ".toList ++ decimal ctx_id ++
    ",\n    HostName: \"localhost\",\n    Port: ".toList ++ decimal (BASE_PORT + ctx_id) ++
    ",\n    ".toList ++ signature_kind ++ ":\n".toList ++ table ++ "  \x7d,\n".toList)

/-- `input_signature_from_belief_state`. -/
def inputSignatureFromBeliefState (sigma : ℕ → BeliefTable) (ctx_id : ℕ)
    (bs : NewBeliefState bso.width) : Option BeliefTable :=
  (localIds bso bs ctx_id).foldlM (fun insig local_id => do
      let id : ID := ⟨BitVec.ofNat 32 ctx_id ||| ID.MAINKIND_BELIEF, local_id⟩
      let b ← (sigma ctx_id).getByID id
      insig.storeWithID b id)
    BeliefTable.empty

/-- `write_query_plan`; the interface map has a state for every pair of a context and a neighbour.
-/
def writeQueryPlan (sigma : ℕ → BeliefTable) (ctx_id : ℕ)
    (interface : List ((ℕ × ℕ) × NewBeliefState bso.width)) : Option Text := do
  let own ← writeBeliefTable (sigma ctx_id) "LocalSignature".toList ctx_id
  let neighbors ← (interface.filter (fun e => e.1.1 = ctx_id)).mapM (fun e => do
    let insig ← inputSignatureFromBeliefState bso sigma e.1.2 e.2
    writeBeliefTable insig "InputSignature".toList e.1.2)
  some ("[\n".toList ++ own ++ neighbors.flatten ++ "]\n".toList)

end Plans

/-! ## The walk over a block -/

section Walk

open BitScan

variable {w : ℕ} {bs : NewBeliefState w} {lastBit fuel bit i : ℕ}

/-- The loop meets the `TRUE` bits after the cursor, up to the bound. -/
lemma mem_walk (hfuel : (above bs.trueBits bit).length < fuel) :
    i ∈ walk bs lastBit fuel bit ↔ bit < i ∧ i ≤ lastBit ∧ bs.trueBits.getLsbD i = true := by
  induction fuel generalizing bit with
  | zero => omega
  | succ fuel ih =>
      unfold walk
      rw [NewBeliefState.getNext_eq]
      cases habove : above bs.trueBits bit with
      | nil =>
          rw [nextOne_of_above_nil habove, if_pos (Or.inr rfl)]
          have hnone : ¬ (bit < i ∧ bs.trueBits.getLsbD i = true) := by
            rw [← mem_above, habove]
            exact List.not_mem_nil
          simp only [List.not_mem_nil, false_iff]
          exact fun h => hnone ⟨h.1, h.2.2⟩
      | cons x l =>
          obtain ⟨hnext, hlt, htrue, hrest⟩ := nextOne_of_above_cons habove
          -- every further `TRUE` bit after the cursor is `x` or comes after it
          have hafter : bit < i ∧ bs.trueBits.getLsbD i = true ↔
              i = x ∨ (x < i ∧ bs.trueBits.getLsbD i = true) := by
            rw [← mem_above, habove, List.mem_cons, ← mem_above, hrest]
          rw [hnext]
          by_cases hx : x > lastBit
          · rw [if_pos (Or.inl hx)]
            simp only [List.not_mem_nil, false_iff]
            rintro ⟨hbit, hlast, hi⟩
            rcases hafter.1 ⟨hbit, hi⟩ with rfl | ⟨hxi, -⟩
            · omega
            · omega
          · rw [if_neg (by omega), List.mem_cons,
              ih (by rw [hrest]; rw [habove] at hfuel; simpa using hfuel)]
            constructor
            · rintro (rfl | ⟨hxi, hlast, hi⟩)
              · exact ⟨hlt, by omega, htrue⟩
              · exact ⟨by omega, hlast, hi⟩
            · rintro ⟨hbit, hlast, hi⟩
              rcases hafter.1 ⟨hbit, hi⟩ with rfl | ⟨hxi, -⟩
              · exact Or.inl rfl
              · exact Or.inr ⟨hxi, hlast, hi⟩

end Walk

section LocalIds

variable {bso : BeliefStateOffset} {bs : NewBeliefState bso.width} {ctx : ℕ}

/-- The last bit of a block is inside the bound, the first of the next block is not. -/
lemma le_lastBit_iff (hctx : ctx < bso.noBlocks) {i : ℕ} (hi : i < bso.width) :
    i ≤ lastBit bso ctx ↔ i ≤ bso.startingOffset ctx + bso.sizeBs := by
  unfold lastBit
  by_cases hlast : ctx = bso.noBlocks - 1
  · rw [if_pos hlast]
    have hwidth : bso.width = bso.startingOffset ctx + bso.sizeBs + 1 := by
      have hstep : bso.noBlocks = ctx + 1 := by omega
      rw [BeliefStateOffset.width, bso.startingOffset_eq, hstep, Nat.succ_mul]
      omega
    omega
  · rw [if_neg hlast]
    show i ≤ bso.startingOffset ctx + bso.sizeBs + 1 - 1 ↔ _
    omega

/-- The printed ids are the addresses of the `TRUE` beliefs of the block. -/
lemma mem_localIds (hctx : ctx < bso.noBlocks) {address : ℕ} :
    address ∈ localIds bso bs ctx ↔
      1 ≤ address ∧ address ≤ bso.sizeBs ∧
        bs.test (bso.startingOffset ctx + address) = .dmcsTrue := by
  have hfuel : (BitScan.above bs.trueBits (bso.startingOffset ctx)).length < bso.width + 1 :=
    Nat.lt_succ_of_le (BitScan.above_length_le _ _)
  have htest : ∀ i, bs.trueBits.getLsbD i = true ↔ bs.test i = .dmcsTrue := by
    intro i
    rw [NewBeliefState.trueBits_getLsbD, Bool.and_eq_true, NewBeliefState.test_eq_true]
  unfold localIds
  rw [List.mem_map]
  constructor
  · rintro ⟨bit, hbit, rfl⟩
    obtain ⟨hlow, hhigh, htrue⟩ := (mem_walk hfuel).1 hbit
    have hlt : bit < bso.width :=
      NewBeliefState.status_lt (NewBeliefState.test_eq_true.1 ((htest bit).1 htrue)).1
    rw [le_lastBit_iff hctx hlt] at hhigh
    have hsum : bso.startingOffset ctx + (bit - bso.startingOffset ctx) = bit := by omega
    rw [hsum]
    exact ⟨by omega, by omega, (htest bit).1 htrue⟩
  · rintro ⟨hone, hsize, htrue⟩
    have hlt := bso.startingOffset_add_lt hctx hsize
    refine ⟨bso.startingOffset ctx + address, (mem_walk hfuel).2 ⟨by omega, ?_, ?_⟩, by omega⟩
    · rw [le_lastBit_iff hctx hlt]
      omega
    · exact (htest _).2 htrue

end LocalIds

end NewStaticGen

end Dmcs
