import Dmcs.Parser.BridgeRuleReuse
import Dmcs.Parser.DLVResultGrammar
import Dmcs.Parser.PlanReuse

/-!
# One parser object for many inputs (`Parser`)

The semantics manager, and the result it points to, live as long as the parser object; only the
grammar is built anew for every call of `parseString`, and what a call returns is the pointer to the
result.  The second input of a parser is read into the result of the first: a map keeps the entries
it has, a belief state the bits, and the rules of a second file are added to those of the first.
-/

namespace Dmcs

open Qi BaseParser Reuse
open QueryPlanGrammar (ContextQueryPlan SameMap)

/-! ## Answer sets -/

namespace DLVResultGrammar

/-- A `DLVResultParser_t`; its result is the belief state it writes into. -/
def parser (bso : BeliefStateOffset) (btab : BeliefTable) (ctx : ℕ) :
    Reusable Text (NewBeliefState bso.width) (NewBeliefState bso.width) ParseError where
  init := NewBeliefState.empty bso.width
  call instr := phraseParse (skipper '#') (dlvline bso btab ctx (skipper '#')) instr
  result := id

/-- The bits that are written in `new`, over those of `old`. -/
def overlay {w : ℕ} (old new : NewBeliefState w) : NewBeliefState w :=
  ⟨old.status_bit ||| new.status_bit, old.value_bit &&& ~~~new.status_bit ||| new.value_bit⟩

section Overlay

variable {w : ℕ} {old new : NewBeliefState w}

@[simp] lemma overlay_status (i : ℕ) : (overlay old new).status_bit.getLsbD i =
    (old.status_bit.getLsbD i || new.status_bit.getLsbD i) := by
  simp [overlay]

@[simp] lemma overlay_value (i : ℕ) : (overlay old new).value_bit.getLsbD i =
    (old.value_bit.getLsbD i && (decide (i < w) && !new.status_bit.getLsbD i) ||
      new.value_bit.getLsbD i) := by
  simp [overlay]

lemma overlay_empty : overlay old (NewBeliefState.empty w) = old := by
  apply NewBeliefState.ext_bits
  · simp
  · intro i
    rw [overlay_value, NewBeliefState.empty_status, NewBeliefState.empty_value]
    by_cases hi : i < w
    · simp [hi]
    · simp [BitVec.getLsbD_of_ge _ _ (not_lt.1 hi)]

lemma empty_overlay : overlay (NewBeliefState.empty w) new = new := by
  apply NewBeliefState.ext_bits
  · simp
  · simp

lemma overlay_self : overlay old old = old := by
  apply NewBeliefState.ext_bits
  · simp
  · intro i
    rw [overlay_value]
    cases old.value_bit.getLsbD i with
    | false => rfl
    | true => simp

/-- A bit that is written shows. -/
lemma overlay_set {pos : ℕ} {v : TruthVal} (hv : v ≠ .dmcsUndef) :
    overlay old (new.set pos v) = (overlay old new).set pos v := by
  apply NewBeliefState.ext_bits
  · intro i
    rw [overlay_status, NewBeliefState.set_status, NewBeliefState.set_status, overlay_status]
    split
    · simp [hv]
    · rfl
  · intro i
    rw [overlay_value, NewBeliefState.set_value, NewBeliefState.set_status,
      NewBeliefState.set_value, overlay_value]
    split
    · simp [hv]
    · rfl

end Overlay

/-! ### The grammar -/

section Tokens

variable {σ : Type} {g : Prop} {P : σ → σ → Prop} (skip : Skipper)

lemma follows_number : Follows g (number skip) (number skip) P P P Eq := by
  apply Follows.alt
  · apply Follows.lexeme
    exact (Follows.charIf id _).seq (fun _ => Follows.pure rfl)
  · apply Follows.lexeme
    apply (Follows.charIf id _).seq
    intro c
    exact (Follows.charIf id _).many.list.seq (fun _ => Follows.pure rfl)

lemma follows_ident : Follows g (ident skip) (ident skip) P P P Eq := by
  apply Follows.alt
  · apply Follows.lexeme
    apply (Follows.charIf id _).seq
    intro _
    apply (Follows.charIf id _).many.list.seq
    intro cs
    exact (Follows.charIf id _).seq (fun _ => Follows.pure rfl)
  · apply (Follows.charIf skip _).seq
    intro c
    apply ((Follows.charIf skip _).alt (Follows.charIf skip _)).many.list.seq
    intro cs
    exact Follows.pure rfl

lemma follows_argument : Follows g (argument skip) (argument skip) P P P Eq :=
  (follows_ident skip).alt (follows_number skip)

lemma follows_fact : Follows g (fact skip) (fact skip) P P P Eq := by
  refine Follows.raw (Q := Eq) ?_ skip
  apply (follows_ident skip).seq
  intro _
  apply Follows.option
  apply Follows.opt
  apply (Follows.charIf skip _).seq
  intro _
  apply (follows_argument skip).seq
  intro _
  refine Follows.seq (R := P) (Follows.list (Follows.many ?_)) (fun _ => ?_)
  · exact (Follows.charIf skip _).seq (fun _ => follows_argument skip)
  · exact (Follows.charIf skip _).seq (fun _ => Follows.pure rfl)

end Tokens

section Actions

variable {bso : BeliefStateOffset} {btab : BeliefTable} {ctx : ℕ} {skip : Skipper}
  {old : NewBeliefState bso.width}

lemma handleLiteral_eq_some {source : Option Char × Text} {s s' : NewBeliefState bso.width}
    {u : Unit} :
    handleLiteral bso btab ctx source s = some (s', u) ↔
      (btab.getIDByString source.2 ≠ ID.ID_FAIL ∧ ctx < bso.noBlocks ∧
        bso.startingOffset ctx + (btab.getIDByString source.2).address < bso.width) ∧
      s' = s.set (bso.startingOffset ctx + (btab.getIDByString source.2).address)
        (if source.1.isSome then .dmcsFalse else .dmcsTrue) := by
  unfold handleLiteral
  simp only
  constructor
  · intro h
    by_cases hset : btab.getIDByString source.2 ≠ ID.ID_FAIL ∧ ctx < bso.noBlocks ∧
        bso.startingOffset ctx + (btab.getIDByString source.2).address < bso.width
    · rw [if_pos hset, Option.some_inj, Prod.mk.injEq] at h
      exact ⟨hset, h.1.symm⟩
    · rw [if_neg hset] at h
      cases h
  · rintro ⟨hset, rfl⟩
    rw [if_pos hset]

/-- The second state holds what was there before and, over it, what is written in the first. -/
def Overlaid (old s t : NewBeliefState bso.width) : Prop := t = overlay old s

lemma follows_literal (stop : Char) :
    Follows False (literal bso btab ctx skip stop) (literal bso btab ctx skip stop) (Overlaid old)
      (Overlaid old) (Overlaid old) Eq := by
  refine Follows.action (R := Overlaid old) (Q := Eq) ?_ ?_
  · apply (Follows.charIf skip _).opt.option.seq
    intro strong_neg
    apply (follows_fact skip).seq
    intro belief_text
    exact (Follows.lit skip _).seq (fun _ => Follows.pure rfl)
  · rintro source _ s t s' c rfl rfl hact
    obtain ⟨hset, hs'⟩ := handleLiteral_eq_some.1 hact
    refine Or.inr ⟨_, (), handleLiteral_eq_some.2 ⟨hset, rfl⟩, ?_, rfl⟩
    rw [hs']
    apply Eq.symm
    apply overlay_set
    split
    · decide
    · decide

lemma follows_answerset :
    Follows False (answerset bso btab ctx skip) (answerset bso btab ctx skip) (Overlaid old)
      (Overlaid old) (Overlaid old) Eq := by
  apply Follows.alt
  · exact (Follows.lit skip _).seq (fun _ => Follows.lit skip _)
  · apply (Follows.lit skip _).seq
    intro _
    apply (follows_literal ',').many.list.seq
    intro _
    exact follows_literal '}'

lemma follows_dlvline :
    Follows False (dlvline bso btab ctx skip) (dlvline bso btab ctx skip) (Overlaid old)
      (Overlaid old) (Overlaid old) Eq := by
  apply Follows.alt
  · apply (Follows.lit skip _).opt.option.seq
    intro _
    exact follows_answerset
  · apply (Follows.lit skip _).seq
    intro _
    apply ((Follows.charIf skip _).alt (Follows.charIf skip _)).many1.bind
    intro _ _ _
    exact Follows.pure rfl

end Actions

/-- A `DLVResultParser_t` writes every line over the ones before. -/
lemma accumulates (bso : BeliefStateOffset) (btab : BeliefTable) (ctx : ℕ) :
    (parser bso btab ctx).Accumulates Eq overlay where
  equiv := eq_equivalence
  fresh _ := empty_overlay
  absorbs v v' h := by
    rw [← h]
    exact overlay_self
  call_eq str v hv t := by
    obtain ⟨s', hs', rfl⟩ := Reusable.alone_eq_ok.1 hv
    have hinit : Overlaid t (NewBeliefState.empty bso.width) t := overlay_empty.symm
    rcases phraseParse_follows follows_dlvline hinit hs' with ⟨hfalse, -⟩ | ⟨t', ht', hover⟩
    · exact hfalse.elim
    · exact ⟨t', ht', hover⟩

end DLVResultGrammar

/-! ## All parsers -/

/-- When a parser object has no memory: one that merges its inputs where they all say the same, a
parser of bridge rules where it reads one file only or files without rules. -/
theorem parsers_noMemory_iff {same : ContextQueryPlan → ContextQueryPlan → Prop}
    (hsame : Equivalence same) :
    (∀ inputs, QueryPlanGrammar.parser.Accepts inputs →
      (QueryPlanGrammar.parser.NoMemory (SameMap same) inputs ↔
        QueryPlanGrammar.parser.AllAlike (SameMap same) inputs)) ∧
    (∀ bso inputs, (ReturnPlanGrammar.parser bso).Accepts inputs →
      ((ReturnPlanGrammar.parser bso).NoMemory (SameMap Eq) inputs ↔
        (ReturnPlanGrammar.parser bso).AllAlike (SameMap Eq) inputs)) ∧
    (∀ plan ctxID inputs, (BridgeRuleGrammar.parser plan ctxID).Accepts inputs →
      ((BridgeRuleGrammar.parser plan ctxID).NoMemory Eq inputs ↔
        inputs.length ≤ 1 ∨ ∀ str ∈ inputs, skip str = [])) ∧
    (∀ bso btab ctx inputs, (DLVResultGrammar.parser bso btab ctx).Accepts inputs →
      ((DLVResultGrammar.parser bso btab ctx).NoMemory Eq inputs ↔
        (DLVResultGrammar.parser bso btab ctx).AllAlike Eq inputs)) :=
  ⟨fun _ hin => (QueryPlanGrammar.accumulates hsame).noMemory_iff hin,
    fun _ _ hin => ReturnPlanGrammar.accumulates.noMemory_iff hin,
    fun _ _ _ hin => BridgeRuleGrammar.noMemory_iff hin,
    fun bso btab ctx _ hin => (DLVResultGrammar.accumulates bso btab ctx).noMemory_iff hin⟩

/-- The beliefs `a` and `b` of a context. -/
def twoBeliefs : BeliefTable :=
  (BeliefTable.storeAll [Belief.ofContext 0 0 "epsilon".toList, Belief.ofContext 0 0 "a".toList,
    Belief.ofContext 0 0 "b".toList]).getD BeliefTable.empty

/-- A parser of answer sets over them. -/
def answerSets : Reusable Text (NewBeliefState (BeliefStateOffset.ofSucc 0 1).width)
    (NewBeliefState (BeliefStateOffset.ofSucc 0 1).width) ParseError :=
  DLVResultGrammar.parser (BeliefStateOffset.ofSucc 0 1) twoBeliefs 0

def lineA : Text := "\x7ba\x7d".toList

def lineB : Text := "\x7bb\x7d".toList

lemma answerSets_lineA : answerSets.alone lineA =
    .ok ((NewBeliefState.empty _).set 1 .dmcsTrue) := by decide +kernel

lemma answerSets_lineB : answerSets.alone lineB =
    .ok ((NewBeliefState.empty _).set 2 .dmcsTrue) := by decide +kernel

lemma answerSets_accepts {inputs : List Text} (h : ∀ str ∈ inputs, str = lineA ∨ str = lineB) :
    answerSets.Accepts inputs := by
  intro str hstr
  rcases h str hstr with rfl | rfl
  · exact ⟨_, answerSets_lineA⟩
  · exact ⟨_, answerSets_lineB⟩

/-- A line that comes twice is read the same both times. -/
theorem parsers_noMemory_iff_repeatedLine : answerSets.NoMemory Eq [lineA, lineA] := by
  have hin : answerSets.Accepts [lineA, lineA] := answerSets_accepts (by simp)
  apply ((parsers_noMemory_iff (@eq_equivalence ContextQueryPlan)).2.2.2 _ _ _ _ hin).2
  intro i hi j hj v w hv hw
  have hline : ∀ k ∈ [lineA, lineA], k = lineA := by simp
  rw [hline i hi] at hv
  rw [hline j hj, hv] at hw
  exact Except.ok.inj hw

/-- After the answer set with `a` the one with `b` holds both. -/
theorem answerSets_remember : answerSets.Accepts [lineA, lineB] ∧
    ¬ answerSets.NoMemory Eq [lineA, lineB] := by
  refine ⟨answerSets_accepts (by simp), fun h => ?_⟩
  have heq := h.allAlike eq_equivalence lineA (by simp) lineB (by simp) _ _ answerSets_lineA
    answerSets_lineB
  revert heq
  decide

end Dmcs
