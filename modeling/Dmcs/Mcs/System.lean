import Mathlib.Data.Finset.Card
import Mathlib.Logic.Relation
import Dmcs.Lib.History
import Dmcs.Mcs.CycleBreaker
import Dmcs.Mcs.JoinBlocks
import Dmcs.Mcs.NormalContext

/-!
# A multi-context system and its answers

A `System` gives every context a signature, bridge rules and an evaluator, and all contexts the
interface of their return plans.  `Answers` is what the contexts send for the request `(0, 0)` when
every request is served on its own: a context that is not in the history of the request asks its
neighbours with itself added to the history, joins their answers and evaluates each joined input;
a context that is in the history is answered for by its cycle breaker.

`IsEquilibrium` is what the answers are meant to be: one local state for every reachable context,
accepted by the context for the heads of its bridge rules that apply.

## What is abstract and what is not

The contexts are the ones of the code: `Answers` is built from `processRequest` of the normal
context and `serve` of the cycle breaker, with the guesses, the evaluator and the projection to the
interface.  Neighbours and input signatures are derived from the bridge rules, as the parser of
bridge rules does it.  What a context accepts for given heads is a parameter, a list of local
states, and the solver prints them.

Two things are set apart.  Every request meets a fresh cache, so that requests do not disturb each
other; what they do to each other is the subject of `CycleBreaker` and `NormalContext`.  And the
inputs of a context are the joins of what its neighbours send; `JoinedAnswers` takes them from the
joiner instead, and `StreamedSystem` pack by pack.

A belief may have the last address of its block, as the parsers accept it.  `StrictAddresses`
excludes this where it matters, since `combine` does not look at that belief.
-/

namespace Dmcs

open BitScan NewBeliefState Paging

variable {bso : BeliefStateOffset}

/-- A local state of a context: the epsilon bit, a truth value for every belief of the signature,
and no other status bit. -/
structure IsLocal (c : ℕ) (signature : List ℕ) (m : NewBeliefState bso.width) : Prop where
  status : ∀ i, m.status_bit.getLsbD i = true ↔
    i = bso.startingOffset c ∨ ∃ a ∈ signature, i = bso.startingOffset c + a
  epsilon : m.value_bit.getLsbD (bso.startingOffset c) = true
  value_le : ∀ i, m.value_bit.getLsbD i = true → m.status_bit.getLsbD i = true

/-- The local state with the given truth values. -/
def localState (bso : BeliefStateOffset) (c : ℕ) (signature : List ℕ) (v : ℕ → Bool) :
    NewBeliefState bso.width :=
  ⟨ofPred bso.width (fun i => decide (i = bso.startingOffset c ∨
      ∃ a ∈ signature, i = bso.startingOffset c + a)),
    ofPred bso.width (fun i => decide (i = bso.startingOffset c ∨
      ∃ a ∈ signature, i = bso.startingOffset c + a ∧ v a = true))⟩

lemma isLocal_localState {c : ℕ} (hc : c < bso.noBlocks) {signature : List ℕ}
    (hle : ∀ a ∈ signature, a ≤ bso.sizeBs) (v : ℕ → Bool) :
    IsLocal c signature (localState bso c signature v) := by
  have hwidth : ∀ a ≤ bso.sizeBs, bso.startingOffset c + a < bso.width :=
    fun a ha => bso.startingOffset_add_lt hc ha
  refine ⟨fun i => ?_, ?_, fun i hi => ?_⟩
  · rw [localState, getLsbD_ofPred, Bool.and_eq_true, decide_eq_true_eq, decide_eq_true_eq,
      and_iff_right_iff_imp]
    rintro (rfl | ⟨a, ha, rfl⟩)
    · exact hwidth 0 (Nat.zero_le _)
    · exact hwidth a (hle a ha)
  · rw [localState, getLsbD_ofPred, Bool.and_eq_true, decide_eq_true_eq, decide_eq_true_eq]
    exact ⟨hwidth 0 (Nat.zero_le _), Or.inl rfl⟩
  · rw [localState, getLsbD_ofPred, Bool.and_eq_true, decide_eq_true_eq, decide_eq_true_eq] at hi ⊢
    exact ⟨hi.1, hi.2.imp_right (fun ⟨a, ha, h⟩ => ⟨a, ha, h.1⟩)⟩

/-- A multi-context system.  The evaluator of a context maps a set of heads, given by their
positions, to local states.  No belief address is larger than `SIZE_BS`. -/
structure System (bso : BeliefStateOffset) where
  signature : ℕ → List ℕ
  bridgeRules : ℕ → List BridgeRule
  acc : ℕ → Finset ℕ → List (NewBeliefState bso.width)
  interface : NewBeliefState bso.width
  address_pos : ∀ c, ∀ a ∈ signature c, 1 ≤ a
  address_le : ∀ c, ∀ a ∈ signature c, a ≤ bso.sizeBs
  head_known : ∀ c, ∀ r ∈ bridgeRules c,
    r.head.contextId = c ∧ r.head.address ∈ signature c
  body_known : ∀ c, ∀ r ∈ bridgeRules c, ∀ l ∈ r.body,
    l.belief.contextId < bso.noBlocks ∧ l.belief.address ∈ signature l.belief.contextId
  acc_isLocal : ∀ c heads, ∀ m ∈ acc c heads, IsLocal c (signature c) m

namespace System

variable (sys : System bso)

/-- `SIZE_BS` is larger than every belief address, so that `combine`, whose masks leave out the last
belief of a block, compares all of them. -/
class StrictAddresses : Prop where
  address_lt : ∀ c, ∀ a ∈ sys.signature c, a < bso.sizeBs

/-! ## The contexts -/

/-- The beliefs in the bodies of the bridge rules of a context, in order. -/
def bodyBeliefs (c : ℕ) : List BeliefId :=
  (sys.bridgeRules c).flatMap (fun r => r.body.map BridgeLiteral.belief)

/-- `GetBridgeAtom`: a context becomes a neighbour at the first atom that refers to it; atoms of the
context itself make no neighbour. -/
def neighborIds (c : ℕ) : List ℕ :=
  (sys.bodyBeliefs c).foldl (fun ids b =>
    if b.contextId = c ∨ b.contextId ∈ ids then ids else ids ++ [b.contextId]) []

/-- The ground input signature of context `c` for its neighbour `d`. -/
def inputSignature (c d : ℕ) : List ℕ :=
  ((sys.bodyBeliefs c).filter (fun b => b.contextId = d)).map BeliefId.address

/-- The heads of a `Heads` object: its `TRUE` bits. -/
def headSet (heads : NewBeliefState bso.width) : Finset ℕ := (ones heads.trueBits).toFinset

/-- What all the threads of a context share. -/
def newContext (c : ℕ) : NewContext bso where
  ctxId := c
  returnPlan := fun _ => some sys.interface
  bridgeRules := sys.bridgeRules c
  solver := fun heads _ => (sys.acc c (headSet heads)).map OutputLine.answerSet

/-- The normal context; without an optimised query plan there are no guessing neighbours. -/
def normalContext (c : ℕ) : NormalContext bso :=
  { sys.newContext c with guessingNeighbors := none }

/-- The cycle breaker, which guesses the whole input signature. -/
def cycleBreaker (c : ℕ) : CycleBreaker bso :=
  { sys.newContext c with
    queryPlan := (sys.neighborIds c).map (fun d => (d, sys.inputSignature c d)) }

/-- The request `(0, 0)` to a normal context whose joiner delivers `inputs`. -/
def normalRequest (c parent : ℕ) (inputs : List (NewBeliefState bso.width)) :
    (sys.normalContext c).Request :=
  ⟨parent, 0, 0, inputs, sys.interface, rfl, admissible_all, zero_lt_word⟩

/-- The request `(0, 0)` to a cycle breaker. -/
def breakerRequest (c parent : ℕ) : (sys.cycleBreaker c).Request :=
  ⟨parent, 0, 0, sys.interface, rfl, admissible_all, zero_lt_word⟩

/-- `Answers history parent c sent`: a request with this history, sent by `parent` to context `c`,
is answered by the states `sent`. -/
inductive Answers : Finset ℕ → ℕ → ℕ → List (NewBeliefState bso.width) → Prop
  /-- the normal context, with the answers of its neighbours -/
  | normal {history : Finset ℕ} {parent c : ℕ} {sent : List (NewBeliefState bso.width)}
      {cache : CachePosition} (hc : c ∉ history) (answers : ℕ → List (NewBeliefState bso.width))
      (hanswers : ∀ d ∈ sys.neighborIds c, Answers (insert c history) c d (answers d))
      (hsent : (sys.normalContext c).processRequest .init
        (sys.normalRequest c parent (joinedInputs ((sys.neighborIds c).map answers))) =
          some (sent, cache)) :
      Answers history parent c sent
  /-- the cycle breaker -/
  | breaker {history : Finset ℕ} {parent c : ℕ} {sent : List (NewBeliefState bso.width)}
      {cache : CachePosition} (hc : c ∈ history)
      (hsent : (sys.cycleBreaker c).serve .init (sys.breakerRequest c parent) =
        some (sent.map some ++ [none], cache)) :
      Answers history parent c sent

/-! ## Equilibria -/

/-- Context `c` imports a belief of context `d`. -/
def Imports (c d : ℕ) : Prop := ∃ b ∈ sys.bodyBeliefs c, b.contextId = d

/-- The contexts a request can reach. -/
def Reaches : ℕ → ℕ → Prop := Relation.ReflTransGen sys.Imports

/-- A bridge rule applies in a state: its positive literals are `TRUE`, the negated ones are not. -/
def Applies (r : BridgeRule) (s : NewBeliefState bso.width) : Prop :=
  ∀ l ∈ r.body, (s.test (l.belief.globalAddress bso) = .dmcsTrue ↔ l.naf = false)

instance (r : BridgeRule) (s : NewBeliefState bso.width) : Decidable (Applies r s) :=
  inferInstanceAs (Decidable (∀ l ∈ r.body, _))

/-- The heads of the bridge rules of `c` that apply in a state. -/
def applicableHeads (c : ℕ) (s : NewBeliefState bso.width) : Finset ℕ :=
  (((sys.bridgeRules c).filter (fun r => Applies r s)).map
    (fun r => r.head.globalAddress bso)).toFinset

/-- An equilibrium of the sub-system reachable from `r`: it is defined on the blocks of the
reachable contexts, and every such context accepts its block. -/
structure IsEquilibrium (r : ℕ) (s : NewBeliefState bso.width) : Prop where
  accepted : ∀ c, sys.Reaches r c → s.block bso c ∈ sys.acc c (sys.applicableHeads c s)
  defined : ∀ i, s.status_bit.getLsbD i = true ∨ s.value_bit.getLsbD i = true →
    sys.Reaches r (bso.blockOf i)

/-! ## Positions -/

/-- The bits of the local states of a context. -/
def localBits (c : ℕ) : Set ℕ :=
  {i | i = bso.startingOffset c ∨ ∃ a ∈ sys.signature c, i = bso.startingOffset c + a}

/-- The bits of the guesses of a cycle breaker. -/
def guessedBits (c : ℕ) : Set ℕ :=
  {i | ∃ b ∈ sys.bodyBeliefs c, b.contextId ≠ c ∧
    (i = bso.startingOffset b.contextId ∨ i = b.globalAddress bso)}

/-- The bits the return plans keep. -/
def keptBits : Set ℕ := {i | sys.interface.status_bit.getLsbD i = true}

variable {sys} {c d i : ℕ} {b : BeliefId}

lemma exists_of_mem_localBits (h : i ∈ sys.localBits c) :
    ∃ j ≤ bso.sizeBs, i = bso.startingOffset c + j := by
  rcases h with rfl | ⟨a, ha, rfl⟩
  · exact ⟨0, Nat.zero_le _, rfl⟩
  · exact ⟨a, sys.address_le c a ha, rfl⟩

lemma blockOf_of_mem_localBits (h : i ∈ sys.localBits c) : bso.blockOf i = c := by
  obtain ⟨j, hj, rfl⟩ := exists_of_mem_localBits h
  exact bso.blockOf_add hj

lemma masked_of_mem_localBits [sys.StrictAddresses] (h : i ∈ sys.localBits c) : Masked bso i := by
  rcases h with rfl | ⟨a, ha, rfl⟩
  · rw [Masked, ← Nat.add_zero (bso.startingOffset c), bso.add_mod (Nat.zero_le _)]
    exact bso.sizeBs_pos
  · rw [Masked, bso.add_mod (sys.address_le c a ha)]
    exact StrictAddresses.address_lt c a ha

lemma lt_width_of_mem_localBits (hc : c < bso.noBlocks) (h : i ∈ sys.localBits c) :
    i < bso.width := by
  obtain ⟨j, hj, rfl⟩ := exists_of_mem_localBits h
  exact bso.startingOffset_add_lt hc hj

lemma known_of_mem_bodyBeliefs (h : b ∈ sys.bodyBeliefs c) :
    b.contextId < bso.noBlocks ∧ b.address ∈ sys.signature b.contextId := by
  obtain ⟨r, hr, hb⟩ := List.mem_flatMap.mp h
  obtain ⟨l, hl, rfl⟩ := List.mem_map.mp hb
  exact sys.body_known c r hr l hl

lemma globalAddress_mem_localBits (h : b ∈ sys.bodyBeliefs c) :
    b.globalAddress bso ∈ sys.localBits b.contextId :=
  Or.inr ⟨b.address, (known_of_mem_bodyBeliefs h).2, Nat.add_comm _ _⟩

lemma Imports.lt (h : sys.Imports c d) : d < bso.noBlocks := by
  obtain ⟨b, hb, rfl⟩ := h
  exact (known_of_mem_bodyBeliefs hb).1

lemma Reaches.lt (hc : c < bso.noBlocks) (h : sys.Reaches c d) : d < bso.noBlocks := by
  cases h with
  | refl => exact hc
  | tail _ h => exact h.lt

private lemma neighborIds_fold (c : ℕ) (bs : List BeliefId) (ids : List ℕ) (hids : ids.Nodup) :
    (bs.foldl (fun ids b =>
        if b.contextId = c ∨ b.contextId ∈ ids then ids else ids ++ [b.contextId]) ids).Nodup ∧
      ∀ d, d ∈ bs.foldl (fun ids b =>
          if b.contextId = c ∨ b.contextId ∈ ids then ids else ids ++ [b.contextId]) ids ↔
        d ∈ ids ∨ (d ≠ c ∧ ∃ b ∈ bs, b.contextId = d) := by
  induction bs generalizing ids with
  | nil => simp [hids]
  | cons b bs ih =>
      rw [List.foldl_cons]
      by_cases h : b.contextId = c ∨ b.contextId ∈ ids
      · rw [if_pos h]
        refine ⟨(ih ids hids).1, fun d => ?_⟩
        rw [(ih ids hids).2 d]
        simp only [List.mem_cons, exists_eq_or_imp]
        constructor
        · rintro (hd | ⟨hne, hd⟩)
          · exact Or.inl hd
          · exact Or.inr ⟨hne, Or.inr hd⟩
        · rintro (hd | ⟨hne, rfl | hd⟩)
          · exact Or.inl hd
          · exact Or.inl (h.resolve_left hne)
          · exact Or.inr ⟨hne, hd⟩
      · rw [if_neg h]
        obtain ⟨hbc, hbids⟩ := not_or.mp h
        have hnodup : (ids ++ [b.contextId]).Nodup :=
          List.Nodup.append hids (List.nodup_singleton _) (by simpa using hbids)
        refine ⟨(ih _ hnodup).1, fun d => ?_⟩
        rw [(ih _ hnodup).2 d]
        simp only [List.mem_append, List.mem_cons, List.not_mem_nil, or_false, exists_eq_or_imp]
        constructor
        · rintro ((hd | rfl) | ⟨hne, hd⟩)
          · exact Or.inl hd
          · exact Or.inr ⟨hbc, Or.inl rfl⟩
          · exact Or.inr ⟨hne, Or.inr hd⟩
        · rintro (hd | ⟨hne, rfl | hd⟩)
          · exact Or.inl (Or.inl hd)
          · exact Or.inl (Or.inr rfl)
          · exact Or.inr ⟨hne, hd⟩

lemma mem_neighborIds : d ∈ sys.neighborIds c ↔ d ≠ c ∧ sys.Imports c d := by
  rw [neighborIds, (neighborIds_fold c (sys.bodyBeliefs c) [] List.nodup_nil).2 d]
  simp [Imports]

variable (sys c) in
lemma nodup_neighborIds : (sys.neighborIds c).Nodup :=
  (neighborIds_fold c (sys.bodyBeliefs c) [] List.nodup_nil).1

/-! ## One context -/

variable {s t S T : NewBeliefState bso.width}

/-- The applicable heads depend on the truth values of the imported beliefs only. -/
lemma applicableHeads_congr
    (h : ∀ b ∈ sys.bodyBeliefs c, s.test (b.globalAddress bso) = t.test (b.globalAddress bso)) :
    sys.applicableHeads c s = sys.applicableHeads c t := by
  rw [applicableHeads, applicableHeads]
  congr 2
  refine List.filter_congr (fun r hr => ?_)
  rw [decide_eq_decide, Applies, Applies]
  refine forall₂_congr (fun l hl => ?_)
  rw [h l.belief (List.mem_flatMap.mpr ⟨r, hr, List.mem_map.mpr ⟨l, hl, rfl⟩⟩)]

lemma satisfied_eq_true_iff (r : BridgeRule) (s : NewBeliefState bso.width) :
    r.satisfied s = true ↔ Applies r s := by
  rw [BridgeRule.satisfied, List.all_eq_true, Applies]
  refine forall₂_congr (fun l _ => ?_)
  rw [BridgeLiteral.holds]
  cases l.naf <;> simp

/-- The heads the evaluator is called with are those of the bridge rules that apply. -/
lemma headSet_evaluateBridgeRules (hc : c < bso.noBlocks) (s : NewBeliefState bso.width) :
    headSet (evaluateBridgeRules (sys.bridgeRules c) s) = sys.applicableHeads c s := by
  have hfold : ∀ (rules : List BridgeRule) (h : NewBeliefState bso.width),
      (∀ r ∈ rules, r.head.globalAddress bso < bso.width) → ∀ i,
      (rules.foldl (fun h r =>
          if r.satisfied s then h.set (r.head.globalAddress bso) .dmcsTrue else h) h).test i =
        .dmcsTrue ↔
      h.test i = .dmcsTrue ∨ ∃ r ∈ rules, Applies r s ∧ r.head.globalAddress bso = i := by
    intro rules
    induction rules with
    | nil => simp
    | cons r rules ih =>
        intro h hlt i
        rw [List.foldl_cons, ih _ (fun r hr => hlt r (by simp [hr]))]
        simp only [List.mem_cons, exists_eq_or_imp]
        by_cases hr : r.satisfied s = true
        · rw [if_pos hr]
          have happ := (satisfied_eq_true_iff r s).mp hr
          by_cases hi : i = r.head.globalAddress bso
          · subst hi
            simp [NewContext.test_set_self h (hlt r (by simp)), happ]
          · rw [NewContext.test_set_ne h hi]
            simp [happ, Ne.symm hi]
        · rw [if_neg hr]
          have happ : ¬ Applies r s := fun h => hr ((satisfied_eq_true_iff r s).mpr h)
          simp [happ]
  have hlt : ∀ r ∈ sys.bridgeRules c, r.head.globalAddress bso < bso.width := by
    intro r hr
    obtain ⟨hctx, haddr⟩ := sys.head_known c r hr
    rw [BeliefId.globalAddress, hctx, Nat.add_comm]
    exact bso.startingOffset_add_lt hc (sys.address_le c _ haddr)
  ext i
  have := hfold (sys.bridgeRules c) (NewBeliefState.empty bso.width) hlt i
  rw [test_eq_true] at this
  rw [headSet, List.mem_toFinset, mem_ones, trueBits_getLsbD, Bool.and_eq_true,
    evaluateBridgeRules, this, applicableHeads, List.mem_toFinset, List.mem_map]
  simp [test, and_assoc]

lemma mem_linesModels (T : NewBeliefState bso.width) (ms : List (NewBeliefState bso.width)) :
    S ∈ DLVEvaluator.linesModels c T (ms.map OutputLine.answerSet) ↔
      ∃ m ∈ ms, m.consistentWith T c = true ∧ S = m.union T := by
  induction ms with
  | nil => simp [DLVEvaluator.linesModels]
  | cons m ms ih =>
      rw [List.map_cons, DLVEvaluator.linesModels]
      by_cases h : m.consistentWith T c = true
      · rw [if_pos h, List.mem_cons, ih]
        simp [h]
      · rw [if_neg h, ih]
        simp [h]

/-- What a context evaluates an input to. -/
lemma mem_evaluatorModels (hc : c < bso.noBlocks) (T : NewBeliefState bso.width) :
    S ∈ DLVEvaluator.evaluatorModels (sys.newContext c).solver c (sys.bridgeRules c) T ↔
      ∃ m ∈ sys.acc c (sys.applicableHeads c T), m.consistentWith T c = true ∧ S = m.union T := by
  rw [DLVEvaluator.evaluatorModels, newContext, mem_linesModels, headSet_evaluateBridgeRules hc]

/-- What a context sends for an input. -/
def Sends (sys : System bso) (c : ℕ) (T S : NewBeliefState bso.width) : Prop :=
  ∃ m ∈ sys.acc c (sys.applicableHeads c T), m.consistentWith T c = true ∧
    S = (m.union T).inter sys.interface

lemma mem_answerModels (hc : c < bso.noBlocks) (T : NewBeliefState bso.width) :
    S ∈ (sys.newContext c).answerModels sys.interface T ↔ sys.Sends c T S := by
  rw [NewContext.answerModels, List.mem_map]
  constructor
  · rintro ⟨u, hu, rfl⟩
    obtain ⟨m, hm, hcons, rfl⟩ := (mem_evaluatorModels hc T).mp hu
    exact ⟨m, hm, hcons, rfl⟩
  · rintro ⟨m, hm, hcons, rfl⟩
    exact ⟨m.union T, (mem_evaluatorModels hc T).mpr ⟨m, hm, hcons, rfl⟩, rfl⟩

lemma processRequest_normalRequest (c parent : ℕ) (inputs : List (NewBeliefState bso.width)) :
    (sys.normalContext c).processRequest .init (sys.normalRequest c parent inputs) =
      some (inputs.flatMap ((sys.newContext c).answerModels sys.interface), .init) := by
  have hinit : CachePosition.init.mark.length < 2 ^ (sys.normalContext c).guesses.noGuessed := by
    simp [CachePosition.init]
  rw [NormalContext.processRequest_eq _ hinit _ (by simp [normalRequest])]
  refine (pageInputs_all _).trans ?_
  have hitems : inputsModels ((sys.normalContext c).projectedItems sys.interface inputs) =
      inputs.flatMap ((sys.newContext c).answerModels sys.interface) := by
    rw [NormalContext.inputsModels_projectedItems, NormalContext.requestModels, List.map_flatMap]
    refine List.flatMap_congr (fun T _ => ?_)
    rw [NormalContext.inputLists, NormalContext.mustGuess]
    simp [normalContext, NewContext.answerModels]
  exact congrArg (fun l => some (l, CachePosition.init)) hitems

lemma serve_breakerRequest (c parent : ℕ) :
    (sys.cycleBreaker c).serve .init (sys.breakerRequest c parent) =
      some (((sys.cycleBreaker c).projected sys.interface).flatten.map some ++ [none], .init) := by
  have hinit : CachePosition.init.mark.length < 2 ^ (sys.cycleBreaker c).guesses.noGuessed := by
    simp [CachePosition.init]
  rw [CycleBreaker.serve_eq _ _ hinit _ (by simp [breakerRequest])]
  refine (congrArg _ (pageInputs_all _)).trans ?_
  simp [breakerRequest]

/-! ## The answers of one context -/

variable {history : Finset ℕ} {parent : ℕ} {sent : List (NewBeliefState bso.width)}

/-- The answer of a normal context: what it sends for the joins of its neighbours' answers. -/
lemma Answers.of_not_mem (h : sys.Answers history parent c sent) (hblock : c < bso.noBlocks)
    (hc : c ∉ history) :
    ∃ answers : ℕ → List (NewBeliefState bso.width),
      (∀ d ∈ sys.neighborIds c, sys.Answers (insert c history) c d (answers d)) ∧
      ∀ S, S ∈ sent ↔
        ∃ T ∈ joinedInputs ((sys.neighborIds c).map answers), sys.Sends c T S := by
  cases h with
  | breaker hmem => exact absurd hmem hc
  | normal _ answers hanswers hsent =>
      rw [processRequest_normalRequest, Option.some.injEq, Prod.mk.injEq] at hsent
      refine ⟨answers, hanswers, fun S => ?_⟩
      rw [← hsent.1, List.mem_flatMap]
      exact exists_congr (fun T => and_congr_right (fun _ => mem_answerModels hblock T))

/-- The answer of a cycle breaker: what the context sends for the guesses. -/
lemma Answers.of_mem (h : sys.Answers history parent c sent) (hblock : c < bso.noBlocks)
    (hc : c ∈ history) (S : NewBeliefState bso.width) :
    S ∈ sent ↔ ∃ k < 2 ^ (sys.cycleBreaker c).guesses.noGuessed,
      sys.Sends c ((sys.cycleBreaker c).guesses.guessAt k) S := by
  cases h with
  | normal hnot => exact absurd hc hnot
  | breaker _ hsent =>
      rw [serve_breakerRequest, Option.some.injEq, Prod.mk.injEq, List.append_left_inj] at hsent
      rw [← List.map_injective_iff.mpr (Option.some_injective _) hsent.1, List.mem_flatten]
      constructor
      · rintro ⟨l, hl, hS⟩
        obtain ⟨k, hk, rfl⟩ := List.mem_map.mp hl
        exact ⟨k, List.mem_range.mp hk, (mem_answerModels hblock _).mp hS⟩
      · rintro ⟨k, hk, hS⟩
        exact ⟨_, List.mem_map.mpr ⟨k, List.mem_range.mpr hk, rfl⟩,
          (mem_answerModels hblock _).mpr hS⟩

/-- Every request is answered. -/
theorem exists_answers (history : Finset ℕ) (parent : ℕ) {c : ℕ} (hc : c < bso.noBlocks) :
    ∃ sent, sys.Answers history parent c sent := by
  have hall : ∀ parent, ∃ sent, sys.Answers history parent c sent := by
    refine History.induction (Finset.range bso.noBlocks)
      (motive := fun history c => ∀ parent, ∃ sent, sys.Answers history parent c sent) ?_
      history (Finset.mem_range.mpr hc)
    intro history c _ ih parent
    by_cases hc : c ∈ history
    · exact ⟨_, .breaker hc (serve_breakerRequest c parent)⟩
    · have hchoice : ∀ d ∈ sys.neighborIds c, ∃ sent, sys.Answers (insert c history) c d sent :=
        fun d hd => ih hc d (Finset.mem_range.mpr (mem_neighborIds.mp hd).2.lt) c
      choose! answers hanswers using hchoice
      exact ⟨_, .normal hc answers hanswers (processRequest_normalRequest c parent _)⟩
  exact hall parent

/-! ## Systems from a list of bridge rules -/

/-- A system whose contexts have the same signature.  `models` gives the truth values of the local
states. -/
def ofRules (signature : List ℕ) (rules : List BridgeRule)
    (models : ℕ → Finset ℕ → List (ℕ → Bool)) (interface : NewBeliefState bso.width)
    (hsignature : ∀ a ∈ signature, 1 ≤ a ∧ a ≤ bso.sizeBs)
    (hrules : ∀ r ∈ rules, r.head.address ∈ signature ∧
      ∀ l ∈ r.body, l.belief.contextId < bso.noBlocks ∧ l.belief.address ∈ signature) :
    System bso where
  signature := fun _ => signature
  bridgeRules := fun c => rules.filter (fun r => r.head.contextId = c)
  acc := fun c heads =>
    if c < bso.noBlocks then (models c heads).map (localState bso c signature) else []
  interface := interface
  address_pos := fun _ a ha => (hsignature a ha).1
  address_le := fun _ a ha => (hsignature a ha).2
  head_known := fun c r hr =>
    ⟨of_decide_eq_true (List.mem_filter.mp hr).2, (hrules r (List.mem_filter.mp hr).1).1⟩
  body_known := fun c r hr => (hrules r (List.mem_filter.mp hr).1).2
  acc_isLocal := by
    intro c heads m hm
    split_ifs at hm with hc
    · obtain ⟨v, -, rfl⟩ := List.mem_map.mp hm
      exact isLocal_localState hc (fun a ha => (hsignature a ha).2) v
    · cases hm

section OfRules

variable {signature : List ℕ} {rules : List BridgeRule}
  {models : ℕ → Finset ℕ → List (ℕ → Bool)} {interface : NewBeliefState bso.width}
  {hsignature : ∀ a ∈ signature, 1 ≤ a ∧ a ≤ bso.sizeBs}
  {hrules : ∀ r ∈ rules, r.head.address ∈ signature ∧
    ∀ l ∈ r.body, l.belief.contextId < bso.noBlocks ∧ l.belief.address ∈ signature}

lemma strictAddresses_ofRules (h : ∀ a ∈ signature, a < bso.sizeBs) :
    (ofRules signature rules models interface hsignature hrules).StrictAddresses :=
  ⟨fun _ => h⟩

lemma exists_rule_of_imports
    (h : (ofRules signature rules models interface hsignature hrules).Imports c d) :
    ∃ r ∈ rules, r.head.contextId = c ∧ ∃ l ∈ r.body, l.belief.contextId = d := by
  obtain ⟨b, hb, rfl⟩ := h
  obtain ⟨r, hr, hb⟩ := List.mem_flatMap.mp hb
  obtain ⟨l, hl, rfl⟩ := List.mem_map.mp hb
  exact ⟨r, (List.mem_filter.mp hr).1, of_decide_eq_true (List.mem_filter.mp hr).2, l, hl, rfl⟩

end OfRules

end System

end Dmcs
