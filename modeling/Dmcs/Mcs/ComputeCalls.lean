import Dmcs.Mcs.GuessEnumeration
import Dmcs.Mcs.NormalContext
import Dmcs.Mcs.JoinBlocks

/-!
# The calls of `compute` in a loop over guesses

`guessCalls` lists the calls of `compute` that the loop over guesses makes, each with its guess, the
input made of it, and the range and cache it starts with; `guessLoop_eq_runCalls` says that the loop
is nothing else than these calls.

With the list one can say what the guesses do to a joined input.  `process_input` guesses as soon as
the block of one guessing neighbour is missing, and then merges the guess for all of them bit by bit
into the input.  So it overrides what is known of the other guessing neighbours:
`respectsInput_iff` says for which guesses it does not.

## The argument

`input | guess` is a bitwise union of the two status vectors and of the two value vectors.  On a
block that the joined input does not define the union is the guess.  On a block that it does define
the guess can only add `TRUE` values and epsilon bits, so it overrides a belief that the answer has
as `FALSE`, and defines beliefs that the answer leaves open.

`RespectsInput` asks that a call of `compute` gets the blocks the joined input defines as they are,
and the others from the guess.  `GuessAddsNothing` is the exact condition on the guess of the call,
and `respectsInput_iff` the equivalence, for every call that a joined input leads to.
-/

namespace Dmcs

open NewContext NewBeliefState

variable {bso : BeliefStateOffset}

namespace NewContext

/-- One call of `compute` in a loop over guesses. -/
structure ComputeCall (bso : BeliefStateOffset) where
  step : ℕ
  guess : NewBeliefState bso.width
  input : NewBeliefState bso.width
  k1 : ℕ
  k2 : ℕ
  cache : CachePosition

/-- What the call returns. -/
def ComputeCall.result (ctx : NewContext bso) (parent : ℕ) (call : ComputeCall bso) :
    Option (ComputeResult (NewBeliefState bso.width)) :=
  ctx.compute call.input parent call.step call.k1 call.k2 call.cache

/-- The calls of `compute` in `guessLoop`, in order. -/
def guessCalls (ctx : NewContext bso) (G : GuessSpace bso)
    (inputOf : NewBeliefState bso.width → NewBeliefState bso.width) (parent : ℕ) :
    ℕ → Option (NewBeliefState bso.width) → ℕ → ℕ → ℕ → CachePosition → List (ComputeCall bso)
  | _, none, _, _, _, _ => []
  | 0, some _, _, _, _, _ => []
  | fuel + 1, some g, step, k1, k2, cache =>
      ⟨step, g, inputOf g, k1, k2, cache⟩ ::
        match ctx.compute (inputOf g) parent step k1 k2 cache with
        | none => []
        | some r =>
            if r.finished then []
            else guessCalls ctx G inputOf parent fuel (nextGuess g G.total) (step + 1)
              r.k1 r.k2 r.cache

/-- Make calls of `compute` one after the other, until one fails or exhausts the range; the range
and the cache are those at the end if there is no call. -/
def runCalls (ctx : NewContext bso) (parent : ℕ) :
    List (ComputeCall bso) → ℕ → ℕ → CachePosition →
      Option (ComputeResult (NewBeliefState bso.width))
  | [], k1, k2, cache => some ⟨[], k1, k2, cache, false⟩
  | call :: calls, _, _, _ =>
      match call.result ctx parent with
      | none => none
      | some r =>
          if r.finished then some r
          else (runCalls ctx parent calls r.k1 r.k2 r.cache).map
            (fun r' => { r' with sent := r.sent ++ r'.sent })

section Calls

variable (ctx : NewContext bso) (G : GuessSpace bso)
  (inputOf : NewBeliefState bso.width → NewBeliefState bso.width) (parent : ℕ)

/-- The loop makes its calls and nothing else. -/
theorem guessLoop_eq_runCalls (fuel : ℕ) :
    ∀ step k1 k2 cache, step < 2 ^ G.noGuessed → 2 ^ G.noGuessed ≤ step + fuel →
      ctx.guessLoop G inputOf parent fuel (some (G.guessAt step)) step k1 k2 cache =
        ctx.runCalls parent
          (ctx.guessCalls G inputOf parent fuel (some (G.guessAt step)) step k1 k2 cache)
          k1 k2 cache := by
  induction fuel with
  | zero => intro step k1 k2 cache hstep hfuel; omega
  | succ fuel ih =>
      intro step k1 k2 cache hstep hfuel
      rw [guessLoop, guessCalls, runCalls, ComputeCall.result]
      cases ctx.compute (inputOf (G.guessAt step)) parent step k1 k2 cache with
      | none => rfl
      | some r =>
          simp only
          by_cases hf : r.finished = true
          · rw [if_pos hf, if_pos hf]
          · rw [if_neg hf, if_neg hf, if_neg hf, G.nextGuess_guessAt hstep]
            by_cases hlast : step + 1 < 2 ^ G.noGuessed
            · rw [if_pos hlast, ih _ _ _ _ hlast (by omega)]
            · rw [if_neg hlast, guessLoop, guessCalls, runCalls]

/-- Every call is made with the guess of its step. -/
lemma guess_of_mem_guessCalls (fuel : ℕ) :
    ∀ step k1 k2 cache, step < 2 ^ G.noGuessed →
      ∀ call ∈ ctx.guessCalls G inputOf parent fuel (some (G.guessAt step)) step k1 k2 cache,
        call.step < 2 ^ G.noGuessed ∧ call.guess = G.guessAt call.step ∧
          call.input = inputOf call.guess := by
  induction fuel with
  | zero => intro step k1 k2 cache _ call hcall; cases hcall
  | succ fuel ih =>
      intro step k1 k2 cache hstep call hcall
      rw [guessCalls] at hcall
      rcases List.mem_cons.mp hcall with rfl | hcall
      · exact ⟨hstep, rfl, rfl⟩
      · split at hcall
        · cases hcall
        · split at hcall
          · cases hcall
          · rw [G.nextGuess_guessAt hstep] at hcall
            by_cases hlast : step + 1 < 2 ^ G.noGuessed
            · rw [if_pos hlast] at hcall
              exact ih _ _ _ _ hlast call hcall
            · rw [if_neg hlast, guessCalls] at hcall
              cases hcall

end Calls

end NewContext

namespace NormalContext

/-- The calls of `compute` that `process_input` makes with a guess. -/
def inputCalls (nc : NormalContext bso) (input : NewBeliefState bso.width)
    (parent k1 k2 : ℕ) (cache : CachePosition) : List (ComputeCall bso) :=
  if nc.mustGuess input then
    let step := cache.findPosition k1
    nc.guessCalls nc.guesses (fun g => input.union g) parent (2 ^ nc.guesses.noGuessed)
      (firstGuess nc.guesses step) step k1 k2 cache
  else []

/-- The combined input of a call has the blocks that the joined input defines, and the blocks of the
guess for the guessing neighbours that it does not define. -/
structure RespectsInput (nc : NormalContext bso) (input : NewBeliefState bso.width)
    (call : ComputeCall bso) : Prop where
  known : ∀ c < bso.noBlocks, input.isEpsilon bso c = false → BlockEq c call.input input
  guessed : ∀ neighbor ∈ nc.guessingNeighbors.getD [], input.isEpsilon bso neighbor.1 = true →
    BlockEq neighbor.1 call.input call.guess

/-- What a guess says about a block that the joined input defines, the joined input says too: each
guessed belief has a status there, and is `TRUE` if it is guessed to be. -/
def GuessAddsNothing (nc : NormalContext bso) (input guess : NewBeliefState bso.width) : Prop :=
  ∀ b ∈ guessedBits bso (nc.guessingNeighbors.getD []),
    input.isEpsilon bso (bso.blockOf b) = false →
      input.test b = .dmcsTrue ∨ (input.test b = .dmcsFalse ∧ guess.test b = .dmcsFalse)

section ProcessInput

variable (nc : NormalContext bso) {input : NewBeliefState bso.width}

lemma guess_of_mem_inputCalls {parent k1 k2 : ℕ} {cache : CachePosition} {call : ComputeCall bso}
    (hcall : call ∈ nc.inputCalls input parent k1 k2 cache) :
    jumpGuess nc.guesses.starting nc.guesses.total call.step = some call.guess ∧
      call.input = input.union call.guess := by
  unfold inputCalls at hcall
  by_cases hguess : nc.mustGuess input = true
  · rw [if_pos hguess] at hcall
    simp only at hcall
    cases hfirst : firstGuess nc.guesses (cache.findPosition k1) with
    | none =>
        rw [hfirst, guessCalls] at hcall
        cases hcall
    | some g =>
        have hstep := firstGuess_lt _ hfirst
        rw [firstGuess_eq _ hstep] at hcall
        obtain ⟨hlt, heq, hinput⟩ :=
          nc.guess_of_mem_guessCalls _ _ _ _ _ _ _ _ hstep call hcall
        exact ⟨nc.guesses.jumpGuess_eq_some_iff.mpr ⟨hlt, heq⟩, hinput⟩
  · rw [if_neg hguess] at hcall
    cases hcall

/-- The loop of `process_input` makes these calls and nothing else. -/
lemma processInput_eq_runCalls (hguess : nc.mustGuess input = true) {parent k1 k2 : ℕ}
    {cache : CachePosition} (hstep : cache.findPosition k1 < 2 ^ nc.guesses.noGuessed) :
    nc.processInput input parent k1 k2 cache =
      nc.runCalls parent (nc.inputCalls input parent k1 k2 cache) k1 k2 cache := by
  unfold processInput inputCalls
  rw [if_pos hguess, if_pos hguess]
  simp only
  rw [firstGuess_eq _ hstep]
  exact nc.guessLoop_eq_runCalls _ _ _ _ _ _ _ _ hstep (by omega)

/-- A block that the joined input does not define is taken from the guess. -/
lemma blockEq_union_of_isEpsilon (hinput : WellFormed bso input) {c : ℕ}
    (hc : input.isEpsilon bso c = true) (guess : NewBeliefState bso.width) :
    BlockEq c (input.union guess) guess := by
  rintro i rfl
  obtain ⟨hstatus, hvalue⟩ := hinput.bits_of_isEpsilon hc
  rw [union_status, union_value, hstatus, hvalue, Bool.false_or, Bool.false_or]
  exact ⟨rfl, rfl⟩

/-- A block that the joined input defines is kept if and only if the guess adds nothing. -/
lemma blockEq_union_iff {guess : NewBeliefState bso.width} {c : ℕ} :
    BlockEq c (input.union guess) input ↔ ∀ i, bso.blockOf i = c →
      (guess.status_bit.getLsbD i = true → input.status_bit.getLsbD i = true) ∧
        (guess.value_bit.getLsbD i = true → input.value_bit.getLsbD i = true) := by
  unfold BlockEq
  refine forall_congr' (fun i => forall_congr' (fun _ => ?_))
  rw [union_status, union_value]
  cases input.status_bit.getLsbD i <;> cases guess.status_bit.getLsbD i <;>
    cases input.value_bit.getLsbD i <;> cases guess.value_bit.getLsbD i <;> simp

/-- Outside of the epsilon bits only guessed beliefs are `TRUE` in a guess. -/
lemma value_guess {step : ℕ} {guess : NewBeliefState bso.width}
    (hguess : jumpGuess nc.guesses.starting nc.guesses.total step = some guess) {i : ℕ}
    (hbelief : isBeliefBit bso i = true) (hvalue : guess.value_bit.getLsbD i = true) :
    i ∈ guessedBits bso (nc.guessingNeighbors.getD []) := by
  by_contra hno
  obtain ⟨-, rfl⟩ := nc.guesses.jumpGuess_eq_some_iff.mp hguess
  rw [← GuessSpace.bits_ofPlan] at hno
  change i ∉ nc.guesses.bits at hno
  rw [GuessSpace.guessAt, value_writeGuess_of_not_mem hno] at hvalue
  rw [initGuess_false_value _ hvalue] at hbelief
  cases hbelief

lemma blockEq_union_of_guessAddsNothing (hinput : WellFormed bso input) {step : ℕ}
    {guess : NewBeliefState bso.width}
    (hguess : jumpGuess nc.guesses.starting nc.guesses.total step = some guess)
    (hadds : nc.GuessAddsNothing input guess) {c : ℕ} (hc : input.isEpsilon bso c = false) :
    BlockEq c (input.union guess) input := by
  rw [blockEq_union_iff]
  rintro i rfl
  cases hbelief : isBeliefBit bso i with
  | true =>
      refine ⟨fun hi => ?_, fun hi => ?_⟩
      · have hmem := (status_guess hguess hbelief).mp hi
        rcases hadds i hmem hc with h | ⟨h, -⟩
        · exact (test_eq_true.mp h).1
        · exact (test_eq_false.mp h).1
      · have hmem := nc.value_guess hguess hbelief hi
        rcases hadds i hmem hc with h | ⟨-, h⟩
        · exact (test_eq_true.mp h).2
        · rw [(test_eq_false.mp h).2] at hi
          cases hi
  | false =>
      -- the epsilon bit, which is set and `TRUE` in the joined input
      have heq : i = bso.startingOffset (bso.blockOf i) := by
        have hmod : i % (bso.sizeBs + 1) = 0 := by simpa [isBeliefBit] using hbelief
        have := bso.startingOffset_blockOf i
        omega
      have hstatus := isEpsilon_eq_false.mp hc
      have hvalue := hinput.epsilon_true _ hstatus
      rw [← heq] at hstatus hvalue
      exact ⟨fun _ => hstatus, fun _ => hvalue⟩

/-- A call respects the joined input exactly if its guess adds nothing to the blocks that the joined
input defines.  The guess is united with the input over all blocks of the guessing neighbours, also
over those that the input has defined. -/
theorem respectsInput_iff (hinput : WellFormed bso input) {parent k1 k2 : ℕ}
    {cache : CachePosition} {call : ComputeCall bso}
    (hcall : call ∈ nc.inputCalls input parent k1 k2 cache) :
    nc.RespectsInput input call ↔ nc.GuessAddsNothing input call.guess := by
  obtain ⟨hguess, heq⟩ := nc.guess_of_mem_inputCalls hcall
  constructor
  · intro h b hb hknown
    have hw := List.mem_range.mp (List.mem_filter.mp hb).1
    have hbelief := (Bool.and_eq_true_iff.mp (List.mem_filter.mp hb).2).1
    have hblock := h.known _ (bso.blockOf_lt hw) hknown
    rw [heq, blockEq_union_iff] at hblock
    obtain ⟨hstatus, hvalue⟩ := hblock b rfl
    have hinstatus := hstatus ((status_guess hguess hbelief).mpr hb)
    rcases test_guess hguess hb with htest | htest
    · exact Or.inl (test_eq_true.mpr ⟨hinstatus, hvalue (test_eq_true.mp htest).2⟩)
    · cases hinvalue : input.value_bit.getLsbD b with
      | true => exact Or.inl (test_eq_true.mpr ⟨hinstatus, hinvalue⟩)
      | false => exact Or.inr ⟨test_eq_false.mpr ⟨hinstatus, hinvalue⟩, htest⟩
  · intro hadds
    refine ⟨fun c _ hc => ?_, fun neighbor _ hc => ?_⟩
    · rw [heq]
      exact nc.blockEq_union_of_guessAddsNothing hinput hguess hadds hc
    · rw [heq]
      exact blockEq_union_of_isEpsilon hinput hc _

end ProcessInput

/-- Context `0` guesses the beliefs of the contexts `1` and `2`. -/
def twoGuessing : NormalContext threeBlocks where
  ctxId := 0
  returnPlan := fun _ => some ⟨BitVec.allOnes _, BitVec.allOnes _⟩
  bridgeRules := []
  solver := fun _ _ => []
  guessingNeighbors := some [(1, [1]), (2, [1])]

lemma wellFormed_joinedInput {v : TruthVal} (hv : v ≠ .dmcsUndef) :
    WellFormed threeBlocks (joinedInput v) := by
  refine (WellFormed.empty.setEpsilon 2).set (by decide) (fun _ => ?_) hv
  rw [setEpsilon_status]
  exact if_pos (by decide)

/-- Context `2` has answered that its belief is `FALSE`, but since nothing is known of context `1`
the belief is also tried with `TRUE`. -/
theorem guess_overrides_answer :
    WellFormed threeBlocks (joinedInput .dmcsFalse) ∧
      ∃ call ∈ twoGuessing.inputCalls (joinedInput .dmcsFalse) 7 0 0 CachePosition.init,
        ¬ twoGuessing.RespectsInput (joinedInput .dmcsFalse) call := by
  have hcall : ∃ call ∈ twoGuessing.inputCalls (joinedInput .dmcsFalse) 7 0 0 CachePosition.init,
      call.input.value_bit.getLsbD 5 = true := by decide +kernel
  obtain ⟨call, hmem, hvalue⟩ := hcall
  refine ⟨wellFormed_joinedInput (by decide), call, hmem, fun h => ?_⟩
  have hblock := h.known 2 (by decide) (by decide) 5 (by decide)
  rw [hblock.2] at hvalue
  exact absurd hvalue (by decide)

/-- The equivalence for one of the calls in the example. -/
theorem respectsInput_iff_twoGuessing :
    ∃ call ∈ twoGuessing.inputCalls (joinedInput .dmcsFalse) 7 0 0 CachePosition.init,
      twoGuessing.RespectsInput (joinedInput .dmcsFalse) call ↔
        twoGuessing.GuessAddsNothing (joinedInput .dmcsFalse) call.guess := by
  have hcalls : twoGuessing.inputCalls (joinedInput .dmcsFalse) 7 0 0 CachePosition.init ≠ [] := by
    intro h
    have hlen := congrArg List.length h
    exact absurd hlen (by decide +kernel)
  obtain ⟨call, hmem⟩ := List.exists_mem_of_ne_nil _ hcalls
  exact ⟨call, hmem, twoGuessing.respectsInput_iff (wellFormed_joinedInput (by decide)) hmem⟩

end NormalContext

end Dmcs
