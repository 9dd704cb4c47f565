import Dmcs.Lib.Service
import Dmcs.Mcs.NewContext

/-!
# The normal context (`NormalContext`)

`process_request` takes the joined inputs one after the other from the joiner.  An input in which
the block of a guessing neighbour is missing is completed by guesses, in the same loop as in the
cycle breaker and with the same kind of cache; every other input is evaluated once.  The range is
threaded through all of this, and one `CachePosition` serves all inputs and all requests.

`processInputs_eq` reduces a request to `pageInputs`.  As for the cycle breaker, what was recorded
for one input or request changes what is tried for another; `ServesInPlace` says when it does no
harm.

## What one cache for all inputs does

The cache counts guess steps, and a guess step of one joined input has nothing to do with the same
step of another one.  So a step that had no models for the first input may be skipped for the
second, where it has one (`processRequest_skips_model`).  Inputs that are evaluated once, without
guesses, are counted as one step that is never recorded.

`ServesInPlace` goes through the inputs of a request with the range and the cache that each of them
starts with, and asks of each what `CycleBreaker.ServesInPlace` asks of a request.  As there, the
statement is about whole runs of requests, and an equivalence.
-/

namespace Dmcs

open Paging NewContext

variable {bso : BeliefStateOffset}

/-- A normal context: a context with its guessing neighbours and their ground input signatures;
`none` is the null pointer of a context without guessing neighbours. -/
structure NormalContext (bso : BeliefStateOffset) extends NewContext bso where
  guessingNeighbors : Option (List (ℕ × List ℕ))

namespace NormalContext

/-- `total_guessing_input` and `starting_guess` as `init` builds them. -/
def guesses (nc : NormalContext bso) : GuessSpace bso :=
  GuessSpace.ofPlan bso (nc.guessingNeighbors.getD [])

/-- `must_guess`. -/
def mustGuess (nc : NormalContext bso) (input : NewBeliefState bso.width) : Bool :=
  match nc.guessingNeighbors with
  | none => false
  | some neighbors => neighbors.any (fun neighbor => input.isEpsilon bso neighbor.1)

/-- `process_input`.  A `NULL` guess would be dereferenced by the `do` loop. -/
def processInput (nc : NormalContext bso) (input : NewBeliefState bso.width)
    (parent k1 k2 : ℕ) (cache : CachePosition) :
    Option (ComputeResult (NewBeliefState bso.width)) :=
  if nc.mustGuess input then
    let step := cache.findPosition k1
    match firstGuess nc.guesses step with
    | none => none
    | some guess => nc.guessLoop nc.guesses (fun g => input.union g) parent
        (2 ^ nc.guesses.noGuessed) (some guess) step k1 k2 cache
  else nc.compute input parent 0 k1 k2 cache

/-- The loop of `process_request` over the joined inputs. -/
def processInputs (nc : NormalContext bso) (parent : ℕ) :
    List (NewBeliefState bso.width) → ℕ → ℕ → CachePosition →
      Option (List (NewBeliefState bso.width) × CachePosition)
  | [], _, _, cache => some ([], cache)
  | input :: inputs, k1, k2, cache =>
      match nc.processInput input parent k1 k2 cache with
      | none => none
      | some r =>
          if r.finished then some (r.sent, r.cache)
          else (processInputs nc parent inputs r.k1 r.k2 r.cache).map
            (fun o => (r.sent ++ o.1, o.2))

/-- A request for an admissible range of `size_t` numbers, with the inputs the joiner delivers for
it. -/
structure Request (nc : NormalContext bso) where
  parent : ℕ
  k1 : ℕ
  k2 : ℕ
  inputs : List (NewBeliefState bso.width)
  interface : NewBeliefState bso.width
  known : nc.returnPlan parent = some interface
  admissible : Admissible k1 k2
  k2_lt : k2 < 2 ^ 64

/-- `process_request`: the models sent and the cache for the next request, or a failed assertion. -/
def processRequest (nc : NormalContext bso) (cache : CachePosition) (req : nc.Request) :
    Option (List (NewBeliefState bso.width) × CachePosition) :=
  if GoodRequest req.k1 req.k2 then nc.processInputs req.parent req.inputs req.k1 req.k2 cache
  else none

/-- The evaluator models of a joined input, one list for each guess step. -/
def inputLists (nc : NormalContext bso) (input : NewBeliefState bso.width) :
    List (List (NewBeliefState bso.width)) :=
  let models := DLVEvaluator.evaluatorModels nc.solver nc.ctxId nc.bridgeRules
  if nc.mustGuess input then
    (List.range (2 ^ nc.guesses.noGuessed)).map (fun step =>
      models (input.union (nc.guesses.guessAt step)))
  else [models input]

/-- The models of all joined inputs, in order. -/
def requestModels (nc : NormalContext bso) (inputs : List (NewBeliefState bso.width)) :
    List (NewBeliefState bso.width) :=
  inputs.flatMap (fun input => (nc.inputLists input).flatten)

/-- The right answer to a request: its page of the models, projected to the interface. -/
def Answered (nc : NormalContext bso) (req : nc.Request)
    (sent : List (NewBeliefState bso.width)) : Prop :=
  sent = (page req.k1 req.k2 (nc.requestModels req.inputs)).map (fun bs => bs.inter req.interface)

/-- The model lists of a joined input as sent to one parent. -/
def projectedLists (nc : NormalContext bso) (interface input : NewBeliefState bso.width) :
    List (List (NewBeliefState bso.width)) :=
  (nc.inputLists input).map (fun M => M.map (fun bs => bs.inter interface))

/-- The joined inputs as sent to one parent. -/
def projectedItems (nc : NormalContext bso) (interface : NewBeliefState bso.width)
    (inputs : List (NewBeliefState bso.width)) :
    List (Bool × List (List (NewBeliefState bso.width))) :=
  inputs.map (fun input => (nc.mustGuess input, nc.projectedLists interface input))

/-- The range does not end at the largest `size_t`, and for every joined input that is reached: the
guess steps its cached position skips have no model (or the range starts beyond all models of this
and the remaining inputs), and the steps tried are recorded without a gap.  Both are about the range
and the cache before that input. -/
def ServesInPlace (nc : NormalContext bso) (cache : CachePosition) (req : nc.Request) : Prop :=
  req.k2 + 1 < 2 ^ 64 ∧ AllInPlace (nc.projectedItems req.interface req.inputs) req.k1 req.k2 cache

instance (nc : NormalContext bso) (cache : CachePosition) (req : nc.Request) :
    Decidable (nc.ServesInPlace cache req) := inferInstanceAs (Decidable (_ ∧ _))

/-! ## The loops are `pageInputs` -/

section Refinement

variable (nc : NormalContext bso)

lemma projectedLists_of_mustGuess (interface : NewBeliefState bso.width)
    {input : NewBeliefState bso.width} (h : nc.mustGuess input = true) :
    nc.projectedLists interface input =
      nc.guessAnswers nc.guesses (fun g => input.union g) interface := by
  simp only [projectedLists, inputLists, h, if_true, List.map_map]
  rfl

lemma projectedLists_of_not_mustGuess (interface : NewBeliefState bso.width)
    {input : NewBeliefState bso.width} (h : nc.mustGuess input = false) :
    nc.projectedLists interface input = [nc.answerModels interface input] := by
  simp only [projectedLists, inputLists, h, Bool.false_eq_true, if_false]
  rfl

lemma length_projectedLists (interface input : NewBeliefState bso.width) :
    (nc.projectedLists interface input).length ≤ 2 ^ nc.guesses.noGuessed := by
  cases h : nc.mustGuess input with
  | true => rw [nc.projectedLists_of_mustGuess interface h, length_guessAnswers]
  | false =>
      rw [nc.projectedLists_of_not_mustGuess interface h]
      exact Nat.one_le_two_pow

/-- `process_input` serves the range from the model lists of its input. -/
lemma processInput_eq {parent : ℕ} {interface : NewBeliefState bso.width}
    (hp : nc.returnPlan parent = some interface) (input : NewBeliefState bso.width) {k1 k2 : ℕ}
    (hadm : Admissible k1 k2) {cache : CachePosition}
    (hc : cache.mark.length < 2 ^ nc.guesses.noGuessed) :
    nc.processInput input parent k1 k2 cache =
      pageFrom (startStep (nc.mustGuess input) cache k1) (nc.projectedLists interface input)
        k1 k2 cache := by
  rw [processInput, startStep]
  cases h : nc.mustGuess input with
  | true =>
      simp only [if_true]
      rw [firstGuess_eq _ (lt_of_le_of_lt (cache.findPosition_le k1) hc)]
      simp only
      rw [nc.guessLoop_eq_pageFrom _ _ hp hadm hc, nc.projectedLists_of_mustGuess interface h]
  | false =>
      simp only [Bool.false_eq_true, if_false]
      rw [nc.projectedLists_of_not_mustGuess interface h, nc.compute_eq_pageStep hp _ _ _ _ _ hadm,
        pageFrom, List.drop_zero, pageRun_singleton]

lemma projectedItems_length_le (interface : NewBeliefState bso.width)
    (inputs : List (NewBeliefState bso.width)) :
    ∀ item ∈ nc.projectedItems interface inputs, item.2.length ≤ 2 ^ nc.guesses.noGuessed := by
  intro item hitem
  obtain ⟨input, -, rfl⟩ := List.mem_map.mp hitem
  exact nc.length_projectedLists interface input

lemma inputsModels_projectedItems (interface : NewBeliefState bso.width)
    (inputs : List (NewBeliefState bso.width)) :
    inputsModels (nc.projectedItems interface inputs) =
      (nc.requestModels inputs).map (fun bs => bs.inter interface) := by
  induction inputs with
  | nil => rfl
  | cons input inputs ih =>
      rw [requestModels, List.flatMap_cons, ← requestModels, List.map_append, ← ih,
        projectedItems, List.map_cons, inputsModels_cons, projectedLists, List.map_flatten]
      rfl

/-- `process_request` is `pageInputs` on the model lists of the joined inputs. -/
theorem processInputs_eq {parent : ℕ} {interface : NewBeliefState bso.width}
    (hp : nc.returnPlan parent = some interface) (inputs : List (NewBeliefState bso.width)) :
    ∀ {k1 k2 : ℕ} {cache : CachePosition}, Admissible k1 k2 →
      cache.mark.length < 2 ^ nc.guesses.noGuessed →
        nc.processInputs parent inputs k1 k2 cache =
          pageInputs (nc.projectedItems interface inputs) k1 k2 cache := by
  induction inputs with
  | nil => intro k1 k2 cache _ _; rfl
  | cons input inputs ih =>
      intro k1 k2 cache hadm hc
      rw [processInputs, projectedItems, List.map_cons, pageInputs, ← projectedItems,
        nc.processInput_eq hp input hadm hc]
      cases hr : pageFrom (startStep (nc.mustGuess input) cache k1)
          (nc.projectedLists interface input) k1 k2 cache with
      | none => rfl
      | some r =>
          have hout := pageFrom_some hadm hr
          have hle := hout.recorded_le
          have hstart := startStep_le (nc.mustGuess input) cache k1
          have hlen := nc.length_projectedLists interface input
          simp only
          by_cases hf : r.finished = true
          · rw [if_pos hf, if_pos hf]
          · rw [if_neg hf, if_neg hf]
            rw [Bool.not_eq_true] at hf
            rw [ih (hout.admissible hf) (by omega)]

end Refinement

/-! ## Whole runs -/

section Runs

variable (nc : NormalContext bso)

lemma answered_iff (req : nc.Request) (sent : List (NewBeliefState bso.width)) :
    nc.Answered req sent ↔
      sent = page req.k1 req.k2 (inputsModels (nc.projectedItems req.interface req.inputs)) := by
  rw [Answered, inputsModels_projectedItems, page_map]

/-- A range up to the largest `size_t` is refused. -/
lemma bound_of_processRequest {cache : CachePosition} {req : nc.Request}
    {o : List (NewBeliefState bso.width) × CachePosition}
    (h : nc.processRequest cache req = some o) : req.k2 + 1 < 2 ^ 64 := by
  rw [processRequest] at h
  split at h
  · exact (goodRequest_iff req.admissible req.k2_lt).mp ‹_›
  · cases h

lemma processRequest_eq {cache : CachePosition}
    (hc : cache.mark.length < 2 ^ nc.guesses.noGuessed) (req : nc.Request)
    (hk2 : req.k2 + 1 < 2 ^ 64) :
    nc.processRequest cache req =
      pageInputs (nc.projectedItems req.interface req.inputs) req.k1 req.k2 cache := by
  rw [processRequest, if_pos ((goodRequest_iff req.admissible req.k2_lt).mpr hk2)]
  exact nc.processInputs_eq req.known req.inputs req.admissible hc

/-- The cache of a normal context never records a step beyond the last guess. -/
lemma processRequest_recorded {cache : CachePosition}
    (hc : cache.mark.length < 2 ^ nc.guesses.noGuessed) {req : nc.Request}
    {o : List (NewBeliefState bso.width) × CachePosition}
    (h : nc.processRequest cache req = some o) :
    o.2.mark.length < 2 ^ nc.guesses.noGuessed := by
  rw [nc.processRequest_eq hc req (nc.bound_of_processRequest h)] at h
  exact pageInputs_recorded req.admissible
    (nc.projectedItems_length_le req.interface req.inputs) hc h

/-- In every run of requests from a fresh cache that are all served in place, every request is
answered with its page; and a run in which every request is answered with its page serves all of
them in place, when the models as sent are pairwise different.  The range and the cache
are threaded through the joined inputs of the neighbours, with a loop over the guesses for each. -/
theorem processRequest_answers_pages (reqs : List nc.Request) :
    (Service.Along nc.processRequest nc.ServesInPlace CachePosition.init reqs →
      ∃ answers, Service.run nc.processRequest CachePosition.init reqs = some answers ∧
        List.Forall₂ nc.Answered reqs answers) ∧
    ((∀ req ∈ reqs,
        ((nc.requestModels req.inputs).map (fun bs => bs.inter req.interface)).Nodup) →
      (∃ answers, Service.run nc.processRequest CachePosition.init reqs = some answers ∧
        List.Forall₂ nc.Answered reqs answers) →
      Service.Along nc.processRequest nc.ServesInPlace CachePosition.init reqs) := by
  have hinit : CachePosition.init.mark.length < 2 ^ nc.guesses.noGuessed := by
    simp [CachePosition.init]
  constructor
  · refine Service.run_of_along
      (I := fun cache => cache.mark.length < 2 ^ nc.guesses.noGuessed) ?_ hinit
    intro cache req hc hin
    obtain ⟨o, ho, hsent⟩ := AllInPlace.sent_eq req.admissible hin.2
    have hserve := (nc.processRequest_eq hc req hin.1).trans ho
    exact ⟨o.1, o.2, hserve, (nc.answered_iff req _).mpr hsent,
      nc.processRequest_recorded hc hserve⟩
  · intro hnd
    refine Service.along_of_run
      (I := fun cache => cache.mark.length < 2 ^ nc.guesses.noGuessed) ?_ hinit
    intro cache req hreq sent cache' hc hserve hans
    have hk2 := nc.bound_of_processRequest hserve
    refine ⟨⟨hk2, ?_⟩, nc.processRequest_recorded hc hserve⟩
    refine AllInPlace.of_sent_eq req.admissible ?_
      ((nc.processRequest_eq hc req hk2).symm.trans hserve) ((nc.answered_iff req _).mp hans)
    rw [inputsModels_projectedItems]
    exact hnd req hreq

/-! ## Two joined inputs, one cache -/

/-- Three contexts with one belief each. -/
def threeBlocks : BeliefStateOffset := .ofSucc 2 0

/-- A joined input that holds the belief of context `2` and nothing of context `1`. -/
def joinedInput (v : TruthVal) : NewBeliefState threeBlocks.width :=
  ((NewBeliefState.empty _).setEpsilon threeBlocks 2).set 5 v

/-- Context `0` guesses the belief of context `1`.  It has a single model: for the second joined
input, with the guessed belief `FALSE`. -/
def oneModel : NormalContext threeBlocks where
  ctxId := 0
  returnPlan := fun _ => some ⟨BitVec.allOnes _, BitVec.allOnes _⟩
  bridgeRules := []
  solver := fun _ input =>
    match input.test 3, input.test 5 with
    | .dmcsFalse, .dmcsFalse =>
        [.answerSet (((NewBeliefState.empty _).setEpsilon threeBlocks 0).set 1 .dmcsTrue)]
    | _, _ => []
  guessingNeighbors := some [(1, [1])]

/-- The request for the first model. -/
def firstModel : oneModel.Request :=
  ⟨7, 1, 1, [joinedInput .dmcsTrue, joinedInput .dmcsFalse], _, rfl, by decide, by decide⟩

/-- Processing the first joined input records step `1`; for the second input step `0` is then
skipped, and with it the only model. -/
theorem processRequest_skips_model :
    ¬ ∃ answers, Service.run oneModel.processRequest CachePosition.init [firstModel] =
        some answers ∧ List.Forall₂ oneModel.Answered [firstModel] answers := by
  rintro ⟨answers, hrun, hall⟩
  have hsent : Service.run oneModel.processRequest CachePosition.init [firstModel] =
      some [[]] := by decide +kernel
  rw [hsent, Option.some.injEq] at hrun
  subst hrun
  have hnone : oneModel.Answered firstModel [] := (List.forall₂_cons.mp hall).1
  have hright : (page 1 1 (oneModel.requestModels firstModel.inputs)).map
      (fun bs => bs.inter firstModel.interface) ≠ [] := by decide +kernel
  exact hright hnone.symm

/-- Three contexts with two beliefs each. -/
def threePairs : BeliefStateOffset := .ofSucc 2 1

/-- A joined input that holds a belief of context `2` and nothing of context `1`. -/
def joinedPair (v : TruthVal) : NewBeliefState threePairs.width :=
  ((NewBeliefState.empty _).setEpsilon threePairs 2).set 7 v

/-- A local state of context `0`: its first belief as given, the second `FALSE`. -/
def localPair (v : TruthVal) : NewBeliefState threePairs.width :=
  (((NewBeliefState.empty _).setEpsilon threePairs 0).set 1 v).set 2 .dmcsFalse

/-- Context `0` guesses the two beliefs of context `1` and has two models for each joined input,
both for the last guess. -/
def lastGuess : NormalContext threePairs where
  ctxId := 0
  returnPlan := fun _ => some ⟨BitVec.allOnes _, BitVec.allOnes _⟩
  bridgeRules := []
  solver := fun _ input =>
    match input.test 4, input.test 5 with
    | .dmcsTrue, .dmcsTrue =>
        [.answerSet (localPair .dmcsFalse), .answerSet (localPair .dmcsTrue)]
    | _, _ => []
  guessingNeighbors := some [(1, [1, 2])]

/-- The request for a range, with two joined inputs. -/
def rangeRequest (k1 k2 : ℕ) (hadm : Admissible k1 k2) (hk2 : k2 < 2 ^ 64) : lastGuess.Request :=
  ⟨7, k1, k2, [joinedPair .dmcsTrue, joinedPair .dmcsFalse], _, rfl, hadm, hk2⟩

/-- A run served in place: all models, then the first, the second and third, and the last one.  The
second request records the steps `1` and `2`, and the later ones resume at step `2`. -/
theorem processRequest_answers_pages_lastGuess :
    ∃ answers, Service.run lastGuess.processRequest CachePosition.init
        [rangeRequest 0 0 admissible_all (by decide), rangeRequest 1 1 (by decide) (by decide),
          rangeRequest 2 3 (by decide) (by decide), rangeRequest 4 4 (by decide) (by decide)] =
        some answers ∧ List.Forall₂ lastGuess.Answered
          [rangeRequest 0 0 admissible_all (by decide), rangeRequest 1 1 (by decide) (by decide),
            rangeRequest 2 3 (by decide) (by decide), rangeRequest 4 4 (by decide) (by decide)]
          answers :=
  (lastGuess.processRequest_answers_pages _).1 (by decide +kernel)

end Runs

end NormalContext

end Dmcs
