import Mathlib.Logic.Function.Basic
import Dmcs.Lib.TransitionSystem
import Dmcs.Mcs.CycleBreaker
import Dmcs.Mcs.NormalContext
import Dmcs.Mcs.WellFormed

/-!
# The belief states of a running system

Every context runs a normal context, a cycle breaker and an evaluator, and contexts send belief
states to each other.  `State` holds the belief states that exist at one moment: what the joiner of
a context has received, the joined input in process, the two current guesses, the input of the
evaluation in progress, what the evaluator has put on its output queue, and the states on their way
to other contexts.  `Step` lists what the threads do with them.  When a thread takes which step is
left open, so that the runs include those of every scheduling, every order of delivery and every
range of models.

`run_wellFormed` is the invariant of all runs: every belief state in the system is well-formed.

## The invariant

`SysInv` says of every context that its current guesses are guesses of its plans, that all other
states it holds are well-formed, and that so are the states on their way between contexts.  A step
joins, guesses, completes, unites or projects states that are there, so the lemmas of `WellFormed`
give the step lemma, one case for each constructor of `Step`.

What can break it is a guess: `init` writes beliefs at the addresses its signature lists, without
looking at them.  `AddressesInBlock` is therefore a condition on the plans of the contexts.
-/

namespace Dmcs

open NewContext

variable {bso : BeliefStateOffset}

/-- What is configured for one context: its bridge rules, its solver, and what the parsers read
from the return plan (by parent) and the query plans.  The local models of the solver are
well-formed. -/
structure Node (bso : BeliefStateOffset) where
  ctxId : ℕ
  returnPlan : ℕ → Option (List (ℕ × List ℕ))
  queryPlan : List (ℕ × List ℕ)
  guessingNeighbors : Option (List (ℕ × List ℕ))
  bridgeRules : List BridgeRule
  solver : Solver bso
  solver_wellFormed : ∀ heads input m, OutputLine.answerSet m ∈ solver heads input →
    WellFormed bso m

/-- The two threads of a context that guess. -/
inductive Worker where
  | normal
  | breaker
  deriving DecidableEq

namespace Node

/-- The part common to both threads. -/
def context (node : Node bso) : NewContext bso where
  ctxId := node.ctxId
  returnPlan := fun parent => (node.returnPlan parent).map (parseInterface bso)
  bridgeRules := node.bridgeRules
  solver := node.solver

/-- The thread answering normal requests. -/
def normal (node : Node bso) : NormalContext bso :=
  { node.context with guessingNeighbors := node.guessingNeighbors }

/-- The thread answering requests that close a cycle. -/
def breaker (node : Node bso) : CycleBreaker bso :=
  { node.context with queryPlan := node.queryPlan }

/-- The guesses of a thread. -/
def guesses (node : Node bso) : Worker → GuessSpace bso
  | .normal => node.normal.guesses
  | .breaker => node.breaker.guesses

end Node

/-- The belief states a context holds. -/
structure NodeState (bso : BeliefStateOffset) where
  packs : List (NewBeliefState bso.width)
  joined : Option (NewBeliefState bso.width)
  guess : Worker → Option (NewBeliefState bso.width)
  evalIn : Option (NewBeliefState bso.width)
  evalOut : List (NewBeliefState bso.width)

/-- The current guess of a thread replaced. -/
def NodeState.setGuess (ns : NodeState bso) (w : Worker) (g : Option (NewBeliefState bso.width)) :
    NodeState bso :=
  { ns with guess := Function.update ns.guess w g }

/-- The belief states of the system: by context, and on their way to a context. -/
structure State (bso : BeliefStateOffset) where
  nodes : ℕ → NodeState bso
  output : List (ℕ × NewBeliefState bso.width)

/-- No belief state exists yet. -/
def State.init : State bso := ⟨fun _ => ⟨[], none, fun _ => none, none, []⟩, []⟩

/-- The state with the belief states of one context replaced. -/
def State.put (s : State bso) (n : ℕ) (ns : NodeState bso) : State bso :=
  { s with nodes := Function.update s.nodes n ns }

/-- What the threads of the system do. -/
inductive Step (sys : ℕ → Node bso) : State bso → State bso → Prop
  /-- The joiner of `n` receives a state sent to `n`. -/
  | receive {s : State bso} {n : ℕ} {bs : NewBeliefState bso.width} (h : (n, bs) ∈ s.output) :
      Step sys s (s.put n { s.nodes n with packs := bs :: (s.nodes n).packs })
  /-- The joiner of `n` joins one state of each neighbour. -/
  | join {s : State bso} {n : ℕ} {run : List (NewBeliefState bso.width)}
      {bs : NewBeliefState bso.width} (hrun : ∀ b ∈ run, b ∈ (s.nodes n).packs)
      (h : StreamingJoiner.joinOne run = some bs) :
      Step sys s (s.put n { s.nodes n with joined := some bs })
  /-- The joiner of a leaf context returns the empty input. -/
  | leaf {s : State bso} {n : ℕ} :
      Step sys s (s.put n { s.nodes n with joined := some (NewBeliefState.empty bso.width) })
  /-- A thread begins to guess, at the step its cache says. -/
  | start {s : State bso} {n : ℕ} {w : Worker} (step : ℕ) {g : NewBeliefState bso.width}
      (h : firstGuess ((sys n).guesses w) step = some g) :
      Step sys s (s.put n ((s.nodes n).setGuess w (some g)))
  /-- A thread goes on to the next guess, or stops after the last one. -/
  | next {s : State bso} {n : ℕ} {w : Worker} {g : NewBeliefState bso.width}
      (h : (s.nodes n).guess w = some g) :
      Step sys s (s.put n ((s.nodes n).setGuess w (nextGuess g ((sys n).guesses w).total)))
  /-- The normal context evaluates its joined input. -/
  | compute {s : State bso} {n : ℕ} {input : NewBeliefState bso.width}
      (h : (s.nodes n).joined = some input) (hg : (sys n).normal.mustGuess input = false) :
      Step sys s (s.put n { s.nodes n with evalIn := some input })
  /-- The normal context evaluates its joined input merged with the current guess. -/
  | computeGuess {s : State bso} {n : ℕ} {input g : NewBeliefState bso.width}
      (h : (s.nodes n).joined = some input) (hg : (s.nodes n).guess .normal = some g) :
      Step sys s (s.put n { s.nodes n with evalIn := some (input.union g) })
  /-- The cycle breaker evaluates its current guess. -/
  | breakCycle {s : State bso} {n : ℕ} {g : NewBeliefState bso.width}
      (h : (s.nodes n).guess .breaker = some g) :
      Step sys s (s.put n { s.nodes n with evalIn := some g })
  /-- The evaluator sends a local model consistent with the input, united with it. -/
  | testAndSend {s : State bso} {n : ℕ} {input m : NewBeliefState bso.width}
      (h : (s.nodes n).evalIn = some input)
      (hm : OutputLine.answerSet m ∈
        (sys n).solver (evaluateBridgeRules (sys n).bridgeRules input) input) :
      Step sys s (s.put n { s.nodes n with
        evalOut := (DLVEvaluator.testAndSend (sys n).ctxId input m
          ⟨0, (s.nodes n).evalOut⟩).sent })
  /-- A model is projected to the interface of a parent and put on the output queue. -/
  | sendOut {s : State bso} {n parent : ℕ} {bs out : NewBeliefState bso.width}
      (h : bs ∈ (s.nodes n).evalOut) (hout : (sys n).context.sendOutResult parent bs = some out) :
      Step sys s { s with output := (parent, out) :: s.output }
  /-- The joiner of `n` is reset. -/
  | reset {s : State bso} {n : ℕ} :
      Step sys s (s.put n { s.nodes n with packs := [], joined := none })

/-- Every belief state of the system is well-formed. -/
structure AllWellFormed (s : State bso) : Prop where
  packs : ∀ n, ∀ b ∈ (s.nodes n).packs, WellFormed bso b
  joined : ∀ n, ∀ b, (s.nodes n).joined = some b → WellFormed bso b
  guess : ∀ n w b, (s.nodes n).guess w = some b → WellFormed bso b
  evalIn : ∀ n, ∀ b, (s.nodes n).evalIn = some b → WellFormed bso b
  evalOut : ∀ n, ∀ b ∈ (s.nodes n).evalOut, WellFormed bso b
  output : ∀ m ∈ s.output, WellFormed bso m.2

/-! ## The invariant -/

/-- The invariant for one context: guesses are those of some step, all else is well-formed. -/
structure NodeInv (node : Node bso) (ns : NodeState bso) : Prop where
  packs : ∀ b ∈ ns.packs, WellFormed bso b
  joined : ∀ b, ns.joined = some b → WellFormed bso b
  guess : ∀ w b, ns.guess w = some b →
    ∃ k < 2 ^ (node.guesses w).noGuessed, b = (node.guesses w).guessAt k
  evalIn : ∀ b, ns.evalIn = some b → WellFormed bso b
  evalOut : ∀ b ∈ ns.evalOut, WellFormed bso b

/-- The invariant of the system. -/
structure SysInv (sys : ℕ → Node bso) (s : State bso) : Prop where
  nodes : ∀ n, NodeInv (sys n) (s.nodes n)
  output : ∀ m ∈ s.output, WellFormed bso m.2

/-- The addresses in all query plans of a context lie inside their blocks. -/
def Node.AddressesInBlock (node : Node bso) : Prop :=
  Dmcs.AddressesInBlock bso node.queryPlan ∧
    Dmcs.AddressesInBlock bso (node.guessingNeighbors.getD [])

section Invariant

variable {sys : ℕ → Node bso} {s : State bso} {n : ℕ}

lemma Node.guessAt_wellFormed {node : Node bso} (h : node.AddressesInBlock) (w : Worker) (k : ℕ) :
    WellFormed bso ((node.guesses w).guessAt k) := by
  cases w with
  | normal => exact WellFormed.guessAt h.2 k
  | breaker => exact WellFormed.guessAt h.1 k

lemma SysInv.init : SysInv sys (State.init : State bso) := by
  refine ⟨fun n => ⟨?_, ?_, ?_, ?_, ?_⟩, ?_⟩ <;> simp [State.init]

/-- Changing the belief states of one context only concerns that context. -/
lemma SysInv.put (hs : SysInv sys s) {ns : NodeState bso} (hns : NodeInv (sys n) ns) :
    SysInv sys (s.put n ns) := by
  refine ⟨fun m => ?_, hs.output⟩
  by_cases hm : m = n
  · subst hm
    simpa [State.put] using hns
  · simpa [State.put, Function.update_of_ne hm] using hs.nodes m

lemma NodeInv.setGuess {node : Node bso} {ns : NodeState bso} (h : NodeInv node ns) {w : Worker}
    {g : Option (NewBeliefState bso.width)}
    (hg : ∀ b, g = some b → ∃ k < 2 ^ (node.guesses w).noGuessed, b = (node.guesses w).guessAt k) :
    NodeInv node (ns.setGuess w g) := by
  refine { h with guess := fun w' b hb => ?_ }
  by_cases hw : w' = w
  · subst hw
    exact hg b (by simpa [NodeState.setGuess] using hb)
  · exact h.guess w' b (by simpa [NodeState.setGuess, Function.update_of_ne hw] using hb)

/-- Every step keeps the invariant. -/
lemma SysInv.step (haddr : ∀ n, (sys n).AddressesInBlock) {s' : State bso} (hs : SysInv sys s)
    (h : Step sys s s') : SysInv sys s' := by
  cases h with
  | @receive n bs hmem =>
      refine hs.put { hs.nodes n with packs := fun b hb => ?_ }
      rcases List.mem_cons.mp hb with rfl | hb
      · exact hs.output _ hmem
      · exact (hs.nodes n).packs b hb
  | @join n run bs hrun hjoin =>
      refine hs.put { hs.nodes n with joined := fun b hb => ?_ }
      obtain rfl := Option.some_injective _ hb
      exact WellFormed.joinOne (fun b hb => (hs.nodes n).packs b (hrun b hb)) hjoin
  | @leaf n =>
      refine hs.put { hs.nodes n with joined := fun b hb => ?_ }
      obtain rfl := Option.some_injective _ hb
      exact WellFormed.empty
  | @start n w step g hg =>
      refine hs.put ((hs.nodes n).setGuess (fun b hb => ?_))
      obtain rfl := Option.some_injective _ hb
      have hstep := firstGuess_lt _ hg
      exact ⟨step, hstep, Option.some_injective _ (hg.symm.trans (firstGuess_eq _ hstep))⟩
  | @next n w g hg =>
      refine hs.put ((hs.nodes n).setGuess (fun b hb => ?_))
      obtain ⟨k, hk, rfl⟩ := (hs.nodes n).guess w g hg
      rw [GuessSpace.nextGuess_guessAt _ hk] at hb
      split at hb
      · rename_i hk'
        exact ⟨k + 1, hk', (Option.some_injective _ hb).symm⟩
      · simp at hb
  | @compute n input hin _ =>
      refine hs.put { hs.nodes n with evalIn := fun b hb => ?_ }
      obtain rfl := Option.some_injective _ hb
      exact (hs.nodes n).joined _ hin
  | @computeGuess n input g hin hg =>
      refine hs.put { hs.nodes n with evalIn := fun b hb => ?_ }
      obtain rfl := Option.some_injective _ hb
      -- only here the addresses of the plan matter
      obtain ⟨k, -, rfl⟩ := (hs.nodes n).guess _ g hg
      exact ((hs.nodes n).joined _ hin).union (Node.guessAt_wellFormed (haddr n) _ k)
  | @breakCycle n g hg =>
      refine hs.put { hs.nodes n with evalIn := fun b hb => ?_ }
      obtain rfl := Option.some_injective _ hb
      obtain ⟨k, -, rfl⟩ := (hs.nodes n).guess _ g hg
      exact Node.guessAt_wellFormed (haddr n) _ k
  | @testAndSend n input m hin hm =>
      refine hs.put { hs.nodes n with evalOut := fun b hb => ?_ }
      simp only [DLVEvaluator.testAndSend] at hb
      split at hb
      · exact (hs.nodes n).evalOut b hb
      · rcases List.mem_append.mp hb with hb | hb
        · exact (hs.nodes n).evalOut b hb
        · rw [List.mem_singleton] at hb
          subst hb
          exact ((sys n).solver_wellFormed _ _ _ hm).union ((hs.nodes n).evalIn _ hin)
  | @sendOut n parent bs out hmem hout =>
      refine ⟨hs.nodes, fun m hm => ?_⟩
      rcases List.mem_cons.mp hm with rfl | hm
      · simp only [sendOutResult, Node.context, Option.map_eq_some_iff] at hout
        obtain ⟨interface, ⟨entries, -, rfl⟩, rfl⟩ := hout
        exact ((hs.nodes n).evalOut bs hmem).inter (WellFormed.interface_parseInterface entries)
      · exact hs.output m hm
  | @reset n =>
      exact hs.put { hs.nodes n with
        packs := by simp
        joined := by simp }

lemma SysInv.allWellFormed (haddr : ∀ n, (sys n).AddressesInBlock) (hs : SysInv sys s) :
    AllWellFormed s where
  packs n := (hs.nodes n).packs
  joined n := (hs.nodes n).joined
  guess n w b hb := by
    obtain ⟨k, -, rfl⟩ := (hs.nodes n).guess w b hb
    exact Node.guessAt_wellFormed (haddr n) w k
  evalIn n := (hs.nodes n).evalIn
  evalOut n := (hs.nodes n).evalOut
  output := hs.output

end Invariant

/-- In every run of a system whose query plans keep to their blocks, every belief state that is
received, joined, guessed, merged with a guess, united with an input or sent is well-formed.  The
invariant is `SysInv`: it is kept by every operation on states, and the condition is used at one
place, where a plan fills in a guess. -/
theorem run_wellFormed (sys : ℕ → Node bso) (haddr : ∀ n, (sys n).AddressesInBlock) (s : State bso)
    (hrun : Relation.ReflTransGen (Step sys) State.init s) : AllWellFormed s :=
  (TransitionSystem.invariant_of_step (I := SysInv sys) SysInv.init
    (fun _ _ hs h => hs.step haddr h) hrun).allWellFormed haddr

/-! ## A signature that lists the epsilon bit -/

/-- One context guessing the given addresses of context `1`; no solver output. -/
def guessingNode (addresses : List ℕ) : Node CycleBreaker.twoBlocks where
  ctxId := 0
  returnPlan := fun _ => none
  queryPlan := [(1, addresses)]
  guessingNeighbors := none
  bridgeRules := []
  solver := fun _ _ => []
  solver_wellFormed := by simp

/-- The state after the cycle breaker of context `0` has started to guess. -/
def startedState (addresses : List ℕ) : State CycleBreaker.twoBlocks :=
  State.init.put 0 ((State.init.nodes 0).setGuess .breaker
    (some (initGuess CycleBreaker.twoBlocks .dmcsFalse [(1, addresses)])))

/-- With the belief at address `0` in the input signature, as the epsilon belief is stored in a
belief table, the very first guess has a `FALSE` epsilon bit. -/
theorem run_epsilon_false :
    ¬ ∀ s : State CycleBreaker.twoBlocks,
        Relation.ReflTransGen (Step (fun _ => guessingNode [0, 1])) State.init s →
          AllWellFormed s := by
  intro h
  have hstep : Step (fun _ => guessingNode [0, 1]) State.init (startedState [0, 1]) :=
    Step.start (w := .breaker) 0 rfl
  have hwf := (h _ (Relation.ReflTransGen.single hstep)).guess 0 .breaker _ rfl
  exact absurd (hwf.epsilon_true 1 (by decide)) (by decide)

/-- A run of a system whose query plan keeps to its block. -/
theorem run_wellFormed_started : AllWellFormed (startedState [1, 2]) :=
  run_wellFormed (fun _ => guessingNode [1, 2])
    (fun _ => ⟨by
        simp [AddressesInBlock, guessingNode, CycleBreaker.twoBlocks, BeliefStateOffset.ofSucc],
      by simp [AddressesInBlock, guessingNode]⟩)
    _ (Relation.ReflTransGen.single (Step.start (w := .breaker) 0 rfl))

end Dmcs
