import Dmcs.Mcs.Combine

/-!
# Bridge rules (`BridgeRule`, `BridgeRuleEvaluator`)

A bridge rule derives a belief of its own context from literals over beliefs of any context.
`evaluateBridgeRules` collects the heads of the rules satisfied in an input state; together with
the requested range and the input itself this is the `Heads` object handed to the evaluator.

A literal is a belief with a sign, and a belief has a context and an address, from which its
position in the state is computed.  `holds` reads the truth value at this position: a positive
literal wants `TRUE`, a negated one does not want it, so that a belief without a status satisfies
its negation.  `satisfied` stops at the first literal that does not hold, which matters to whoever
asks which beliefs a rule reads.

Rules with packed ids, and the assertions on the way, are in `ResetProcess`.
-/

namespace Dmcs

open BitScan

/-- An `ID` of a belief: context and address. -/
structure BeliefId where
  contextId : ℕ
  address : ℕ
  deriving DecidableEq, Repr

/-- A literal of a bridge-rule body; `naf` is the `NAF_MASK` bit. -/
structure BridgeLiteral where
  belief : BeliefId
  naf : Bool
  deriving DecidableEq, Repr

/-- A bridge rule.  `storeAndGetID` asserts that the body is not empty. -/
structure BridgeRule where
  head : BeliefId
  body : List BridgeLiteral
  body_ne : body ≠ []
  deriving DecidableEq

variable {bso : BeliefStateOffset}

/-- Position of a belief in a state. -/
def BeliefId.globalAddress (bso : BeliefStateOffset) (b : BeliefId) : ℕ :=
  b.address + bso.startingOffset b.contextId

/-- One literal of the body loop of `satisfied`. -/
def BridgeLiteral.holds (l : BridgeLiteral) (input : NewBeliefState bso.width) : Bool :=
  if l.naf then decide (input.test (l.belief.globalAddress bso) ≠ .dmcsTrue)
  else decide (input.test (l.belief.globalAddress bso) = .dmcsTrue)

/-- `satisfied(r, input)`: the loop over the body leaves with `false` at the first literal that
fails. -/
def BridgeRule.satisfied (r : BridgeRule) (input : NewBeliefState bso.width) : Bool :=
  r.body.all (fun l => l.holds input)

/-- The heads belief state `evaluate_bridge_rules` builds. -/
def evaluateBridgeRules (rules : List BridgeRule) (input : NewBeliefState bso.width) :
    NewBeliefState bso.width :=
  rules.foldl (fun h r =>
    if r.satisfied input then h.set (r.head.globalAddress bso) .dmcsTrue else h)
    (NewBeliefState.empty bso.width)

/-- `HeadsPlusBeliefState`: what a context sends to its evaluator. -/
structure Heads (bso : BeliefStateOffset) where
  input : NewBeliefState bso.width
  heads : NewBeliefState bso.width
  k1 : ℕ
  k2 : ℕ
  deriving DecidableEq

end Dmcs
