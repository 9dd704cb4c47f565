import Mathlib.Tactic.Common

/-!
# Context terms and schematic beliefs (`Variable`)

A context term is the number of a context, or a variable: bit 62 is set, and the bits below hold the
context in whose rules the variable is, and the number of the variable.  `ctxID` asserts that its
argument is a variable.
-/

namespace Dmcs

namespace Dyndmcs

abbrev ContextTerm : Type := BitVec 64

abbrev SchematicBelief : Type := BitVec 64

abbrev ContextID : Type := BitVec 64

/-- Why a run does not return. -/
inductive Failure where
  /-- The assertion of `ctxID` or `varID`. -/
  | notVariable
  /-- The assertion of `invoke_neighbors`. -/
  | unknownNeighbor
  /-- The run is longer than the given fuel. -/
  | fuel
  deriving DecidableEq, Repr

def SHIFT_HALF : ℕ := 31

/-- `MAX >> TYPE_RESERVE`; the source has three more names for it. -/
def MASK_CONTEXT_VARIABLE : BitVec 64 := BitVec.allOnes 64 >>> 2

def MASK_VARIABLE_ID : BitVec 64 := BitVec.allOnes 64 >>> (2 + SHIFT_HALF)

def MASK_CONTEXT_ID : BitVec 64 := (BitVec.allOnes 64 >>> 2) &&& (BitVec.allOnes 64 <<< SHIFT_HALF)

def IS_ORDINARY_BELIEF : BitVec 64 := 0

def sBeliefType (sb : SchematicBelief) : BitVec 64 := sb >>> 62

def sBelief (sb : SchematicBelief) : BitVec 64 := sb &&& MASK_CONTEXT_VARIABLE

def isCtxVar (num : ContextTerm) : Bool := (num >>> 62) &&& 1 != 0

def ctxVar (num : ContextTerm) : ContextTerm := num ||| 1 <<< 62

/-- The context of a variable. -/
def variableContext (num : ContextTerm) : ContextID :=
  (num &&& MASK_CONTEXT_VARIABLE) >>> SHIFT_HALF

def ctxID (num : ContextTerm) : Except Failure ContextID :=
  if isCtxVar num then .ok (variableContext num) else .error .notVariable

def setCtxID (num : ContextTerm) (ctx : ContextID) : ContextTerm :=
  (num &&& ~~~MASK_CONTEXT_ID) ||| (ctx <<< SHIFT_HALF)

def setVarID (num : ContextTerm) (var : BitVec 64) : ContextTerm :=
  ctxVar ((num &&& ~~~MASK_VARIABLE_ID) ||| var)

def ctxVarTerm (contextID : ContextID) (variableID : BitVec 64) : ContextTerm :=
  setVarID (setCtxID 0 contextID) variableID

example : ctxID (ctxVarTerm 5 7) = .ok 5 := by decide

lemma ctxID_of_isCtxVar {num : ContextTerm} (h : isCtxVar num = true) :
    ctxID num = .ok (variableContext num) :=
  if_pos h

lemma ctxID_of_not_isCtxVar {num : ContextTerm} (h : isCtxVar num = false) :
    ctxID num = .error .notVariable :=
  if_neg (by rw [h]; exact Bool.false_ne_true)

lemma eq_of_ctxID_error {num : ContextTerm} {e : Failure} (h : ctxID num = .error e) :
    e = .notVariable := by
  unfold ctxID at h
  split_ifs at h
  exact (Except.error.inj h).symm

/-- The context of a variable is not a variable. -/
lemma isCtxVar_variableContext (num : ContextTerm) : isCtxVar (variableContext num) = false := by
  have hzero : variableContext num >>> 62 = 0 := by
    unfold variableContext
    rw [← BitVec.shiftRight_add]
    exact BitVec.ushiftRight_eq_zero (by decide)
  unfold isCtxVar
  rw [hzero]
  rfl

end Dyndmcs

end Dmcs
