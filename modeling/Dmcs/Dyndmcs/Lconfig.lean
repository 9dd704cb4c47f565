import Dmcs.Dyndmcs.BindRule

/-!
# The local configuration of a context (`DynamicConfiguration::lconfig`)

`lconfig` binds the rules of a context one after the other.  For each substitution that binds them
all it asks the contexts to which variables of this context are sent, and that no other context
asks, to go on.  The root context then computes the topologies of the results.

An assertion that fails ends the run.
-/

namespace Dmcs

namespace Dyndmcs

variable {Q : Type}

/-- The members of a context that live as long as it. -/
structure Counter where
  no_answers : ℕ
  stop : Bool

/-- A run that changes the members of the contexts. -/
abbrev Run (α : Type) : Type := StateT (ContextID → Counter) (Except Failure) α

/-- The edges of a topology; the vertex of a context is its number less one. -/
abbrev Graph : Type := List (BitVec 64 × BitVec 64)

/-- What `lconfig` returns, and the topologies it writes out. -/
structure Answer (Q : Type) where
  substitutions : List (ContextSubstitution Q)
  topologies : List Graph

def BridgeRule.atoms (r : BridgeRule) : List BridgeAtom := r.positiveBody ++ r.negativeBody

/-- The loop of `already_chosen`. -/
def anyFromOther (ck : ContextID) : List (ContextMatch Q) → Except Failure Bool
  | [] => .ok false
  | low :: range => do
      let context ← ctxID low.ctx_term
      if context ≠ ck then .ok true else anyFromOther ck range

/-- Whether a context other than `ck` has an entry with the target `c`. -/
def already_chosen (cs : ContextSubstitution Q) (ck c : ContextID) : Except Failure Bool :=
  anyFromOther ck (cs.byTarCtx.filter (fun m => m.tarCtx = c))

/-- The loop over the queue of an object, as long as it is not told to stop. -/
def whileNotStopped (ctx_id : ContextID)
    (next : ContextSubstitution Q → Run (List (ContextSubstitution Q))) :
    List (ContextSubstitution Q) → Run (List (ContextSubstitution Q))
  | [] => pure []
  | cs :: queue => do
      let counters ← get
      if (counters ctx_id).stop then pure []
      else do
        let intermediate_ctx_subs ← next cs
        let ctx_subs ← whileNotStopped ctx_id next queue
        pure (intermediate_ctx_subs ++ ctx_subs)

/-- `compute_topology` for the entries that are left. -/
def compute_topology : List (ContextMatch Q) → Graph → Except Failure Graph
  | [], g => .ok g
  | it :: rest, g => do
      let context ← ctxID it.ctx_term
      let u := context - 1
      let v := it.tarCtx - 1
      compute_topology rest (if (u, v) ∈ g then g else g ++ [(u, v)])

/-- `compute_topology` for a list of substitutions. -/
def compute_topologies : List (ContextSubstitution Q) → Except Failure (List Graph)
  | [] => .ok []
  | cs :: ctx_subs => do
      let g ← compute_topology cs.entries []
      let topo ← compute_topologies ctx_subs
      .ok (g :: topo)

namespace DynamicConfiguration

variable (dc : DynamicConfiguration Q)

/-- The loop that collects the contexts to ask. -/
def newContexts (root : ContextID) (sofar : ContextSubstitution Q) :
    List ContextID → List (ContextMatch Q) → Except Failure (List ContextID)
  | new_contexts, [] => .ok new_contexts
  | new_contexts, it :: rest =>
      if it.tarCtx ≠ root then do
        let context ← ctxID it.ctx_term
        if context = dc.ctx_id then
          if it.tarCtx ∈ new_contexts then newContexts root sofar new_contexts rest
          else do
            let chosen ← already_chosen sofar dc.ctx_id it.tarCtx
            if chosen then newContexts root sofar new_contexts rest
            else newContexts root sofar (new_contexts ++ [it.tarCtx]) rest
        else newContexts root sofar new_contexts rest
      else newContexts root sofar new_contexts rest

def sortNeighbors (new_contexts : List ContextID) : List ContextID :=
  match dc.heuristics.compareNeighbors with
  | none => new_contexts
  | some compare => new_contexts.mergeSort (fun c c' => !compare c' c)

/-- The end of `invoke_neighbors`, where an answer is counted. -/
def countAnswer (sofar : ContextSubstitution Q) : Run (List (ContextSubstitution Q)) := do
  let counters ← get
  let no_answers := (counters dc.ctx_id).no_answers + 1
  let stop := if dc.limit_answers > 0 ∧ no_answers ≥ dc.limit_answers then true
    else (counters dc.ctx_id).stop
  set (Function.update counters dc.ctx_id { no_answers := no_answers, stop := stop })
  pure [sofar]

/-- `invoke_neighbors`; `remote` stands for the call of a context over the network. -/
def invoke_neighbors (remote : ContextID → ContextSubstitution Q →
      Run (List (ContextSubstitution Q))) :
    List ContextID → ContextSubstitution Q → Run (List (ContextSubstitution Q))
  | [], sofar => dc.countAnswer sofar
  | cid :: c_next, sofar => do
      if cid ∉ dc.context_info then throw .unknownNeighbor
      else do
        let output_queue_cj ← remote cid sofar
        whileNotStopped dc.ctx_id (invoke_neighbors remote c_next) output_queue_cj

/-- `lconfig` when all rules are bound. -/
def lconfigLeaf (root : ContextID) (remote : ContextID → ContextSubstitution Q →
      Run (List (ContextSubstitution Q))) (sofar : ContextSubstitution Q) :
    Run (List (ContextSubstitution Q)) := do
  let new_contexts ← StateT.lift (dc.newContexts root sofar [] sofar.entries)
  if new_contexts.length > 0 then
    dc.invoke_neighbors remote (dc.sortNeighbors new_contexts) sofar
  else pure [sofar]

/-- `lconfig` for the rules that are left. -/
def lconfigRules (root : ContextID) (remote : ContextID → ContextSubstitution Q →
      Run (List (ContextSubstitution Q))) :
    List BridgeRule → ContextSubstitution Q → Run (List (ContextSubstitution Q))
  | [], sofar => dc.lconfigLeaf root remote sofar
  | r :: r_next, sofar => do
      let bound ← StateT.lift (dc.bind_rule r.positiveBody r.negativeBody sofar
        { no_bind_rules := 0, stop_bind_rules := false })
      whileNotStopped dc.ctx_id (lconfigRules root remote r_next) bound.1

/-- `lconfig` for a message with a root context and a substitution. -/
def lconfig (root : ContextID) (remote : ContextID → ContextSubstitution Q →
      Run (List (ContextSubstitution Q))) (ctx_sub : ContextSubstitution Q) : Run (Answer Q) := do
  let result ← dc.lconfigRules root remote dc.bridge_rules ctx_sub
  if dc.ctx_id = root then do
    let topologies ← StateT.lift (compute_topologies result)
    pure { substitutions := result, topologies := topologies }
  else pure { substitutions := result, topologies := [] }

end DynamicConfiguration

/-- The contexts; a context answers to its number. -/
structure System (Q : Type) where
  context : ContextID → DynamicConfiguration Q
  ctx_id : ∀ k, (context k).ctx_id = k

/-- The answer of a context to a message; `fuel` bounds how deep the contexts ask each other. -/
def System.answer (sys : System Q) :
    ℕ → ContextID → ContextID → ContextSubstitution Q → Run (Answer Q)
  | 0, _, _, _ => throw .fuel
  | fuel + 1, k, root, ctx_sub =>
      (sys.context k).lconfig root
        (fun cid cs => do
          let answer ← sys.answer fuel cid root cs
          pure answer.substitutions)
        ctx_sub

end Dyndmcs

end Dmcs
