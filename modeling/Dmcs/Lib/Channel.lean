import Mathlib.Data.List.Basic
import Dmcs.Lib.TransitionSystem

/-!
# A sender and a receiver on one ordered connection

The sender has frames left to write, the connection holds the frames on their way, and the receiver
is a partial function that takes one frame at a time.  Writing and reading interleave in any order.

What the receiver makes of everything still to come (`outcome`) does not depend on the order
(`outcome_run`), so a session is judged by one fold over its stream: if the fold succeeds, every run
ends, in the state the fold gives (`eq_of_stuck`, `reaches_outcome`).
-/

namespace Channel

/-- Frames to write, frames on their way, and the state of the receiver. -/
structure Link (F R : Type*) where
  toWrite : List F
  wire : List F
  receiver : R

section Runs

variable {F R : Type*} {read : R → F → Option R} {l l' : Link F R} {r : R}

/-- One frame is written, or one frame is read. -/
inductive Step (read : R → F → Option R) : Link F R → Link F R → Prop
  | write (f : F) (toWrite wire : List F) (r : R) :
      Step read ⟨f :: toWrite, wire, r⟩ ⟨toWrite, wire ++ [f], r⟩
  | read {f : F} (toWrite wire : List F) {r r' : R} (h : read r f = some r') :
      Step read ⟨toWrite, f :: wire, r⟩ ⟨toWrite, wire, r'⟩

/-- What the receiver makes of all frames to come. -/
def outcome (read : R → F → Option R) (l : Link F R) : Option R :=
  (l.wire ++ l.toWrite).foldlM read l.receiver

/-- A frame is written once and read once. -/
def size (l : Link F R) : ℕ := 2 * l.toWrite.length + l.wire.length

lemma outcome_step (h : Step read l l') : outcome read l' = outcome read l := by
  cases h with
  | write f toWrite wire r => simp only [outcome, List.append_assoc, List.singleton_append]
  | read toWrite wire h =>
      simp only [outcome, List.cons_append, List.foldlM_cons, h]
      rfl

/-- No step changes the outcome. -/
theorem outcome_run (h : Relation.ReflTransGen (Step read) l l') :
    outcome read l' = outcome read l :=
  TransitionSystem.invariant_of_step (I := fun m => outcome read m = outcome read l) rfl
    (fun _ _ ih hstep => (outcome_step hstep).trans ih) h

lemma size_step (h : Step read l l') : size l' < size l := by
  cases h with
  | write => simp only [size, List.length_cons, List.length_append, List.length_nil]; omega
  | read => simp only [size, List.length_cons]; omega

/-- No run is infinite. -/
theorem not_infinite (run : ℕ → Link F R) : ¬ ∀ n, Step read (run n) (run (n + 1)) :=
  TransitionSystem.not_infinite_of_measure size (fun _ _ => size_step) run

/-- If the fold succeeds, a link that cannot move has delivered everything. -/
theorem eq_of_stuck (hout : outcome read l = some r) (hstuck : ∀ l', ¬ Step read l l') :
    l = ⟨[], [], r⟩ := by
  obtain ⟨toWrite, wire, receiver⟩ := l
  cases toWrite with
  | cons f toWrite => exact absurd (Step.write f toWrite wire receiver) (hstuck _)
  | nil =>
      cases wire with
      | cons f wire =>
          simp only [outcome, List.append_nil, List.foldlM_cons] at hout
          cases hread : read receiver f with
          | none => simp [hread] at hout
          | some r' => exact absurd (Step.read [] wire hread) (hstuck _)
      | nil =>
          simp only [outcome, List.append_nil, List.foldlM_nil, Option.pure_def,
            Option.some.injEq] at hout
          rw [hout]

/-- If the fold succeeds, the state it gives is reached. -/
theorem reaches_outcome (hout : outcome read l = some r) :
    Relation.ReflTransGen (Step read) l ⟨[], [], r⟩ := by
  obtain ⟨l', hrun, hstuck⟩ :=
    TransitionSystem.exists_stuck_of_measure size (fun _ _ => size_step) l
  rwa [eq_of_stuck ((outcome_run hrun).trans hout) hstuck] at hrun

end Runs

end Channel
