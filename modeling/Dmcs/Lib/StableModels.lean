import Mathlib.Order.Minimal
import Dmcs.Lib.Levels

/-!
# Answer sets of ground programs

A rule has a disjunctive head, a positive and a negative body.  An answer set is a minimal model of
the reduct that it induces.

For normal programs whose positive bodies do not support themselves, the answer sets are the models
of the completion.  `existsUnique_extends` is the general fact about completions: when the
atoms outside a set of inputs only depend on inputs and on atoms of a lower level, every choice of
the inputs extends to exactly one set that is complete outside of them.

Answer sets are minimal models of the reduct; for normal programs they are supported, hence models
of the completion (`IsAnswerSet.isCompleted`), and for tight programs the converse holds, by
induction on the numbering of the atoms (`IsCompleted.isAnswerSet`).
-/

namespace StableModels

open Levels

variable {α : Type}

structure Rule (α : Type) where
  head : List α
  positiveBody : List α
  negativeBody : List α
  deriving DecidableEq, Repr

/-- The rule without a body. -/
def Rule.fact (a : α) : Rule α := ⟨[a], [], []⟩

/-- The reduct by `M` drops a rule that this refutes. -/
def Rule.InReduct (M : Set α) (r : Rule α) : Prop := ∀ a ∈ r.negativeBody, a ∉ M

def Rule.BodyHolds (M : Set α) (r : Rule α) : Prop := (∀ a ∈ r.positiveBody, a ∈ M) ∧ r.InReduct M

/-- `N` is a model of the reduct of a program by `M`. -/
def IsReductModel (P : Set (Rule α)) (M N : Set α) : Prop :=
  ∀ r ∈ P, r.InReduct M → (∀ a ∈ r.positiveBody, a ∈ N) → ∃ a ∈ r.head, a ∈ N

/-- An answer set is a minimal model of its own reduct. -/
def IsAnswerSet (P : Set (Rule α)) (M : Set α) : Prop := Minimal (IsReductModel P M) M

/-- Every rule has one head. -/
def IsNormal (P : Set (Rule α)) : Prop := ∀ r ∈ P, ∃ a, r.head = [a]

/-- Some rule with head `a` applies. -/
def Supported (P : Set (Rule α)) (M : Set α) (a : α) : Prop :=
  ∃ r ∈ P, a ∈ r.head ∧ r.BodyHolds M

/-- The completion, at the atoms of `A`. -/
def CompletedOn (P : Set (Rule α)) (A M : Set α) : Prop := ∀ a ∈ A, a ∈ M ↔ Supported P M a

abbrev IsCompleted (P : Set (Rule α)) (M : Set α) : Prop := CompletedOn P Set.univ M

variable {P : Set (Rule α)} {M N : Set α} {a : α} {r : Rule α}

/-! ## Answer sets and the completion -/

lemma Rule.bodyHolds_fact (a : α) (M : Set α) : (Rule.fact a).BodyHolds M := by
  constructor
  · intro b hb
    exact absurd hb List.not_mem_nil
  · intro b hb
    exact absurd hb List.not_mem_nil

lemma supported_of_fact (h : Rule.fact a ∈ P) (M : Set α) : Supported P M a :=
  ⟨_, h, List.mem_singleton_self a, Rule.bodyHolds_fact a M⟩

/-- Every atom of an answer set is supported: without it a rule that needs it would have another
true head. -/
lemma IsAnswerSet.supported (h : IsAnswerSet P M) (ha : a ∈ M) : Supported P M a := by
  by_contra hnot
  have hmodel : IsReductModel P M (M \ {a}) := by
    intro r hr hreduct hpos
    have hbody : r.BodyHolds M := ⟨fun b hb => (hpos b hb).1, hreduct⟩
    obtain ⟨b, hb, hbM⟩ := h.1 r hr hreduct hbody.1
    refine ⟨b, hb, hbM, fun heq => ?_⟩
    rw [Set.mem_singleton_iff] at heq
    subst heq
    exact hnot ⟨r, hr, hb, hbody⟩
  exact (h.2 hmodel Set.sdiff_subset ha).2 rfl

/-- The answer sets of a normal program are models of the completion. -/
lemma IsAnswerSet.isCompleted (hP : IsNormal P) (h : IsAnswerSet P M) : IsCompleted P M := by
  intro a _
  refine ⟨h.supported, fun ⟨r, hr, ha, hbody⟩ => ?_⟩
  obtain ⟨b, hb⟩ := hP r hr
  obtain ⟨c, hc, hcM⟩ := h.1 r hr hbody.2 hbody.1
  rw [hb, List.mem_singleton] at ha hc
  rwa [ha, ← hc]

/-- A program is tight when the positive bodies go down in some numbering of the atoms. -/
def IsTight (P : Set (Rule α)) : Prop :=
  ∃ level : α → ℕ, ∀ r ∈ P, ∀ a ∈ r.head, ∀ b ∈ r.positiveBody, level b < level a

/-- The models of the completion of a tight program are answer sets. -/
lemma IsCompleted.isAnswerSet (hP : IsNormal P) (htight : IsTight P) (h : IsCompleted P M) :
    IsAnswerSet P M := by
  refine ⟨fun r hr hreduct hpos => ?_, fun N hN _ => ?_⟩
  · obtain ⟨a, ha⟩ := hP r hr
    have hmem : a ∈ r.head := ha ▸ List.mem_singleton_self a
    exact ⟨a, hmem, (h a trivial).2 ⟨r, hr, hmem, hpos, hreduct⟩⟩
  · obtain ⟨level, hlevel⟩ := htight
    have hall : ∀ n, ∀ a ∈ M, level a = n → a ∈ N := by
      intro n
      induction n using Nat.strong_induction_on with
      | _ n ih =>
          intro a ha hn
          obtain ⟨r, hr, hhead, hbody⟩ := (h a trivial).1 ha
          have hpos : ∀ b ∈ r.positiveBody, b ∈ N := fun b hb =>
            ih (level b) (hn ▸ hlevel r hr a hhead b hb) b (hbody.1 b hb) rfl
          obtain ⟨b, hb, hbN⟩ := hN r hr hbody.2 hpos
          obtain ⟨c, hc⟩ := hP r hr
          rw [hc, List.mem_singleton] at hhead hb
          rwa [hhead, ← hb]
    exact fun a ha => hall (level a) a ha rfl

/-- For tight normal programs the answer sets are the models of the completion. -/
theorem isAnswerSet_iff_isCompleted (hP : IsNormal P) (htight : IsTight P) :
    IsAnswerSet P M ↔ IsCompleted P M :=
  ⟨fun h => h.isCompleted hP, fun h => h.isAnswerSet hP htight⟩

/-- Programs without positive bodies are tight. -/
lemma isTight_of_no_positiveBody (h : ∀ r ∈ P, r.positiveBody = []) : IsTight P := by
  refine ⟨fun _ => 0, fun r hr a _ b hb => ?_⟩
  rw [h r hr] at hb
  exact absurd hb List.not_mem_nil

/-! ## Programs without cycles outside their inputs -/

/-- Outside `inputs` an atom is a fact, or the bodies of its rules consist of inputs and of atoms of
a lower level. -/
def DependsBelow (P : Set (Rule α)) (inputs : Set α) (level : α → ℕ) : Prop :=
  ∀ a ∉ inputs, Rule.fact a ∈ P ∨ ∀ r ∈ P, a ∈ r.head →
    ∀ b ∈ r.positiveBody ++ r.negativeBody, b ∈ inputs ∨ level b < level a

variable {inputs T : Set α} {level : α → ℕ}

/-- Bodies are evaluated alike in sets that agree on them. -/
lemma Rule.bodyHolds_congr (h : ∀ b ∈ r.positiveBody ++ r.negativeBody, b ∈ M ↔ b ∈ N) :
    r.BodyHolds M ↔ r.BodyHolds N := by
  unfold Rule.BodyHolds Rule.InReduct
  refine and_congr (forall₂_congr fun b hb => ?_) (forall₂_congr fun b hb => ?_)
  · exact h b (List.mem_append_left _ hb)
  · exact not_congr (h b (List.mem_append_right _ hb))

lemma DependsBelow.supported_congr (h : DependsBelow P inputs level) (ha : a ∉ inputs)
    (hagree : ∀ b, b ∈ inputs ∨ level b < level a → (b ∈ M ↔ b ∈ N)) :
    Supported P M a ↔ Supported P N a := by
  rcases h a ha with hfact | hbodies
  · exact iff_of_true (supported_of_fact hfact M) (supported_of_fact hfact N)
  · refine exists_congr fun r => and_congr_right fun hr => and_congr_right fun hhead => ?_
    exact Rule.bodyHolds_congr (fun b hb => hagree b (hbodies r hr hhead b hb))

/-- `M` takes the inputs from `T` and is complete outside of them. -/
structure Extends (P : Set (Rule α)) (inputs T M : Set α) : Prop where
  inputs_eq : ∀ a ∈ inputs, a ∈ M ↔ a ∈ T
  completed : CompletedOn P {a | a ∉ inputs} M

/-- The consequences of a set outside the inputs `T`. -/
def consequences (P : Set (Rule α)) (inputs T M : Set α) : Set α :=
  {a | (a ∈ inputs ∧ a ∈ T) ∨ (a ∉ inputs ∧ Supported P (T ∩ inputs ∪ M \ inputs) a)}

/-- **Completion below inputs.**  When the atoms outside `inputs` depend on inputs and on lower
atoms only, every choice of the inputs extends to exactly one set that is complete outside. -/
theorem existsUnique_extends (h : DependsBelow P inputs level) (T : Set α) :
    ∃! M, Extends P inputs T M := by
  have hup : GoesUp level (consequences P inputs T) := by
    intro n M N hMN a ha
    refine propext (or_congr_right (and_congr_right fun hnot => ?_))
    refine h.supported_congr hnot (fun b hb => or_congr_right ?_)
    by_cases hin : b ∈ inputs
    · exact iff_of_false (fun hM => hM.2 hin) (fun hN => hN.2 hin)
    · have hlt := hb.resolve_left hin
      exact and_congr_left' (iff_of_eq (hMN b (by omega)))
  have hfixed : ∀ M, consequences P inputs T M = M ↔ Extends P inputs T M := by
    intro M
    have hsame : (∀ a ∈ inputs, a ∈ M ↔ a ∈ T) → T ∩ inputs ∪ M \ inputs = M := by
      intro hin
      ext a
      by_cases ha : a ∈ inputs
      · simp [ha, hin a ha]
      · simp [ha]
    constructor
    · intro hM
      have hin : ∀ a ∈ inputs, a ∈ M ↔ a ∈ T := by
        intro a ha
        rw [← hM]
        simp [consequences, ha]
      refine ⟨hin, fun a ha => ?_⟩
      have hmem : a ∈ M ↔ a ∈ consequences P inputs T M := by rw [hM]
      rw [hmem, consequences, hsame hin]
      simp [show a ∉ inputs from ha]
    · intro hM
      ext a
      rw [consequences, hsame hM.inputs_eq]
      by_cases ha : a ∈ inputs
      · simp [ha, hM.inputs_eq a ha]
      · simp [ha, hM.completed a ha]
  obtain ⟨M, hM, hunique⟩ := hup.existsUnique
  exact ⟨M, (hfixed M).1 hM, fun N hN => hunique N ((hfixed N).2 hN)⟩

/-- When the completion also holds at the inputs, whatever they are, the models of the completion
are as many as the choices of the inputs. -/
theorem ncard_isCompleted (h : DependsBelow P inputs level) (hfinite : inputs.Finite)
    (hinputs : ∀ M, CompletedOn P {a | a ∉ inputs} M → CompletedOn P inputs M) :
    {M | IsCompleted P M}.ncard = 2 ^ inputs.ncard := by
  have hcompleted : ∀ M, IsCompleted P M ↔ CompletedOn P {a | a ∉ inputs} M := by
    intro M
    refine ⟨fun hM a _ => hM a trivial, fun hM a _ => ?_⟩
    by_cases ha : a ∈ inputs
    · exact hinputs M hM a ha
    · exact hM a ha
  rw [← Set.ncard_powerset inputs hfinite]
  refine Set.ncard_congr (fun M _ => M ∩ inputs) ?_ ?_ ?_
  · exact fun M _ => Set.inter_subset_right
  · intro M N hM hN heq
    have hext : ∀ {M'}, IsCompleted P M' → M' ∩ inputs = M ∩ inputs → Extends P inputs M M' := by
      intro M' hM' heq'
      refine ⟨fun a ha => ?_, (hcompleted M').1 hM'⟩
      have hmem : a ∈ M' ∩ inputs ↔ a ∈ M ∩ inputs := by rw [heq']
      simpa [ha] using hmem
    exact (existsUnique_extends h M).unique (hext hM rfl) (hext hN heq.symm)
  · intro T hT
    obtain ⟨M, hM, -⟩ := existsUnique_extends h T
    refine ⟨M, (hcompleted M).2 hM.completed, ?_⟩
    ext a
    constructor
    · exact fun ha => (hM.inputs_eq a ha.2).1 ha.1
    · exact fun ha => ⟨(hM.inputs_eq a (hT ha)).2 ha, hT ha⟩

end StableModels
