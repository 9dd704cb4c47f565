import Mathlib.Data.List.Nodup
import Mathlib.Data.Set.Defs
import Mathlib.Logic.Function.Basic
import Mathlib.Tactic.Common

/-!
# Completing partial assignments

A demand asks that a variable has an allowed value, or it asks for something that no assignment
decides.  A completion of an assignment for some demands gives values to the variables they name,
and to no other variable.

A search that completes an assignment for one demand after the other has exactly the completions for
all demands at its leaves, each of them once: `enumerates_leaves`.
-/

namespace Completions

/-- What is below a node of a search that has a list of next nodes for each level. -/
def leaves {ν ι : Type*} (next : ι → ν → List ν) : List ι → ν → List ν
  | [], x => [x]
  | i :: is, x => (next i x).flatMap (leaves next is)

lemma leaves_append {ν ι : Type*} (next : ι → ν → List ν) (is is' : List ι) (x : ν) :
    leaves next (is ++ is') x = (leaves next is x).flatMap (leaves next is') := by
  induction is generalizing x with
  | nil => exact (List.append_nil _).symm
  | cons i is ih =>
      show (next i x).flatMap (leaves next (is ++ is')) = ((next i x).flatMap _).flatMap _
      rw [List.flatMap_assoc]
      exact congrArg (fun f => (next i x).flatMap f) (funext ih)

/-- A level whose next nodes are themselves found level by level. -/
lemma leaves_flatMap {ν ι κ : Type*} (next : ι → ν → List ν) (levels : κ → List ι) (ks : List κ)
    (x : ν) :
    leaves (fun k => leaves next (levels k)) ks x = leaves next (ks.flatMap levels) x := by
  induction ks generalizing x with
  | nil => rfl
  | cons k ks ih =>
      rw [List.flatMap_cons, leaves_append]
      exact congrArg (fun f => (leaves next (levels k) x).flatMap f) (funext ih)

inductive Demand (V C : Type*) where
  | on (v : V) (allowed : Set C)
  | closed (p : Prop)

variable {V C : Type*}

namespace Demand

/-- The variable that the demand names. -/
def Names : Demand V C → V → Prop
  | on v _, u => u = v
  | closed _, _ => False

def Sat : Demand V C → (V → Option C) → Prop
  | on v allowed, σ => ∃ c ∈ allowed, σ v = some c
  | closed p, _ => p

end Demand

/-- All that `T` assigns, `σ` assigns as well. -/
def Extends (T σ : V → Option C) : Prop := ∀ v c, T v = some c → σ v = some c

structure Completion (ds : List (Demand V C)) (T σ : V → Option C) : Prop where
  isExtension : Extends T σ
  only : ∀ v c, σ v = some c → T v = some c ∨ ∃ d ∈ ds, d.Names v
  sat : ∀ d ∈ ds, d.Sat σ

variable {d : Demand V C} {ds : List (Demand V C)} {T τ σ : V → Option C}

lemma Demand.Sat.of_extends (h : d.Sat τ) (hext : Extends τ σ) : d.Sat σ := by
  cases d with
  | on v allowed =>
      obtain ⟨c, hc, hv⟩ := h
      exact ⟨c, hc, hext v c hv⟩
  | closed p => exact h

/-- A demand that is met names only variables with values. -/
lemma Demand.Sat.exists_value (h : d.Sat σ) {v : V} (hv : d.Names v) : ∃ c, σ v = some c := by
  cases d with
  | on u allowed =>
      obtain ⟨c, -, hc⟩ := h
      obtain rfl : v = u := hv
      exact ⟨c, hc⟩
  | closed p => exact absurd hv id

lemma completion_nil : Completion [] T σ ↔ σ = T := by
  constructor
  · intro h
    funext v
    cases hT : T v with
    | some c => exact h.isExtension v c hT
    | none =>
        cases hσ : σ v with
        | none => rfl
        | some c =>
            rcases h.only v c hσ with hc | ⟨d, hd, -⟩
            · rw [hT] at hc
              exact hc.symm
            · exact absurd hd List.not_mem_nil
  · rintro rfl
    exact ⟨fun v c h => h, fun v c h => Or.inl h, fun d hd => absurd hd List.not_mem_nil⟩

lemma completion_closed {p : Prop} : Completion [.closed p] T σ ↔ p ∧ σ = T := by
  constructor
  · intro h
    refine ⟨h.sat _ List.mem_cons_self, completion_nil.1 ⟨h.isExtension, fun v c hv => ?_,
      fun d hd => absurd hd List.not_mem_nil⟩⟩
    rcases h.only v c hv with hT | ⟨d, hd, hnames⟩
    · exact Or.inl hT
    · obtain rfl := List.mem_singleton.1 hd
      exact absurd hnames id
  · rintro ⟨hp, rfl⟩
    refine ⟨fun v c h => h, fun v c h => Or.inl h, fun d hd => ?_⟩
    obtain rfl := List.mem_singleton.1 hd
    exact hp

/-- A variable with a value keeps it. -/
lemma completion_on_of_some {v : V} {allowed : Set C} {c : C} (hv : T v = some c) :
    Completion [.on v allowed] T σ ↔ c ∈ allowed ∧ σ = T := by
  constructor
  · intro h
    obtain ⟨c', hc', hσ⟩ := h.sat _ List.mem_cons_self
    rw [h.isExtension v c hv, Option.some.injEq] at hσ
    refine ⟨hσ ▸ hc', completion_nil.1 ⟨h.isExtension, fun u c'' hu => ?_,
      fun d hd => absurd hd List.not_mem_nil⟩⟩
    rcases h.only u c'' hu with hT | ⟨d, hd, hnames⟩
    · exact Or.inl hT
    · obtain rfl := List.mem_singleton.1 hd
      obtain rfl : u = v := hnames
      rw [h.isExtension u c hv] at hu
      exact Or.inl (hv.trans hu)
  · rintro ⟨hc, rfl⟩
    refine ⟨fun u c h => h, fun u c h => Or.inl h, fun d hd => ?_⟩
    obtain rfl := List.mem_singleton.1 hd
    exact ⟨c, hc, hv⟩

/-- A variable without a value gets an allowed one. -/
lemma completion_on_of_none [DecidableEq V] {v : V} {allowed : Set C} (hv : T v = none) :
    Completion [.on v allowed] T σ ↔ ∃ c ∈ allowed, σ = Function.update T v (some c) := by
  constructor
  · intro h
    obtain ⟨c, hc, hσ⟩ := h.sat _ List.mem_cons_self
    refine ⟨c, hc, funext (fun u => ?_)⟩
    by_cases hu : u = v
    · rw [hu, Function.update_self, hσ]
    · rw [Function.update_of_ne hu]
      cases hT : T u with
      | some c' => exact h.isExtension u c' hT
      | none =>
          cases hσu : σ u with
          | none => rfl
          | some c' =>
              rcases h.only u c' hσu with hc' | ⟨d, hd, hnames⟩
              · exact hc'.symm.trans hT
              · obtain rfl := List.mem_singleton.1 hd
                exact absurd hnames hu
  · rintro ⟨c, hc, rfl⟩
    refine ⟨fun u c' hu => ?_, fun u c' hu => ?_, fun d hd => ?_⟩
    · have hne : u ≠ v := by
        rintro rfl
        rw [hv] at hu
        exact absurd hu (Option.some_ne_none _).symm
      rw [Function.update_of_ne hne, hu]
    · by_cases huv : u = v
      · exact Or.inr ⟨_, List.mem_cons_self, huv⟩
      · rw [Function.update_of_ne huv] at hu
        exact Or.inl hu
    · obtain rfl := List.mem_singleton.1 hd
      exact ⟨c, hc, Function.update_self v (some c) T⟩

/-- Completing for a demand first, and then for the others. -/
lemma Completion.cons (hfirst : Completion [d] T τ) (hrest : Completion ds τ σ) :
    Completion (d :: ds) T σ := by
  refine ⟨fun v c h => hrest.isExtension v c (hfirst.isExtension v c h), fun v c h => ?_,
    fun d' hd' => ?_⟩
  · rcases hrest.only v c h with hτ | ⟨d', hd', hv⟩
    · rcases hfirst.only v c hτ with hT | ⟨d', hd', hv⟩
      · exact Or.inl hT
      · rw [List.mem_singleton] at hd'
        exact Or.inr ⟨d', hd' ▸ List.mem_cons_self, hv⟩
    · exact Or.inr ⟨d', List.mem_cons_of_mem d hd', hv⟩
  · rcases List.mem_cons.1 hd' with rfl | hd'
    · exact (hfirst.sat d' List.mem_cons_self).of_extends hrest.isExtension
    · exact hrest.sat d' hd'

/-- A completion, on what the first demand names. -/
lemma Completion.exists_first (h : Completion (d :: ds) T σ) :
    ∃ τ, Completion [d] T τ ∧ Completion ds τ σ := by
  classical
  let τ : V → Option C := fun v => if d.Names v then σ v else T v
  have hτ : Extends τ σ := by
    intro v c hv
    by_cases hd : d.Names v
    · exact (if_pos hd).symm.trans hv
    · exact h.isExtension v c ((if_neg hd).symm.trans hv)
  have hT : Extends T τ := by
    intro v c hv
    by_cases hd : d.Names v
    · exact (if_pos hd).trans (h.isExtension v c hv)
    · exact (if_neg hd).trans hv
  refine ⟨τ, ⟨hT, fun v c hv => ?_, fun d' hd' => ?_⟩, ⟨hτ, fun v c hv => ?_, fun d' hd' => ?_⟩⟩
  · by_cases hd : d.Names v
    · exact Or.inr ⟨d, List.mem_cons_self, hd⟩
    · exact Or.inl ((if_neg hd).symm.trans hv)
  · obtain rfl := List.mem_singleton.1 hd'
    have hsat := h.sat d' List.mem_cons_self
    cases d' with
    | on v allowed =>
        obtain ⟨c, hc, hv⟩ := hsat
        exact ⟨c, hc, (if_pos (show (Demand.on v allowed).Names v from rfl)).trans hv⟩
    | closed p => exact hsat
  · by_cases hd : d.Names v
    · exact Or.inl ((if_pos hd).trans hv)
    · rcases h.only v c hv with hc | ⟨d', hd', hv'⟩
      · exact Or.inl ((if_neg hd).trans hc)
      · rcases List.mem_cons.1 hd' with rfl | hd'
        · exact absurd hv' hd
        · exact Or.inr ⟨d', hd', hv'⟩
  · exact h.sat d' (List.mem_cons_of_mem d hd')

/-- Two completions for a demand that a common assignment extends are the same. -/
lemma Completion.eq_of_extends {τ' : V → Option C} (h : Completion [d] T τ)
    (h' : Completion [d] T τ') (hτ : Extends τ σ) (hτ' : Extends τ' σ) : τ = τ' := by
  have hle : ∀ {τ τ' : V → Option C}, Completion [d] T τ → Completion [d] T τ' → Extends τ σ →
      Extends τ' σ → ∀ v c, τ v = some c → τ' v = some c := by
    intro τ τ' h h' hτ hτ' v c hv
    rcases h.only v c hv with hT | ⟨d', hd', hnames⟩
    · exact h'.isExtension v c hT
    · obtain ⟨c', hc'⟩ := (h'.sat d' hd').exists_value hnames
      rw [hc', ← hτ' v c' hc', hτ v c hv]
  funext v
  cases hv : τ v with
  | some c => exact (hle h h' hτ hτ' v c hv).symm
  | none =>
      cases hv' : τ' v with
      | none => rfl
      | some c => exact hv.symm.trans (hle h' h hτ' hτ v c hv')

/-- A list has exactly the elements with a property, each of them once. -/
structure Enumerates {α : Type*} (l : List α) (P : α → Prop) : Prop where
  nodup : l.Nodup
  mem_iff : ∀ a, a ∈ l ↔ P a

lemma Enumerates.nil {α : Type*} {P : α → Prop} (h : ∀ a, ¬ P a) : Enumerates [] P :=
  ⟨List.nodup_nil, fun a => ⟨fun ha => absurd ha List.not_mem_nil, fun ha => absurd ha (h a)⟩⟩

lemma Enumerates.singleton {α : Type*} {P : α → Prop} {x : α} (h : ∀ a, P a ↔ a = x) :
    Enumerates [x] P :=
  ⟨List.nodup_singleton x, fun a => List.mem_singleton.trans (h a).symm⟩

/-- A search whose next nodes are the completions for one demand. -/
theorem enumerates_leaves {ν ι : Type*} {next : ι → ν → List ν} {demand : ι → Demand V C}
    {denote : ν → V → Option C}
    (hnext : ∀ i x, Enumerates ((next i x).map denote) (Completion [demand i] (denote x)))
    (is : List ι) (x : ν) :
    Enumerates ((leaves next is x).map denote) (Completion (is.map demand) (denote x)) := by
  induction is generalizing x with
  | nil =>
      refine ⟨List.nodup_singleton _, fun σ => ?_⟩
      rw [List.map_nil, completion_nil]
      exact List.mem_singleton
  | cons i is ih =>
      have hflat : (leaves next (i :: is) x).map denote =
          (next i x).flatMap (fun y => (leaves next is y).map denote) := List.map_flatMap
      rw [hflat]
      constructor
      · rw [List.nodup_flatMap]
        refine ⟨fun y _ => (ih y).nodup, ?_⟩
        have hdistinct := List.pairwise_map.1 (hnext i x).nodup
        refine hdistinct.imp_of_mem (fun {y y'} hy hy' hne => ?_)
        intro σ hσ hσ'
        have hcompletion := ((ih y).mem_iff σ).1 hσ
        have hcompletion' := ((ih y').mem_iff σ).1 hσ'
        exact hne (Completion.eq_of_extends
          (((hnext i x).mem_iff _).1 (List.mem_map_of_mem hy))
          (((hnext i x).mem_iff _).1 (List.mem_map_of_mem hy'))
          hcompletion.isExtension hcompletion'.isExtension)
      · intro σ
        rw [List.mem_flatMap]
        constructor
        · rintro ⟨y, hy, hσ⟩
          exact Completion.cons (((hnext i x).mem_iff _).1 (List.mem_map_of_mem hy))
            (((ih y).mem_iff σ).1 hσ)
        · intro h
          obtain ⟨τ, hfirst, hrest⟩ := Completion.exists_first h
          obtain ⟨y, hy, rfl⟩ := List.mem_map.1 (((hnext i x).mem_iff τ).2 hfirst)
          exact ⟨y, hy, ((ih y).mem_iff σ).2 hrest⟩

end Completions
