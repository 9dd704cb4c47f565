import Mathlib.Data.List.Forall2
import Mathlib.Tactic.Common

/-!
# Objects that are called again and again

A `Reusable` object has a state that lives as long as it, and a method that reads an input, changes
the state and hands out the result the state holds: a reference, so that a later call changes what
the caller of an earlier one sees.  `NoMemory` says that nobody can tell such an object from one
that is built anew for every call.

An object that only ever merges what it reads into its result, `Accumulates`, has no memory exactly
on the inputs that all give the same result.
-/

namespace Reuse

/-- An object with a method `call`; an error stands for an exception, or for a call that does not
come back. -/
structure Reusable (ι σ ν ε : Type) where
  init : σ
  call : ι → σ → Except ε σ
  result : σ → ν

namespace Reusable

variable {ι σ ν ε : Type} (o : Reusable ι σ ν ε)

/-- What a new object returns for one input. -/
def alone (i : ι) : Except ε ν := (o.call i o.init).map o.result

/-- The states after each of a sequence of calls. -/
def calls : List ι → σ → Except ε (List σ)
  | [], _ => .ok []
  | i :: is, s =>
      match o.call i s with
      | .error e => .error e
      | .ok s' =>
          match calls is s' with
          | .error e => .error e
          | .ok after => .ok (s' :: after)

/-- Every call returns what a new object returns for its input, and what it returned is still the
same after every later call. -/
def NoMemory (same : ν → ν → Prop) (inputs : List ι) : Prop :=
  ∃ after, o.calls inputs o.init = .ok after ∧
    List.Forall₂ (fun i s => ∃ v, o.alone i = .ok v ∧ same (o.result s) v) inputs after ∧
    after.Pairwise (fun s s' => same (o.result s') (o.result s))

/-- A new object comes back from every one of the inputs. -/
def Accepts (inputs : List ι) : Prop := ∀ i ∈ inputs, ∃ v, o.alone i = .ok v

/-- All results of new objects are the same. -/
def AllAlike (same : ν → ν → Prop) (inputs : List ι) : Prop :=
  ∀ i ∈ inputs, ∀ j ∈ inputs, ∀ v w, o.alone i = .ok v → o.alone j = .ok w → same v w

/-- A call merges what a new object would return into the result. -/
structure Accumulates (same : ν → ν → Prop) (merge : ν → ν → ν) : Prop where
  equiv : Equivalence same
  fresh : ∀ v, same (merge (o.result o.init) v) v
  absorbs : ∀ v v', same v v' → same (merge v v') v
  call_eq : ∀ i v, o.alone i = .ok v →
    ∀ s, ∃ s', o.call i s = .ok s' ∧ o.result s' = merge (o.result s) v

variable {o} {same : ν → ν → Prop} {merge : ν → ν → ν} {inputs : List ι} {i : ι} {s s' : σ}

lemma alone_eq_ok {v : ν} :
    o.alone i = .ok v ↔ ∃ s, o.call i o.init = .ok s ∧ o.result s = v := by
  unfold alone
  cases o.call i o.init with
  | error e => simp [Except.map]
  | ok s => simp [Except.map]

lemma calls_cons (h : o.call i s = .ok s') {is : List ι} {after : List σ}
    (hafter : o.calls is s' = .ok after) : o.calls (i :: is) s = .ok (s' :: after) := by
  unfold calls
  rw [h]
  simp only [hafter]

lemma calls_cons_eq_ok {is : List ι} {after : List σ} :
    o.calls (i :: is) s = .ok after ↔
      ∃ s' rest, o.call i s = .ok s' ∧ o.calls is s' = .ok rest ∧ after = s' :: rest := by
  constructor
  · intro h
    unfold calls at h
    cases hcall : o.call i s with
    | error e =>
        rw [hcall] at h
        cases h
    | ok s' =>
        rw [hcall] at h
        simp only at h
        cases hrest : o.calls is s' with
        | error e =>
            rw [hrest] at h
            cases h
        | ok rest =>
            rw [hrest] at h
            cases h
            exact ⟨s', rest, rfl, hrest, rfl⟩
  · rintro ⟨s', rest, hcall, hrest, rfl⟩
    exact calls_cons hcall hrest

/-- The object returned is one and the same, so the results of new objects are all alike. -/
lemma NoMemory.allAlike (hsame : Equivalence same) (h : o.NoMemory same inputs) :
    o.AllAlike same inputs := by
  obtain ⟨after, -, hvalues, hkept⟩ := h
  have hstate : ∀ i ∈ inputs, ∀ v, o.alone i = .ok v → ∃ s ∈ after, same (o.result s) v := by
    clear hkept
    intro i hi v hv
    induction hvalues with
    | nil => exact absurd hi List.not_mem_nil
    | @cons j s is after hj _ ih =>
        rcases List.mem_cons.1 hi with rfl | hi
        · obtain ⟨v', hv', hsame'⟩ := hj
          rw [hv] at hv'
          cases hv'
          exact ⟨s, List.mem_cons_self, hsame'⟩
        · obtain ⟨s', hs', hsame'⟩ := ih hi
          exact ⟨s', List.mem_cons_of_mem s hs', hsame'⟩
  have hall : ∀ s ∈ after, ∀ s' ∈ after, same (o.result s') (o.result s) := by
    intro s hs s' hs'
    exact List.Pairwise.forall_of_forall_of_flip (R := fun s s' => same (o.result s') (o.result s))
      (fun s _ => hsame.refl _) hkept (hkept.imp (fun h => hsame.symm h)) hs hs'
  intro i hi j hj v w hv hw
  obtain ⟨s, hs, hsv⟩ := hstate i hi v hv
  obtain ⟨s', hs', hsw⟩ := hstate j hj w hw
  exact hsame.trans (hsame.symm hsv) (hsame.trans (hall s' hs' s hs) hsw)

/-- A single call is the first call of a new object. -/
lemma noMemory_singleton (hsame : ∀ v, same v v) (hin : o.Accepts [i]) :
    o.NoMemory same [i] := by
  obtain ⟨v, hv⟩ := hin i List.mem_cons_self
  obtain ⟨s, hs, hsv⟩ := alone_eq_ok.1 hv
  have hcalls : o.calls [i] o.init = .ok [s] := calls_cons hs rfl
  refine ⟨[s], hcalls, List.Forall₂.cons ⟨v, hv, ?_⟩ List.Forall₂.nil, List.pairwise_singleton _ _⟩
  rw [hsv]
  exact hsame v

/-- Inputs that leave a new object as it is. -/
lemma noMemory_of_unchanged (hsame : ∀ v, same v v)
    (hin : ∀ i ∈ inputs, o.call i o.init = .ok o.init) : o.NoMemory same inputs := by
  have hcalls : o.calls inputs o.init = .ok (inputs.map (fun _ => o.init)) := by
    induction inputs with
    | nil => rfl
    | cons i is ih =>
        exact calls_cons (hin i List.mem_cons_self)
          (ih (fun j hj => hin j (List.mem_cons_of_mem i hj)))
  refine ⟨_, hcalls, ?_, ?_⟩
  · rw [List.forall₂_map_right_iff, List.forall₂_same]
    intro i hi
    exact ⟨_, alone_eq_ok.2 ⟨o.init, hin i hi, rfl⟩, hsame _⟩
  · rw [List.pairwise_map]
    exact List.pairwise_of_forall (fun _ _ => hsame _)

namespace Accumulates

/-- Inputs whose results the object holds already leave it as it is. -/
lemma calls_unchanged (h : o.Accumulates same merge)
    (hin : ∀ i ∈ inputs, ∃ v, o.alone i = .ok v ∧ same (o.result s) v) :
    ∃ after, o.calls inputs s = .ok after ∧
      List.Forall₂ (fun i s => ∃ v, o.alone i = .ok v ∧ same (o.result s) v) inputs after ∧
      ∀ s' ∈ after, same (o.result s') (o.result s) := by
  induction inputs generalizing s with
  | nil => exact ⟨[], rfl, List.Forall₂.nil, fun s' hs' => absurd hs' List.not_mem_nil⟩
  | cons i is ih =>
      obtain ⟨v, hv, hsv⟩ := hin i List.mem_cons_self
      obtain ⟨s', hcall, hresult⟩ := h.call_eq i v hv s
      have hkeep : same (o.result s') (o.result s) := by
        rw [hresult]
        exact h.absorbs _ _ hsv
      obtain ⟨after, hafter, hvalues, hsame⟩ := ih (s := s') (by
        intro j hj
        obtain ⟨w, hw, hsw⟩ := hin j (List.mem_cons_of_mem i hj)
        exact ⟨w, hw, h.equiv.trans hkeep hsw⟩)
      refine ⟨s' :: after, calls_cons hcall hafter,
        List.Forall₂.cons ⟨v, hv, h.equiv.trans hkeep hsv⟩ hvalues, ?_⟩
      intro s'' hs''
      rcases List.mem_cons.1 hs'' with rfl | hs''
      · exact hkeep
      · exact h.equiv.trans (hsame s'' hs'') hkeep

/-- An object that accumulates has no memory exactly where there is nothing to accumulate. -/
lemma noMemory_iff (h : o.Accumulates same merge)
    (hin : o.Accepts inputs) :
    o.NoMemory same inputs ↔ o.AllAlike same inputs := by
  refine ⟨NoMemory.allAlike h.equiv, fun halike => ?_⟩
  cases inputs with
  | nil => exact ⟨[], rfl, List.Forall₂.nil, List.Pairwise.nil⟩
  | cons i is =>
      obtain ⟨v, hv⟩ := hin i List.mem_cons_self
      obtain ⟨s, hcall, hresult⟩ := h.call_eq i v hv o.init
      have hs : same (o.result s) v := by
        rw [hresult]
        exact h.fresh v
      have hrest : ∀ j ∈ is, ∃ w, o.alone j = .ok w ∧ same (o.result s) w := by
        intro j hj
        obtain ⟨w, hw⟩ := hin j (List.mem_cons_of_mem i hj)
        have hvw := halike i List.mem_cons_self j (List.mem_cons_of_mem i hj) v w hv hw
        exact ⟨w, hw, h.equiv.trans hs hvw⟩
      obtain ⟨after, hafter, hvalues, hsame⟩ := h.calls_unchanged hrest
      refine ⟨s :: after, calls_cons hcall hafter, List.Forall₂.cons ⟨v, hv, hs⟩ hvalues, ?_⟩
      refine List.Pairwise.cons hsame (List.pairwise_of_forall_mem_list ?_)
      intro s₁ hs₁ s₂ hs₂
      exact h.equiv.trans (hsame s₂ hs₂) (h.equiv.symm (hsame s₁ hs₁))

end Accumulates

end Reusable

end Reuse
