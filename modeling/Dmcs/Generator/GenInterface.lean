import Dmcs.Generator.ContextGenerator
import Dmcs.Lib.Draws
import Mathlib.Data.List.Sort

/-!
# Random interfaces (`genInterface`)

The interface of a context is a set of its atoms, drawn one after the other: a draw that repeats an
atom is thrown away.  The sorted atoms are then stored in a table under the IDs they have in the
signature of the context.

`neverStuck_genInterface` says when the drawing cannot get stuck: there must be as many atoms as the
interface is to have, and the source of random numbers must be able to name so many.  The IDs limit
the number of contexts: their kind holds the number of the context next to the mark of a belief.
-/

namespace Dmcs

open ContextGenerator Draws

/-- The loop that draws an atom the interface does not have yet. -/
def pushAtom (no_atoms : ℕ) (c_i_interface : List ℕ) : ℕ → Random (List ℕ)
  | 0 => failure
  | fuel + 1 => do
      let k := (← rand) % no_atoms + 1
      if k ∉ c_i_interface then pure (c_i_interface ++ [k])
      else pushAtom no_atoms c_i_interface fuel

/-- The loop over `no_interface_atoms`. -/
def drawInterface (fuel no_atoms : ℕ) : ℕ → List ℕ → Random (List ℕ)
  | 0, c_i_interface => pure c_i_interface
  | j + 1, c_i_interface => do
      let c_i_interface ← pushAtom no_atoms c_i_interface fuel
      drawInterface fuel no_atoms j c_i_interface

/-- The ID of an atom of a context. -/
def interfaceID (i a : ℕ) : ID := ⟨BitVec.ofNat 32 i ||| ID.MAINKIND_BELIEF, a⟩

/-- A round of the loop that stores the atoms of the interface. -/
def storeAtom (i : ℕ) (local_sig c_i_interface_table : BeliefTable) (a : ℕ) :
    Option BeliefTable := do
  let b ← local_sig.getByID (interfaceID i a)
  c_i_interface_table.storeWithID b (interfaceID i a)

def interfaceTable (i : ℕ) (local_sig : BeliefTable) (c_i_interface : List ℕ) :
    Option BeliefTable :=
  c_i_interface.foldlM (storeAtom i local_sig) BeliefTable.empty

/-- What `genInterface` does for a context. -/
def contextInterface (fuel no_atoms no_interface_atoms : ℕ) (sigma_vec : ℕ → Option BeliefTable)
    (i : ℕ) : Random (List ℕ × BeliefTable) := do
  let local_sig ← sigma_vec i
  let drawn ← drawInterface fuel no_atoms no_interface_atoms []
  let c_i_interface := drawn.mergeSort (fun a b => a ≤ b)
  let c_i_interface_table ← interfaceTable i local_sig c_i_interface
  pure (c_i_interface, c_i_interface_table)

/-- `genInterface`, for the contexts that are left. -/
def genInterface (fuel no_atoms no_interface_atoms : ℕ) (sigma_vec : ℕ → Option BeliefTable) :
    List ℕ → Random (List (List ℕ × BeliefTable))
  | [] => pure []
  | i :: is => do
      let c ← contextInterface fuel no_atoms no_interface_atoms sigma_vec i
      let rest ← genInterface fuel no_atoms no_interface_atoms sigma_vec is
      pure (c :: rest)

/-- Different atoms, as a source of random numbers up to `RAND_MAX` can name them. -/
structure IsInterface (RAND_MAX no_atoms size : ℕ) (c_i_interface : List ℕ) : Prop where
  length_eq : c_i_interface.length = size
  nodup : c_i_interface.Nodup
  range : ∀ a ∈ c_i_interface, 0 < a ∧ a ≤ no_atoms ∧ a ≤ RAND_MAX + 1

namespace IsInterface

variable {RAND_MAX no_atoms size : ℕ} {c_i_interface : List ℕ}

lemma nil : IsInterface RAND_MAX no_atoms 0 [] :=
  ⟨rfl, List.nodup_nil, fun _ h => absurd h List.not_mem_nil⟩

lemma perm {l : List ℕ} (h : IsInterface RAND_MAX no_atoms size c_i_interface)
    (hperm : l.Perm c_i_interface) : IsInterface RAND_MAX no_atoms size l where
  length_eq := hperm.length_eq.trans h.length_eq
  nodup := hperm.nodup_iff.2 h.nodup
  range a ha := h.range a (hperm.mem_iff.1 ha)

/-- A drawn atom that is new. -/
lemma push (h : IsInterface RAND_MAX no_atoms size c_i_interface) {d : ℕ} (hatoms : 0 < no_atoms)
    (hd : d ≤ RAND_MAX) (hnew : d % no_atoms + 1 ∉ c_i_interface) :
    IsInterface RAND_MAX no_atoms (size + 1) (c_i_interface ++ [d % no_atoms + 1]) where
  length_eq := by rw [List.length_append, h.length_eq, List.length_singleton]
  nodup := by
    rw [← List.concat_eq_append]
    exact h.nodup.concat hnew
  range a ha := by
    rcases List.mem_append.1 ha with ha | ha
    · exact h.range a ha
    · rw [List.mem_singleton.1 ha]
      have hlt := Nat.mod_lt d hatoms
      have hle := Nat.mod_le d no_atoms
      omega

/-- An interface is not larger than the numbers its atoms are taken from. -/
lemma size_le (h : IsInterface RAND_MAX no_atoms size c_i_interface) :
    size ≤ no_atoms ∧ size ≤ RAND_MAX + 1 := by
  have hle : c_i_interface.length ≤ (List.range' 1 (min no_atoms (RAND_MAX + 1))).length := by
    apply h.nodup.length_le_of_subset
    intro a ha
    obtain ⟨hpos, hatoms, hrand⟩ := h.range a ha
    rw [List.mem_range'_1]
    omega
  rw [h.length_eq, List.length_range'] at hle
  omega

/-- A draw that gives a new atom, as long as there is one. -/
lemma exists_new (h : IsInterface RAND_MAX no_atoms size c_i_interface)
    (hatoms : size < no_atoms) (hrand : size < RAND_MAX + 1) :
    ∃ d ≤ RAND_MAX, d % no_atoms + 1 ∉ c_i_interface := by
  by_contra hno
  push Not at hno
  have hle : (List.range' 1 (min no_atoms (RAND_MAX + 1))).length ≤ c_i_interface.length := by
    apply List.Nodup.length_le_of_subset List.nodup_range'
    intro a ha
    rw [List.mem_range'_1] at ha
    have hmem := hno (a - 1) (by omega)
    rw [Nat.mod_eq_of_lt (by omega), Nat.sub_add_cancel ha.1] at hmem
    exact hmem
  rw [h.length_eq, List.length_range'] at hle
  omega

end IsInterface

/-! ## Drawing atoms -/

section Drawing

variable {RAND_MAX no_atoms size : ℕ} {c_i_interface : List ℕ}

/-- A round of the loop draws an atom. -/
lemma isLoop_pushAtom : IsLoop (fun fuel _ => pushAtom no_atoms c_i_interface fuel)
    (fun _ _ => rand >>= fun d => pure (d % no_atoms + 1)) (fun k => k ∉ c_i_interface)
    (fun k => c_i_interface ++ [k]) := by
  intro fuel _
  simp only [bind_assoc, pure_bind]
  rfl

lemma rand_eq_draw : rand = (draw : Drawing ℕ ℕ) := by
  funext ds
  cases ds with
  | nil => rfl
  | cons d ds => rfl

lemma ends_rand (d : ℕ) : Ends (fun _ => rand) [d] d := by
  rw [rand_eq_draw]
  exact Ends.draw d

lemma neverStuck_rand : NeverStuck (· ≤ RAND_MAX) (fun _ => rand) (· ≤ RAND_MAX) := by
  rw [rand_eq_draw]
  refine NeverStuck.draw (d := 0) ?_
  exact Nat.zero_le RAND_MAX

lemma yields_rand : Yields (· ≤ RAND_MAX) rand (· ≤ RAND_MAX) := by
  rw [rand_eq_draw]
  exact Yields.draw

lemma yields_pushAtom (hatoms : 0 < no_atoms)
    (h : IsInterface RAND_MAX no_atoms size c_i_interface) (fuel : ℕ) :
    Yields (· ≤ RAND_MAX) (pushAtom no_atoms c_i_interface fuel)
      (IsInterface RAND_MAX no_atoms (size + 1)) := by
  induction fuel with
  | zero => exact Yields.failure
  | succ fuel ih =>
      refine Yields.bind yields_rand (fun d hd => ?_)
      by_cases hnew : d % no_atoms + 1 ∉ c_i_interface
      · simp only [if_pos hnew]
        exact Yields.pure (h.push hatoms hd hnew)
      · simp only [if_neg hnew]
        exact ih

/-- From any atoms that are fewer, one draw leads out of the loop. -/
lemma neverStuck_pushAtom (h : IsInterface RAND_MAX no_atoms size c_i_interface)
    (hatoms : size < no_atoms) (hrand : size < RAND_MAX + 1) :
    NeverStuck (· ≤ RAND_MAX) (fun fuel => pushAtom no_atoms c_i_interface fuel)
      (IsInterface RAND_MAX no_atoms (size + 1)) := by
  have hround : ∀ d ≤ RAND_MAX, d % no_atoms + 1 ∉ c_i_interface →
      IsInterface RAND_MAX no_atoms (size + 1) (c_i_interface ++ [d % no_atoms + 1]) :=
    fun d hd hnew => h.push (Nat.zero_lt_of_lt hatoms) hd hnew
  apply NeverStuck.loop isLoop_pushAtom (I := fun _ => True) (s := 0)
  · intro _ _
    rfl
  · intro _ _
    apply NeverStuck.bind neverStuck_rand
    intro d hd
    exact NeverStuck.pure ⟨hround d hd, fun _ => trivial⟩
  · intro _ _
    obtain ⟨d, hd, hnew⟩ := h.exists_new hatoms hrand
    have hends : Ends (fun _ => rand >>= fun d => pure (d % no_atoms + 1)) ([d] ++ [])
        (d % no_atoms + 1) := (ends_rand d).bind (Ends.pure _)
    refine ⟨[d], _, ?_, isLoop_pushAtom.ends_stop (s := 0) hends hnew, hround d hd hnew⟩
    intro d' hd'
    rw [List.mem_singleton.1 hd']
    exact hd
  · trivial

lemma yields_drawInterface (hatoms : 0 < no_atoms) (fuel j : ℕ)
    (h : IsInterface RAND_MAX no_atoms size c_i_interface) :
    Yields (· ≤ RAND_MAX) (drawInterface fuel no_atoms j c_i_interface)
      (IsInterface RAND_MAX no_atoms (size + j)) := by
  induction j generalizing size c_i_interface with
  | zero => exact Yields.pure h
  | succ j ih =>
      refine Yields.bind (yields_pushAtom hatoms h fuel) (fun l hl => ?_)
      rw [Nat.add_comm j 1, ← Nat.add_assoc]
      exact ih hl

lemma neverStuck_drawInterface {j : ℕ} (h : IsInterface RAND_MAX no_atoms size c_i_interface)
    (hatoms : size + j ≤ no_atoms) (hrand : size + j ≤ RAND_MAX + 1) :
    NeverStuck (· ≤ RAND_MAX) (fun fuel => drawInterface fuel no_atoms j c_i_interface)
      (IsInterface RAND_MAX no_atoms (size + j)) := by
  induction j generalizing size c_i_interface with
  | zero => exact NeverStuck.pure h
  | succ j ih =>
      apply NeverStuck.bind (neverStuck_pushAtom h (by omega) (by omega))
      intro l hl
      rw [Nat.add_comm j 1, ← Nat.add_assoc]
      exact ih hl (by omega) (by omega)

end Drawing

/-! ## Storing atoms -/

section Storing

variable {no_atoms i : ℕ}

/-- The kind of an ID is that of a belief while the context stays below the bits of the mark. -/
lemma isBelief_interfaceID (hi : i < 2 ^ 28) (a : ℕ) : (interfaceID i a).isBelief = true := by
  have hwidth : BitVec.ofNat 32 i = (BitVec.ofNat 28 i).setWidth 32 := by
    apply BitVec.eq_of_toNat_eq
    rw [BitVec.toNat_setWidth, BitVec.toNat_ofNat, BitVec.toNat_ofNat, Nat.mod_eq_of_lt hi]
  unfold ID.isBelief interfaceID
  rw [hwidth, BitVec.and_or_distrib_right, Belief.setWidth_and_of_zeros _ (by decide)]
  rfl

/-- The first context that does not. -/
lemma not_isBelief_interfaceID (a : ℕ) : ¬ (interfaceID (2 ^ 28) a).isBelief = true := by
  show ¬ ((BitVec.ofNat 32 (2 ^ 28) ||| ID.MAINKIND_BELIEF) &&& ID.MAINKIND_MASK ==
    ID.MAINKIND_BELIEF) = true
  decide

lemma getByID_interfaceID {local_sig : BeliefTable} (hi : i < 2 ^ 28)
    (hsig : genBeliefTable no_atoms i = some local_sig) {a : ℕ} (ha : a ≤ no_atoms) :
    local_sig.getByID (interfaceID i a) = some (Belief.ofContext i a (beliefName i a)) := by
  obtain ⟨t, ht, hbeliefs⟩ := genBeliefTable_eq no_atoms i
  obtain rfl : t = local_sig := Option.some.inj (ht.symm.trans hsig)
  have hmem : Belief.ofContext i a (beliefName i a) ∈ t.beliefs := by
    rw [hbeliefs]
    exact List.mem_map.2 ⟨a, List.mem_range.2 (by omega), rfl⟩
  exact BeliefTable.getByID_of_mem hmem (isBelief_interfaceID hi a)

/-- An atom as the table of an interface holds it. -/
def storedBelief (i a : ℕ) : Belief := ⟨a, (interfaceID i a).kind, beliefName i a⟩

/-- An atom that is new is stored. -/
lemma exists_storeAtom {local_sig t : BeliefTable} (hi : i < 2 ^ 28)
    (hsig : genBeliefTable no_atoms i = some local_sig) {a : ℕ} {done : List ℕ}
    (ha : a ≤ no_atoms) (hnew : a ∉ done) (hbeliefs : t.beliefs = done.map (storedBelief i))
    (hnext : t.nextAddress = 0) :
    ∃ t', storeAtom i local_sig t a = some t' ∧
      t'.beliefs = (done ++ [a]).map (storedBelief i) ∧ t'.nextAddress = 0 := by
  have haddress : a ∉ t.beliefs.map Belief.address := by
    rw [hbeliefs, List.map_map]
    intro hmem
    obtain ⟨a', ha', rfl⟩ := List.mem_map.1 hmem
    exact hnew ha'
  have htext : beliefName i a ∉ t.beliefs.map Belief.text := by
    rw [hbeliefs, List.map_map]
    intro hmem
    obtain ⟨a', ha', heq⟩ := List.mem_map.1 hmem
    rw [beliefName_injective i heq] at ha'
    exact hnew ha'
  obtain ⟨t', hstore, hbeliefs', hnext'⟩ := BeliefTable.exists_storeWithID
    (b := Belief.ofContext i a (beliefName i a)) (isBelief_interfaceID hi a)
    (beliefName_ne_nil i a) hnext haddress htext
  refine ⟨t', ?_, ?_, hnext'⟩
  · unfold storeAtom
    rw [getByID_interfaceID hi hsig ha]
    exact hstore
  · rw [hbeliefs', hbeliefs, List.map_append]
    rfl

/-- Different atoms of the signature are all stored. -/
lemma exists_interfaceTable {local_sig : BeliefTable} (hi : i < 2 ^ 28)
    (hsig : genBeliefTable no_atoms i = some local_sig) {c_i_interface : List ℕ}
    (hnodup : c_i_interface.Nodup) (hle : ∀ a ∈ c_i_interface, a ≤ no_atoms) :
    ∃ t, interfaceTable i local_sig c_i_interface = some t := by
  have hloop : ∀ (l done : List ℕ) (t : BeliefTable), (done ++ l).Nodup →
      (∀ a ∈ l, a ≤ no_atoms) → t.beliefs = done.map (storedBelief i) → t.nextAddress = 0 →
      ∃ t', l.foldlM (storeAtom i local_sig) t = some t' := by
    intro l
    induction l with
    | nil =>
        intro done t _ _ _ _
        exact ⟨t, rfl⟩
    | cons a l ih =>
        intro done t hnodup hle hbeliefs hnext
        have hnew : a ∉ done := by
          intro hmem
          exact (List.nodup_append'.1 hnodup).2.2 hmem List.mem_cons_self
        obtain ⟨t', hstore, hbeliefs', hnext'⟩ :=
          exists_storeAtom hi hsig (hle a List.mem_cons_self) hnew hbeliefs hnext
        rw [List.foldlM_cons, hstore]
        apply ih (done ++ [a]) t' _ _ hbeliefs' hnext'
        · rw [List.append_assoc]
          exact hnodup
        · intro a' ha'
          exact hle a' (List.mem_cons_of_mem a ha')
  exact hloop c_i_interface [] BeliefTable.empty hnodup hle rfl rfl

/-- A context that is too large stores nothing. -/
lemma interfaceTable_eq_none {local_sig : BeliefTable} {a : ℕ} {l : List ℕ} :
    interfaceTable (2 ^ 28) local_sig (a :: l) = none := by
  unfold interfaceTable
  rw [List.foldlM_cons]
  unfold storeAtom BeliefTable.getByID
  rw [if_neg (not_isBelief_interfaceID a)]
  rfl

end Storing

/-! ## All contexts -/

section Contexts

variable {RAND_MAX no_atoms no_interface_atoms : ℕ} {sigma_vec : ℕ → Option BeliefTable}

lemma yields_contextInterface (hatoms : 0 < no_atoms) (fuel i : ℕ) :
    Yields (· ≤ RAND_MAX) (contextInterface fuel no_atoms no_interface_atoms sigma_vec i)
      (fun c => IsInterface RAND_MAX no_atoms no_interface_atoms c.1 ∧
        (0 < no_interface_atoms → i ≠ 2 ^ 28)) := by
  refine Yields.bind (Yields.lift (fun _ _ => trivial)) (fun local_sig _ => ?_)
  refine Yields.bind (yields_drawInterface hatoms fuel no_interface_atoms IsInterface.nil)
    (fun drawn hdrawn => ?_)
  rw [Nat.zero_add] at hdrawn
  have hsorted := hdrawn.perm (List.mergeSort_perm drawn (fun a b => decide (a ≤ b)))
  refine Yields.bind (Yields.lift (fun t ht => ?_)) (fun t ht => Yields.pure ⟨hsorted, ht⟩)
  rintro hpos rfl
  cases hcases : drawn.mergeSort (fun a b => decide (a ≤ b)) with
  | nil =>
      rw [← hsorted.length_eq, hcases] at hpos
      exact lt_irrefl 0 hpos
  | cons a l =>
      rw [hcases, interfaceTable_eq_none] at ht
      exact Option.not_mem_none t ht

lemma yields_genInterface (hatoms : 0 < no_atoms) (fuel : ℕ) (is : List ℕ) :
    Yields (· ≤ RAND_MAX) (genInterface fuel no_atoms no_interface_atoms sigma_vec is)
      (fun out => out.length = is.length ∧
        (∀ c ∈ out, IsInterface RAND_MAX no_atoms no_interface_atoms c.1) ∧
        (0 < no_interface_atoms → 2 ^ 28 ∉ is)) := by
  induction is with
  | nil => exact Yields.pure ⟨rfl, fun _ h => absurd h List.not_mem_nil, fun _ => List.not_mem_nil⟩
  | cons i is ih =>
      refine Yields.bind (yields_contextInterface hatoms fuel i) (fun c hc => ?_)
      refine Yields.bind ih (fun rest hrest => Yields.pure ⟨?_, ?_, ?_⟩)
      · rw [List.length_cons, List.length_cons, hrest.1]
      · exact List.forall_mem_cons.2 ⟨hc.1, hrest.2.1⟩
      · intro hpos hmem
        rcases List.mem_cons.1 hmem with heq | hmem
        · exact hc.2 hpos heq.symm
        · exact hrest.2.2 hpos hmem

lemma neverStuck_contextInterface (hatoms : no_interface_atoms ≤ no_atoms)
    (hrand : no_interface_atoms ≤ RAND_MAX + 1) {i : ℕ} (hi : i < 2 ^ 28)
    (hsig : sigma_vec i = genBeliefTable no_atoms i) :
    NeverStuck (· ≤ RAND_MAX)
      (fun fuel => contextInterface fuel no_atoms no_interface_atoms sigma_vec i)
      (fun _ => True) := by
  obtain ⟨local_sig, hsome, -⟩ := genBeliefTable_eq no_atoms i
  apply NeverStuck.bind (NeverStuck.lift (hsig.trans hsome) (P := (· = local_sig)) rfl)
  rintro _ rfl
  apply NeverStuck.bind (neverStuck_drawInterface IsInterface.nil
    ((Nat.zero_add _).le.trans hatoms) ((Nat.zero_add _).le.trans hrand))
  intro drawn hdrawn
  have hsorted := hdrawn.perm (List.mergeSort_perm drawn (fun a b => decide (a ≤ b)))
  obtain ⟨t, ht⟩ := exists_interfaceTable hi hsome hsorted.nodup
    (fun a ha => (hsorted.range a ha).2.1)
  apply NeverStuck.bind (NeverStuck.lift ht trivial (P := fun _ => True))
  intro t _
  exact NeverStuck.pure trivial

/-- Enough atoms, enough random numbers and contexts that fit into a kind: the interfaces of all
contexts can be drawn to the end. -/
lemma neverStuck_genInterface (hatoms : no_interface_atoms ≤ no_atoms)
    (hrand : no_interface_atoms ≤ RAND_MAX + 1) {is : List ℕ}
    (his : ∀ i ∈ is, i < 2 ^ 28 ∧ sigma_vec i = genBeliefTable no_atoms i) :
    NeverStuck (· ≤ RAND_MAX)
      (fun fuel => genInterface fuel no_atoms no_interface_atoms sigma_vec is)
      (fun _ => True) := by
  induction is with
  | nil => exact NeverStuck.pure trivial
  | cons i is ih =>
      obtain ⟨hi, hrest⟩ := List.forall_mem_cons.1 his
      apply NeverStuck.bind (neverStuck_contextInterface hatoms hrand hi.1 hi.2)
      intro c _
      apply NeverStuck.bind (ih hrest)
      intro rest _
      exact NeverStuck.pure trivial

end Contexts

end Dmcs
