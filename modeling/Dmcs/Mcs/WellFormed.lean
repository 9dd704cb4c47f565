import Dmcs.Mcs.Guess
import Dmcs.Mcs.Join

/-!
# Well-formed belief states

The two bit vectors of a belief state have to stay in step: a value bit needs a status bit, an
epsilon bit that has a status is `TRUE`, and a block whose epsilon bit has no status has no status
at all.  `WellFormed` is this invariant, and the lemmas below say that every operation of the
contexts keeps it: `|`, `&` with an interface of a return plan, `combine` and the guesses.

The guesses are the exception: `init` writes the beliefs of an input signature without looking at
their addresses, so that the address `0` overwrites the epsilon bit and an address beyond the block
writes into another block.  `AddressesInBlock` excludes this.

## Where it comes from

The empty state has the invariant, and so has a state to which the epsilon bit of a block, or a
belief of a block that has its epsilon bit, is added.  That is how the local models of the solver,
the guesses and the interfaces are made.  An interface (`parseInterface`) is more than well-formed:
all that has a status is `TRUE`, and no epsilon bit is missing, so that `&` with it cuts beliefs out
of blocks but never a block's epsilon bit.

The invariant is stated for each operation on its own.  Runs of a whole system, in which states are
handed from one thread to another, are in `BeliefStateRuns`.
-/

namespace Dmcs

open BitScan NewContext

variable {bso : BeliefStateOffset}

/-- The representation invariant of a belief state. -/
structure WellFormed (bso : BeliefStateOffset) (s : NewBeliefState bso.width) : Prop where
  value_le : ∀ i, s.value_bit.getLsbD i = true → s.status_bit.getLsbD i = true
  epsilon_true : ∀ c, s.status_bit.getLsbD (bso.startingOffset c) = true →
    s.value_bit.getLsbD (bso.startingOffset c) = true
  block_epsilon : ∀ i, s.status_bit.getLsbD i = true →
    s.status_bit.getLsbD (bso.startingOffset (bso.blockOf i)) = true

/-- The beliefs of every input signature of a plan have addresses inside their block. -/
def AddressesInBlock (bso : BeliefStateOffset) (plan : List (ℕ × List ℕ)) : Prop :=
  ∀ entry ∈ plan, ∀ address ∈ entry.2, 1 ≤ address ∧ address ≤ bso.sizeBs

/-- The interface the return-plan parser builds for one parent: all epsilon bits, and the listed
beliefs of every context. -/
def parseInterface (bso : BeliefStateOffset) (entries : List (ℕ × List ℕ)) :
    NewBeliefState bso.width :=
  entries.foldl (fun g entry =>
      entry.2.foldl (fun g address => g.set (bso.startingOffset entry.1 + address) .dmcsTrue) g)
    ((NewBeliefState.empty bso.width).setEpsilonAll bso)

namespace WellFormed

variable {s t u : NewBeliefState bso.width}

lemma empty : WellFormed bso (NewBeliefState.empty bso.width) :=
  ⟨by simp, by simp, by simp⟩

lemma union (hs : WellFormed bso s) (ht : WellFormed bso t) : WellFormed bso (s.union t) := by
  refine ⟨fun i hi => ?_, fun c hc => ?_, fun i hi => ?_⟩
  · rw [NewBeliefState.union_value, Bool.or_eq_true] at hi
    rw [NewBeliefState.union_status, Bool.or_eq_true]
    exact hi.imp (hs.value_le i) (ht.value_le i)
  · rw [NewBeliefState.union_status, Bool.or_eq_true] at hc
    rw [NewBeliefState.union_value, Bool.or_eq_true]
    exact hc.imp (hs.epsilon_true c) (ht.epsilon_true c)
  · rw [NewBeliefState.union_status, Bool.or_eq_true] at hi ⊢
    exact hi.imp (hs.block_epsilon i) (ht.block_epsilon i)

/-- An interface: every status is `TRUE` and no epsilon bit of a block is missing. -/
structure Interface (bso : BeliefStateOffset) (s : NewBeliefState bso.width) : Prop where
  value_eq : ∀ i, s.value_bit.getLsbD i = s.status_bit.getLsbD i
  epsilon : ∀ c < bso.noBlocks, s.status_bit.getLsbD (bso.startingOffset c) = true

lemma inter (hs : WellFormed bso s) (ht : Interface bso t) : WellFormed bso (s.inter t) := by
  refine ⟨fun i hi => ?_, fun c hc => ?_, fun i hi => ?_⟩
  · rw [NewBeliefState.inter_value, Bool.and_eq_true] at hi
    rw [NewBeliefState.inter_status, Bool.and_eq_true]
    exact ⟨hs.value_le i hi.1, ht.value_eq i ▸ hi.2⟩
  · rw [NewBeliefState.inter_status, Bool.and_eq_true] at hc
    rw [NewBeliefState.inter_value, Bool.and_eq_true]
    exact ⟨hs.epsilon_true c hc.1, (ht.value_eq _).trans hc.2⟩
  · rw [NewBeliefState.inter_status, Bool.and_eq_true] at hi ⊢
    have hblock := bso.blockOf_lt (NewBeliefState.status_lt hi.1)
    exact ⟨hs.block_epsilon i hi.1, ht.epsilon _ hblock⟩

lemma masked_startingOffset (c : ℕ) : NewBeliefState.Masked bso (bso.startingOffset c) := by
  rw [NewBeliefState.Masked, bso.startingOffset_mod]
  exact bso.sizeBs_pos

lemma combine (hs : WellFormed bso s) (ht : WellFormed bso t) (h : s.combine t = some u) :
    WellFormed bso u := by
  obtain ⟨-, hstatus, hvalue⟩ := (NewBeliefState.combine_eq_some_iff s t u).mp h
  have lt_of_value : ∀ i, u.value_bit.getLsbD i = true → i < bso.width := by
    intro i hi
    by_contra hw
    simp [BitVec.getLsbD_of_ge _ _ (not_lt.mp hw)] at hi
  refine ⟨fun i hi => ?_, fun c hc => ?_, fun i hi => ?_⟩
  · have hw := lt_of_value i hi
    rw [hvalue i hw, Bool.or_eq_true, Bool.and_eq_true] at hi
    rw [hstatus i hw, Bool.or_eq_true, Bool.and_eq_true]
    exact hi.imp (hs.value_le i) (fun h => ⟨ht.value_le i h.1, h.2⟩)
  · have hw := NewBeliefState.status_lt hc
    rw [hstatus _ hw, Bool.or_eq_true, Bool.and_eq_true] at hc
    rw [hvalue _ hw, Bool.or_eq_true, Bool.and_eq_true]
    exact hc.imp (hs.epsilon_true c) (fun h => ⟨ht.epsilon_true c h.1, h.2⟩)
  · have hw := NewBeliefState.status_lt hi
    have heps : bso.startingOffset (bso.blockOf i) < bso.width := by
      have := bso.startingOffset_blockOf i
      omega
    rw [hstatus i hw, Bool.or_eq_true, Bool.and_eq_true] at hi
    rw [hstatus _ heps, Bool.or_eq_true, Bool.and_eq_true]
    refine hi.imp (hs.block_epsilon i) (fun h => ⟨ht.block_epsilon i h.1, ?_⟩)
    -- a copied bit comes from a block copied as a whole, its epsilon bit included
    obtain ⟨h1, h2, -⟩ := of_decide_eq_true h.2
    refine decide_eq_true ⟨?_, ?_, masked_startingOffset _⟩
    · rwa [bso.blockOf_startingOffset]
    · rwa [bso.blockOf_startingOffset]

lemma joinOne {run : List (NewBeliefState bso.width)} (hrun : ∀ b ∈ run, WellFormed bso b)
    (h : StreamingJoiner.joinOne run = some u) : WellFormed bso u := by
  have hfold : ∀ (run : List (NewBeliefState bso.width)) (b : NewBeliefState bso.width),
      WellFormed bso b → (∀ b ∈ run, WellFormed bso b) →
        run.foldlM NewBeliefState.combine b = some u → WellFormed bso u := by
    intro run
    induction run with
    | nil =>
        intro b hb _ h
        rw [List.foldlM_nil] at h
        exact Option.some_injective _ h ▸ hb
    | cons b' run ih =>
        intro b hb hrun h
        rw [List.foldlM_cons] at h
        obtain ⟨v, hv, hrest⟩ := Option.bind_eq_some_iff.mp h
        exact ih v (hb.combine (hrun b' (by simp)) hv) (fun x hx => hrun x (by simp [hx])) hrest
  cases run with
  | nil => simp [StreamingJoiner.joinOne] at h
  | cons b run => exact hfold run b (hrun b (by simp)) (fun x hx => hrun x (by simp [hx])) h

/-- Writing a belief into a block that is present. -/
lemma set (hs : WellFormed bso s) {pos : ℕ} (hbelief : isBeliefBit bso pos = true)
    (heps : pos < bso.width → s.status_bit.getLsbD (bso.startingOffset (bso.blockOf pos)) = true)
    {v : TruthVal} (hv : v ≠ .dmcsUndef) : WellFormed bso (s.set pos v) := by
  have hne : ∀ c, bso.startingOffset c ≠ pos := by
    rintro c rfl
    simp [isBeliefBit, bso.startingOffset_mod] at hbelief
  refine ⟨fun i hi => ?_, fun c hc => ?_, fun i hi => ?_⟩
  · rw [NewBeliefState.set_value] at hi
    rw [NewBeliefState.set_status]
    by_cases h : i = pos ∧ i < bso.width
    · rw [if_pos h]
      exact decide_eq_true hv
    · rw [if_neg h] at hi ⊢
      exact hs.value_le i hi
  · rw [NewBeliefState.set_status, if_neg (fun h => hne c h.1)] at hc
    rw [NewBeliefState.set_value, if_neg (fun h => hne c h.1)]
    exact hs.epsilon_true c hc
  · rw [NewBeliefState.set_status] at hi
    rw [NewBeliefState.set_status, if_neg (fun h => hne _ h.1)]
    by_cases h : i = pos ∧ i < bso.width
    · obtain ⟨rfl, hw⟩ := h
      exact heps hw
    · rw [if_neg h] at hi
      exact hs.block_epsilon i hi

lemma setEpsilon (hs : WellFormed bso s) (c : ℕ) : WellFormed bso (s.setEpsilon bso c) := by
  refine ⟨fun i hi => ?_, fun d hd => ?_, fun i hi => ?_⟩
  · rw [NewBeliefState.setEpsilon_value] at hi
    rw [NewBeliefState.setEpsilon_status]
    split
    · rfl
    · rename_i h
      rw [if_neg h] at hi
      exact hs.value_le i hi
  · rw [NewBeliefState.setEpsilon_status] at hd
    rw [NewBeliefState.setEpsilon_value]
    split
    · rfl
    · rename_i h
      rw [if_neg h] at hd
      exact hs.epsilon_true d hd
  · rw [NewBeliefState.setEpsilon_status] at hi
    rw [NewBeliefState.setEpsilon_status]
    by_cases h : i = bso.startingOffset c ∧ i < bso.width
    · obtain ⟨rfl, hw⟩ := h
      rw [bso.blockOf_startingOffset, if_pos ⟨rfl, hw⟩]
    · rw [if_neg h] at hi
      split
      · rfl
      · exact hs.block_epsilon i hi

/-! ## Interfaces -/

lemma interface_empty :
    Interface bso ((NewBeliefState.empty bso.width).setEpsilonAll bso) := by
  have key : ∀ (ids : List ℕ) (g : NewBeliefState bso.width),
      (∀ i, g.value_bit.getLsbD i = g.status_bit.getLsbD i) →
      (∀ i, (ids.foldl (fun g c => g.setEpsilon bso c) g).value_bit.getLsbD i =
        (ids.foldl (fun g c => g.setEpsilon bso c) g).status_bit.getLsbD i) ∧
      ∀ c < bso.noBlocks, (c ∈ ids ∨ g.status_bit.getLsbD (bso.startingOffset c) = true) →
        (ids.foldl (fun g c => g.setEpsilon bso c) g).status_bit.getLsbD
          (bso.startingOffset c) = true := by
    intro ids
    induction ids with
    | nil =>
        intro g hg
        exact ⟨hg, fun c _ h => h.resolve_left (by simp)⟩
    | cons d ids ih =>
        intro g hg
        obtain ⟨h1, h2⟩ := ih (g.setEpsilon bso d) (fun i => by
          rw [NewBeliefState.setEpsilon_value, NewBeliefState.setEpsilon_status, hg])
        refine ⟨h1, fun c hc hmem => h2 c hc ?_⟩
        rw [NewBeliefState.setEpsilon_status]
        have hw := bso.startingOffset_add_lt hc (Nat.zero_le _)
        rcases hmem with hmem | hmem
        · rcases List.mem_cons.mp hmem with rfl | hmem
          · exact Or.inr (if_pos ⟨rfl, hw⟩)
          · exact Or.inl hmem
        · exact Or.inr (by split <;> simp [hmem])
  obtain ⟨h1, h2⟩ := key (List.range bso.noBlocks) (NewBeliefState.empty bso.width) (by simp)
  exact ⟨h1, fun c hc => h2 c hc (Or.inl (List.mem_range.mpr hc))⟩

lemma Interface.set {g : NewBeliefState bso.width} (hg : Interface bso g) (pos : ℕ) :
    Interface bso (g.set pos .dmcsTrue) := by
  refine ⟨fun i => ?_, fun c hc => ?_⟩
  · rw [NewBeliefState.set_value, NewBeliefState.set_status, hg.value_eq]
    simp
  · rw [NewBeliefState.set_status]
    split
    · simp
    · exact hg.epsilon c hc

lemma Interface.foldl_set {β : Type*} (f : β → ℕ) (l : List β) {g : NewBeliefState bso.width}
    (hg : Interface bso g) : Interface bso (l.foldl (fun g x => g.set (f x) .dmcsTrue) g) := by
  induction l generalizing g with
  | nil => exact hg
  | cons x l ih => exact ih (hg.set _)

/-- What the return-plan parser builds is an interface, whatever addresses the plan lists. -/
lemma interface_parseInterface (entries : List (ℕ × List ℕ)) :
    Interface bso (parseInterface bso entries) := by
  rw [parseInterface]
  generalize hg : (NewBeliefState.empty bso.width).setEpsilonAll bso = g
  have hint : Interface bso g := hg ▸ interface_empty
  clear hg
  induction entries generalizing g with
  | nil => exact hint
  | cons e entries ih => exact ih _ (hint.foldl_set _ _)

/-! ## Guesses -/

/-- `init` builds well-formed states from addresses inside their blocks. -/
lemma initGuess {v : TruthVal} (hv : v ≠ .dmcsUndef) {plan : List (ℕ × List ℕ)}
    (hplan : AddressesInBlock bso plan) : WellFormed bso (NewContext.initGuess bso v plan) := by
  have hentry : ∀ (c : ℕ) (as : List ℕ), (∀ a ∈ as, 1 ≤ a ∧ a ≤ bso.sizeBs) →
      ∀ g : NewBeliefState bso.width, WellFormed bso g →
        (bso.startingOffset c < bso.width →
          g.status_bit.getLsbD (bso.startingOffset c) = true) →
        WellFormed bso (as.foldl (fun g a => g.set (bso.startingOffset c + a) v) g) := by
    intro c as has
    induction as with
    | nil => exact fun g hg _ => hg
    | cons a as ih =>
        intro g hg heps
        obtain ⟨h1, h2⟩ := has a (by simp)
        refine ih (fun x hx => has x (by simp [hx])) _ (hg.set ?_ ?_ hv) ?_
        · rw [isBeliefBit, bso.add_mod h2]
          exact decide_eq_true (by omega)
        · intro hw
          rw [bso.blockOf_add h2]
          exact heps (by omega)
        · intro hw
          rw [NewBeliefState.set_status, if_neg (by omega)]
          exact heps hw
  rw [NewContext.initGuess]
  generalize hg : NewBeliefState.empty bso.width = g
  have hwf : WellFormed bso g := hg ▸ WellFormed.empty
  clear hg
  induction plan generalizing g with
  | nil => exact hwf
  | cons e plan ih =>
      refine ih (fun x hx => hplan x (by simp [hx])) _
        (hentry e.1 e.2 (hplan e (by simp)) _ (hwf.setEpsilon e.1) (fun hw => ?_))
      rw [NewBeliefState.setEpsilon_status]
      exact if_pos ⟨rfl, hw⟩

/-- Every guess of a plan with addresses inside their blocks is well-formed. -/
lemma guessAt {plan : List (ℕ × List ℕ)} (hplan : AddressesInBlock bso plan) (k : ℕ) :
    WellFormed bso ((GuessSpace.ofPlan bso plan).guessAt k) := by
  have hbits : ∀ b ∈ (GuessSpace.ofPlan bso plan).bits, isBeliefBit bso b = true ∧
      (NewContext.initGuess bso .dmcsFalse plan).status_bit.getLsbD
        (bso.startingOffset (bso.blockOf b)) = true := by
    intro b hb
    obtain ⟨htrue, hbelief⟩ := (GuessSpace.ofPlan bso plan).mem_bits.mp hb
    rw [NewBeliefState.trueBits_getLsbD, Bool.and_eq_true] at htrue
    have hw := NewBeliefState.status_lt htrue.1
    obtain ⟨-, hpos⟩ := (initGuess_status _ (by simp) plan b).mp htrue.1
    exact ⟨hbelief, (WellFormed.initGuess (by simp) hplan).block_epsilon b
      ((initGuess_status _ (by simp) plan b).mpr ⟨hw, hpos⟩)⟩
  have hwrite : ∀ (bs : List ℕ) (g : NewBeliefState bso.width) (k : ℕ), WellFormed bso g →
      (∀ b ∈ bs, isBeliefBit bso b = true ∧
        g.status_bit.getLsbD (bso.startingOffset (bso.blockOf b)) = true) →
      WellFormed bso (writeGuess g bs k) := by
    intro bs
    induction bs with
    | nil => exact fun g k hg _ => hg
    | cons b bs ih =>
        intro g k hg hbs
        have hdef : (if k % 2 = 1 then TruthVal.dmcsTrue else .dmcsFalse) ≠ .dmcsUndef := by
          split <;> simp
        refine ih _ _ (hg.set (hbs b (by simp)).1 (fun _ => (hbs b (by simp)).2) hdef) ?_
        intro b' hb'
        refine ⟨(hbs b' (by simp [hb'])).1, ?_⟩
        rw [NewBeliefState.set_status]
        split
        · exact decide_eq_true hdef
        · exact (hbs b' (by simp [hb'])).2
  exact hwrite _ _ k (WellFormed.initGuess (by simp) hplan) hbits

end WellFormed

end Dmcs
