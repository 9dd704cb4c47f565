import Mathlib.Tactic.IntervalCases
import Dmcs.Mcs.Equilibrium

/-!
# Acyclic systems

When no context depends on itself, no request reaches a cycle breaker, and with return plans that
keep all bits every answer defines the whole blocks of the contexts that can be reached.  So the
positions fit at every join, also where sub-systems are shared, and the answers are exactly the
equilibria.

The history of a request never contains the context it goes to, so `Carries` has only normal places,
and its positions are all bits of the reachable blocks (`reachableBits`).  Two neighbours that reach
the same context carry the whole block of it, so that the positions fit.  No bridge literal is over
its own context.  The rest is an instance of `mem_answers_iff`, and what is sent is not a projection
but the equilibrium itself, since the return plans keep all bits.
-/

namespace Dmcs

open NewBeliefState

variable {bso : BeliefStateOffset}

namespace System

variable (sys : System bso)

/-- No context depends on itself. -/
def Acyclic : Prop := ∀ c, ¬ Relation.TransGen sys.Imports c c

/-- The bits of the contexts that can be reached. -/
def reachableBits (c : ℕ) : Set ℕ :=
  {i | sys.Reaches c (bso.blockOf i) ∧ i ∈ sys.localBits (bso.blockOf i)}

variable {sys} {c : ℕ}

lemma Acyclic.ne_of_imports (h : sys.Acyclic) {d : ℕ} (hcd : sys.Imports c d) : d ≠ c :=
  fun heq => h c (.single (heq ▸ hcd))

lemma Acyclic.noOwnImports (h : sys.Acyclic) : sys.NoOwnImports c :=
  fun _ _ hd => h.ne_of_imports hd rfl

/-- The bits of the reachable contexts are the own ones and those of the neighbours. -/
lemma Acyclic.reachableBits_eq (h : sys.Acyclic) (hall : ∀ i < bso.width, i ∈ sys.keptBits)
    (hc : c < bso.noBlocks) :
    sys.reachableBits c =
      (sys.localBits c ∪ ⋃ d ∈ sys.neighborIds c, sys.reachableBits d) ∩ sys.keptBits := by
  ext i
  constructor
  · rintro ⟨hreach, hlocal⟩
    refine ⟨?_, hall i (lt_width_of_mem_localBits (Reaches.lt hc hreach) hlocal)⟩
    rcases Relation.ReflTransGen.cases_head hreach with heq | ⟨d, hcd, hreach⟩
    · exact Or.inl (heq ▸ hlocal)
    · exact Or.inr (Set.mem_iUnion₂.mpr
        ⟨d, mem_neighborIds.mpr ⟨h.ne_of_imports hcd, hcd⟩, hreach, hlocal⟩)
  · rintro ⟨hlocal | hi, -⟩
    · change sys.Reaches c (bso.blockOf i) ∧ i ∈ sys.localBits (bso.blockOf i)
      rw [blockOf_of_mem_localBits hlocal]
      exact ⟨.refl, hlocal⟩
    · obtain ⟨d, hd, hreach, hlocal⟩ := Set.mem_iUnion₂.mp hi
      exact ⟨.head (mem_neighborIds.mp hd).2 hreach, hlocal⟩

/-- Every answer carries the whole blocks of the contexts that can be reached. -/
lemma Acyclic.carries (h : sys.Acyclic) (hall : ∀ i < bso.width, i ∈ sys.keptBits)
    (hc : c < bso.noBlocks) : sys.Carries ∅ c (sys.reachableBits c) := by
  -- the contexts of a history depend on the context asked, so it is never one of them
  refine History.induction (Finset.range bso.noBlocks)
    (motive := fun history c => (∀ x ∈ history, Relation.TransGen sys.Imports x c) →
      sys.Carries history c (sys.reachableBits c)) ?_ ∅ (Finset.mem_range.mpr hc) (by simp)
  intro history c hc ih hhistory
  have hnot : c ∉ history := fun hmem => h c (hhistory c hmem)
  rw [h.reachableBits_eq hall (Finset.mem_range.mp hc)]
  refine .normal hnot _ (fun d hd => ?_) (fun d _ e _ i hdef hi => ⟨?_, hi.2⟩)
  · have hcd := (mem_neighborIds.mp hd).2
    refine ih hnot d (Finset.mem_range.mpr hcd.lt) (fun x hx => ?_)
    rcases Finset.mem_insert.mp hx with rfl | hx
    · exact .single hcd
    · exact (hhistory x hx).tail hcd
  · have hreach := hdef.1
    rwa [bso.blockOf_startingOffset] at hreach

/-- **Acyclic systems.**  With return plans that keep all bits, the request `(0, 0)` to a context is
answered, and the states sent are the equilibria of the sub-system it can reach. -/
theorem mem_answers_iff_isEquilibrium [sys.StrictAddresses] (hacyclic : sys.Acyclic)
    (hall : sys.interface = ⟨BitVec.allOnes _, BitVec.allOnes _⟩) {r : ℕ} (hr : r < bso.noBlocks)
    (parent : ℕ) :
    (∃ sent, sys.Answers ∅ parent r sent) ∧
      ∀ sent, sys.Answers ∅ parent r sent → ∀ S, S ∈ sent ↔ sys.IsEquilibrium r S := by
  have hbits : ∀ i, sys.interface.status_bit.getLsbD i = decide (i < bso.width) ∧
      sys.interface.value_bit.getLsbD i = decide (i < bso.width) := by
    intro i
    rw [hall]
    simp
  have hkept : ∀ i < bso.width, i ∈ sys.keptBits :=
    fun i hi => (hbits i).1.trans (decide_eq_true hi)
  have hkeep : sys.KeepsImports := by
    refine ⟨⟨fun i => (hbits i).2.trans (hbits i).1.symm, fun c hc => ?_⟩, fun c _ b hb => ?_⟩
    · exact hkept _ (bso.startingOffset_add_lt hc (Nat.zero_le _))
    · exact hkept _ (lt_width_of_mem_localBits (known_of_mem_bodyBeliefs hb).1
        (globalAddress_mem_localBits hb))
  have hinter : ∀ E : NewBeliefState bso.width, E.inter sys.interface = E := by
    intro E
    refine ext_bits (fun i => ?_) (fun i => ?_)
    · rw [inter_status, (hbits i).1]
      cases hi : E.status_bit.getLsbD i with
      | true => simp [status_lt hi]
      | false => rfl
    · rw [inter_value, (hbits i).2]
      cases hi : E.value_bit.getLsbD i with
      | true => simp [value_lt hi]
      | false => rfl
  refine ⟨exists_answers ∅ parent hr, fun sent h S => ?_⟩
  rw [mem_answers_iff hkeep hr (hacyclic.carries hkept hr) hacyclic.noOwnImports h]
  constructor
  · rintro ⟨E, hE, rfl⟩
    rwa [hinter]
  · exact fun hS => ⟨S, hS, (hinter S).symm⟩

/-! ## A diamond -/

/-- Four contexts with up to two beliefs each. -/
def fourBlocks : BeliefStateOffset := .ofSucc 3 1

/-- A bridge rule with one body literal, between the first beliefs of two contexts. -/
def firstBelief (c d : ℕ) (naf : Bool) : BridgeRule := ⟨⟨c, 1⟩, [⟨⟨d, 1⟩, naf⟩], by simp⟩

/-- Context `0` imports from `1` and `2`, and both of these from `3`. -/
def diamondRules : List BridgeRule :=
  [firstBelief 0 1 false, firstBelief 0 2 false, firstBelief 1 3 false, firstBelief 2 3 true]

/-- Context `3` may believe its belief or not, the others believe theirs exactly when a bridge rule
derives it. -/
def diamond : System fourBlocks :=
  ofRules [1] diamondRules
    (fun c heads =>
      if c = 3 then [fun _ => true, fun _ => false]
      else [fun _ => decide (fourBlocks.startingOffset c + 1 ∈ heads)])
    ⟨BitVec.allOnes _, BitVec.allOnes _⟩ (by decide) (by decide)

instance : diamond.StrictAddresses := strictAddresses_ofRules (by decide)

lemma diamond_acyclic : diamond.Acyclic := by
  have hup : ∀ r ∈ diamondRules, ∀ l ∈ r.body, r.head.contextId < l.belief.contextId := by decide
  have hlt : ∀ {c d : ℕ}, Relation.TransGen diamond.Imports c d → c < d := by
    intro c d h
    have hstep : ∀ {c d : ℕ}, diamond.Imports c d → c < d := by
      intro c d h
      obtain ⟨r, hr, rfl, l, hl, rfl⟩ := exists_rule_of_imports h
      exact hup r hr l hl
    induction h with
    | single h => exact hstep h
    | tail _ h ih => exact ih.trans (hstep h)
  exact fun c h => absurd (hlt h) (lt_irrefl c)

/-- The equilibrium of the diamond in which context `3` believes its belief. -/
def diamondState : NewBeliefState fourBlocks.width :=
  ((localState fourBlocks 0 [1] (fun _ => true)).union
    (localState fourBlocks 1 [1] (fun _ => true))).union
    ((localState fourBlocks 2 [1] (fun _ => false)).union
      (localState fourBlocks 3 [1] (fun _ => true)))

lemma diamondState_isEquilibrium : diamond.IsEquilibrium 0 diamondState := by
  have hreach : ∀ c < 4, diamond.Reaches 0 c := by
    have h01 : diamond.Imports 0 1 := ⟨⟨1, 1⟩, by decide, rfl⟩
    have h02 : diamond.Imports 0 2 := ⟨⟨2, 1⟩, by decide, rfl⟩
    have h13 : diamond.Imports 1 3 := ⟨⟨3, 1⟩, by decide, rfl⟩
    intro c hc
    interval_cases c
    · exact .refl
    · exact .single h01
    · exact .single h02
    · exact .head h01 (.single h13)
  refine ⟨fun c hc => ?_, fun i hi => ?_⟩
  · have hlt : c < 4 := Reaches.lt (by decide) hc
    interval_cases c <;> decide +kernel
  · have hw : i < fourBlocks.width := hi.elim status_lt value_lt
    exact hreach _ (fourBlocks.blockOf_lt hw)

/-- The diamond's equilibrium is sent. -/
theorem mem_answers_iff_isEquilibrium_diamond :
    ∃ sent, diamond.Answers ∅ 1023 0 sent ∧ diamondState ∈ sent := by
  obtain ⟨⟨sent, h⟩, hsent⟩ :=
    mem_answers_iff_isEquilibrium diamond_acyclic rfl (by decide : 0 < fourBlocks.noBlocks) 1023
  exact ⟨sent, h, (hsent sent h _).mpr diamondState_isEquilibrium⟩

end System

end Dmcs
