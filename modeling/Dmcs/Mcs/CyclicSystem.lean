import Mathlib.Tactic.IntervalCases
import Dmcs.Mcs.Equilibrium
import Dmcs.Mcs.JoinedAnswers

/-!
# Systems with cycles

The generated return plans keep, besides the epsilon bits and the block of the root, the beliefs
some bridge rule imports (`newMinV`).  A cycle breaker guesses the input signature of its own
context only, so a guessed block has fewer beliefs than the real one whenever some other context
imports a further belief of it.  `consistent_with` compares the beliefs both have, but `combine`
compares whole blocks: where a guessed and a real block meet in a join, every combination fails.

A bridge literal over the context itself is evaluated on an input that may not hold the context's
own block, so it can be right in the equilibrium and wrong in the input.

`answersEquilibria_iff` says that these are the only two ways in which the root can miss, and when
they matter.  `sharedNeighbor` is a system in which an equilibrium is lost, and `ownBelief` one in
which a state is sent that belongs to none.

## Four systems

* `ring`: two contexts that import from each other.  The positions fit, and the answers are the
  projections of the equilibria.
* `guarded`: a bridge literal over the own context that is never reached, because the literal in
  front of it does not hold.  The answers are right all the same, so the condition must not simply
  exclude such literals.
* `sharedNeighbor`: the root asks a context that asks the root and a third context, and both import
  beliefs of the third one.  Its guessed block has fewer beliefs than the real one, and no join
  succeeds.
* `ownBelief`: a rule whose body is a belief of its own context.  The input does not have it, so a
  state is sent although there is no equilibrium.
-/

namespace Dmcs

open NewBeliefState NewContext History

variable {bso : BeliefStateOffset}

namespace System

variable (sys : System bso)

/-- `new_minV`: `init` switches on all epsilon bits and all beliefs of the root, and `update_min_V`,
run for every context, the beliefs in the bodies of the bridge rules. -/
def newMinV (root : ℕ) : NewBeliefState bso.width :=
  ((List.range bso.noBlocks).flatMap sys.bodyBeliefs).foldl
    (fun v b => v.set (b.globalAddress bso) .dmcsTrue)
    ((List.range bso.sizeBs).foldl
      (fun v j => v.set (bso.startingOffset root + (j + 1)) .dmcsTrue)
      ((NewBeliefState.empty bso.width).setEpsilonAll bso))

/-- The root answers the request `(0, 0)`, and always with the projections of the equilibria. -/
def AnswersEquilibria (r parent : ℕ) : Prop :=
  (∃ sent, sys.JoinedAnswers ∅ parent r sent) ∧
    ∀ sent, sys.JoinedAnswers ∅ parent r sent → ∀ S, S ∈ sent ↔
      ∃ E, sys.IsEquilibrium r E ∧ S = E.inter sys.interface

/-- At every join of the unfolding, neighbours that define the same block define it at the same
positions. -/
def Fits (r : ℕ) : Prop := ∃ P, sys.Carries ∅ r P

variable {sys} {r : ℕ}

lemma keepsImports_of_newMinV (hV : sys.interface = sys.newMinV r) : sys.KeepsImports := by
  refine ⟨?_, fun c hc b hb => ?_⟩
  · rw [hV]
    exact (WellFormed.interface_empty.foldl_set _ _).foldl_set _ _
  · change sys.interface.status_bit.getLsbD _ = true
    rw [hV, newMinV, foldl_set_status (by simp)]
    have hlt := lt_width_of_mem_localBits (known_of_mem_bodyBeliefs hb).1
      (globalAddress_mem_localBits hb)
    exact Or.inr ⟨hlt, b, List.mem_flatMap.mpr ⟨c, List.mem_range.mpr hc, hb⟩, rfl⟩

/-- **Systems with cycles.**  Where the joiners wait for their neighbours, the root sends the
projections of the equilibria in two cases: the positions fit at every join and the literals over
the own contexts make no difference, or the positions do not fit and there is no equilibrium to
send. -/
theorem answersEquilibria_iff [sys.StrictAddresses] (hV : sys.interface = sys.newMinV r)
    (hr : r < bso.noBlocks) (hfew : sys.FewNeighbors r) (parent : ℕ) :
    sys.AnswersEquilibria r parent ↔
      (∃ P, sys.Carries ∅ r P ∧ sys.OwnLiteralsAgree r P) ∨
        ¬ sys.Fits r ∧ ¬ ∃ E, sys.IsEquilibrium r E := by
  have hkeep := keepsImports_of_newMinV hV
  obtain ⟨sent, h⟩ := exists_answers ∅ parent hr
  have hjoined := (joinedAnswers_iff hfew).mpr h
  constructor
  · rintro ⟨-, hsent⟩
    by_cases hfits : sys.Fits r
    · obtain ⟨P, hP⟩ := hfits
      exact Or.inl ⟨P, hP, (h.forall_mem_iff hkeep hr hP).mp (hsent sent hjoined)⟩
    · refine Or.inr ⟨hfits, ?_⟩
      rintro ⟨E, hE⟩
      exact hfits (h.exists_carries hkeep hr ((hsent sent hjoined _).mpr ⟨E, hE, rfl⟩))
  · intro hcond
    refine ⟨⟨sent, hjoined⟩, fun sent' h' => ?_⟩
    rw [joinedAnswers_iff hfew] at h'
    rcases hcond with ⟨P, hP, hagree⟩ | ⟨hfits, hnone⟩
    · exact (h'.forall_mem_iff hkeep hr hP).mpr hagree
    · -- nothing is sent, and there is nothing to send
      intro S
      constructor
      · exact fun hS => absurd (h'.exists_carries hkeep hr hS) hfits
      · rintro ⟨E, hE, -⟩
        exact absurd ⟨E, hE⟩ hnone

/-- Without a choice of neighbours there is nothing to fit. -/
lemma fits_of_single_neighbor (hr : r < bso.noBlocks)
    (hsingle : ∀ c, ∀ d ∈ sys.neighborIds c, ∀ e ∈ sys.neighborIds c, d = e) : sys.Fits r := by
  refine History.induction (Finset.range bso.noBlocks)
    (motive := fun history c => ∃ P, sys.Carries history c P) ?_ ∅ (Finset.mem_range.mpr hr)
  intro history c _ ih
  by_cases hc : c ∈ history
  · exact ⟨_, .breaker hc⟩
  · have hchoice : ∀ d ∈ sys.neighborIds c, ∃ P, sys.Carries (insert c history) d P :=
      fun d hd => ih hc d (Finset.mem_range.mpr (mem_neighborIds.mp hd).2.lt)
    choose! P hP using hchoice
    refine ⟨_, .normal hc P hP (fun d hd e he i _ hi => ?_)⟩
    rwa [hsingle c d hd e he]

/-! ## A ring -/

/-- Two contexts with up to two beliefs each. -/
def ringBlocks : BeliefStateOffset := .ofSucc 1 1

/-- Two contexts that import the first belief of each other. -/
def ringRules : List BridgeRule :=
  [⟨⟨0, 1⟩, [⟨⟨1, 1⟩, false⟩], by simp⟩, ⟨⟨1, 1⟩, [⟨⟨0, 1⟩, false⟩], by simp⟩]

/-- Both believe what a bridge rule derives. -/
def ring : System ringBlocks :=
  ofRules [1] ringRules (fun c heads => [fun _ => decide (ringBlocks.startingOffset c + 1 ∈ heads)])
    ⟨31#6, 31#6⟩ (by decide) (by decide)

instance : ring.StrictAddresses := strictAddresses_ofRules (by decide)

lemma ring_fits : ring.Fits 0 := by
  have hnext : ∀ r ∈ ringRules, ∀ l ∈ r.body, ∀ r' ∈ ringRules, ∀ l' ∈ r'.body,
      r.head.contextId = r'.head.contextId → l.belief.contextId = l'.belief.contextId := by decide
  refine fits_of_single_neighbor (by decide) ?_
  intro c d hd e he
  obtain ⟨r, hr, hrc, l, hl, rfl⟩ := exists_rule_of_imports (mem_neighborIds.mp hd).2
  obtain ⟨r', hr', hrc', l', hl', rfl⟩ := exists_rule_of_imports (mem_neighborIds.mp he).2
  exact hnext r hr l hl r' hr' l' hl' (hrc.trans hrc'.symm)

lemma ring_noOwnImports : ring.NoOwnImports 0 := by
  have hown : ∀ r ∈ ringRules, ∀ l ∈ r.body, r.head.contextId ≠ l.belief.contextId := by decide
  intro d _ h
  obtain ⟨r, hr, rfl, l, hl, heq⟩ := exists_rule_of_imports h
  exact hown r hr l hl heq.symm

/-! ## A literal over the own context that is not read -/

/-- Context `0` believes its belief if context `1` believes its own and context `0` its belief. -/
def guardedRules : List BridgeRule := [⟨⟨0, 1⟩, [⟨⟨1, 1⟩, false⟩, ⟨⟨0, 1⟩, false⟩], by simp⟩]

/-- Context `1` never believes its belief, so the second literal is not read. -/
def guarded : System ringBlocks :=
  ofRules [1] guardedRules
    (fun c heads => [fun _ => decide (c = 0 ∧ ringBlocks.startingOffset c + 1 ∈ heads)])
    ⟨31#6, 31#6⟩ (by decide) (by decide)

instance : guarded.StrictAddresses := strictAddresses_ofRules (by decide)

lemma guarded_fits : guarded.Fits 0 := by
  refine fits_of_single_neighbor (by decide) ?_
  intro c d hd e he
  have hone : ∀ {d}, d ∈ guarded.neighborIds c → d = 1 := by
    intro d hd
    obtain ⟨hne, himports⟩ := mem_neighborIds.mp hd
    obtain ⟨r, hr, rfl, l, hl, rfl⟩ := exists_rule_of_imports himports
    rw [List.mem_singleton.mp hr] at hl hne
    rcases List.mem_pair.mp hl with rfl | rfl
    · rfl
    · exact absurd rfl hne
  rw [hone hd, hone he]

/-- A state in which context `1` believes its belief is rejected by context `1`; in any other state
the literal before the one over the own context does not hold. -/
lemma guarded_ownLiteralsAgree {P : Set ℕ} (hkeep : guarded.KeepsImports)
    (hP : guarded.Carries ∅ 0 P) : guarded.OwnLiteralsAgree 0 P := by
  have hr : 0 < ringBlocks.noBlocks := by decide
  have hrules : guarded.bridgeRules 1 = [] := by decide
  have hleaf : ∀ I S, guarded.ReadsWithin 1 I S := by
    intro I S rule hrule
    rw [hrules] at hrule
    cases hrule
  have hpath : FreshPath guarded.Imports ∅ 0 1 :=
    .step (by simp) ⟨⟨1, 1⟩, by decide, rfl⟩ (.refl (by decide))
  obtain ⟨I, hI⟩ := Evaluates.exists_of_freshPath hP hpath
  refine .of_readsWithin hr hP (fun S hover => ?_)
  cases hvalue : S.value_bit.getLsbD 4 with
  | true =>
      refine Or.inr ⟨1, I, hI, hleaf I S, ?_⟩
      rintro ⟨m, hm, heq⟩
      have hmem : 4 ∈ guarded.localBits 1 ∩ guarded.keptBits :=
        ⟨Or.inr ⟨1, List.mem_singleton.mpr rfl, rfl⟩,
          (by decide +kernel : guarded.interface.status_bit.getLsbD 4 = true)⟩
      have hnever : ∀ heads, ∀ m ∈ guarded.acc 1 heads, m.value_bit.getLsbD 4 = false := by
        intro heads m hm
        obtain rfl : m = localState ringBlocks 1 [1] (fun _ => false) := List.mem_singleton.mp hm
        decide +kernel
      rw [← heq 4 hmem, hnever _ m hm] at hvalue
      cases hvalue
  | false =>
      refine Or.inl (fun c I heval rule hrule l hl => ?_)
      obtain ⟨before, after, hbody, hbefore⟩ := hl
      have hrule' := (List.mem_filter.mp hrule).1
      have hc := of_decide_eq_true (List.mem_filter.mp hrule).2
      rw [List.mem_singleton.mp hrule'] at hbody hc
      cases before with
      | nil =>
          obtain ⟨rfl, -⟩ := List.cons.inj hbody
          exact heval.mem_of_imports hkeep hr (b := ⟨1, 1⟩) (hc ▸ by decide) (hc ▸ by decide)
      | cons first before =>
          obtain ⟨rfl, -⟩ := List.cons.inj hbody
          have hholds := hbefore _ List.mem_cons_self
          rw [BridgeLiteral.holds, if_neg (by decide), decide_eq_true_eq, test_eq_true] at hholds
          rw [show (4 : ℕ) = BeliefId.globalAddress ringBlocks ⟨1, 1⟩ from rfl,
            value_of_part hholds.2] at hvalue
          cases hvalue

/-- Around a ring nothing is lost, nor by a literal over the own context that is not read. -/
theorem answersEquilibria_iff_ring_guarded :
    ring.AnswersEquilibria 0 1023 ∧ guarded.AnswersEquilibria 0 1023 := by
  have hr : 0 < ringBlocks.noBlocks := by decide
  have hfew : ∀ sys : System ringBlocks, sys.FewNeighbors 0 :=
    fun sys => sys.fewNeighbors_of_noBlocks_lt (by decide) 0
  have hring : ring.interface = ring.newMinV 0 := by decide +kernel
  have hguarded : guarded.interface = guarded.newMinV 0 := by decide +kernel
  constructor
  · obtain ⟨P, hP⟩ := ring_fits
    refine (answersEquilibria_iff hring hr (hfew _) 1023).mpr (Or.inl ⟨P, hP, ?_⟩)
    exact .of_readsWithin hr hP (fun _ _ => Or.inl (fun _ _ heval =>
      heval.readsWithin (keepsImports_of_newMinV hring) hr ring_noOwnImports))
  · obtain ⟨P, hP⟩ := guarded_fits
    exact (answersEquilibria_iff hguarded hr (hfew _) 1023).mpr
      (Or.inl ⟨P, hP, guarded_ownLiteralsAgree (keepsImports_of_newMinV hguarded) hP⟩)

/-! ## A guessed block meets a real one -/

/-- Three contexts with up to three beliefs each. -/
def sharedBlocks : BeliefStateOffset := .ofSucc 2 2

/-- Contexts `0` and `1` import from each other, and each a belief of its own from context `2`. -/
def sharedRules : List BridgeRule :=
  [⟨⟨0, 1⟩, [⟨⟨1, 1⟩, false⟩], by simp⟩, ⟨⟨0, 2⟩, [⟨⟨2, 1⟩, false⟩], by simp⟩,
    ⟨⟨1, 1⟩, [⟨⟨0, 1⟩, false⟩], by simp⟩, ⟨⟨1, 2⟩, [⟨⟨2, 2⟩, false⟩], by simp⟩]

/-- Every context believes all its beliefs. -/
def sharedNeighbor : System sharedBlocks :=
  ofRules [1, 2] sharedRules (fun _ _ => [fun _ => true]) ⟨1855#12, 1855#12⟩ (by decide) (by decide)

instance : sharedNeighbor.StrictAddresses := strictAddresses_ofRules (by decide)

/-- The equilibrium: everything is believed. -/
def allBelieved : NewBeliefState sharedBlocks.width :=
  (localState sharedBlocks 0 [1, 2] (fun _ => true)).union
    ((localState sharedBlocks 1 [1, 2] (fun _ => true)).union
      (localState sharedBlocks 2 [1, 2] (fun _ => true)))

lemma allBelieved_isEquilibrium : sharedNeighbor.IsEquilibrium 0 allBelieved := by
  have hreach : ∀ c < 3, sharedNeighbor.Reaches 0 c := by
    intro c hc
    interval_cases c
    · exact .refl
    · exact .single ⟨⟨1, 1⟩, by decide, rfl⟩
    · exact .single ⟨⟨2, 1⟩, by decide, rfl⟩
  refine ⟨fun c hc => ?_, fun i hi => ?_⟩
  · have hlt : c < 3 := Reaches.lt (by decide) hc
    interval_cases c <;> decide +kernel
  · have hw : i < sharedBlocks.width := hi.elim status_lt value_lt
    exact hreach _ (sharedBlocks.blockOf_lt hw)

/-- Context `1` asks context `0`, whose cycle breaker guesses the first belief of context `2` only,
and context `2`, which answers with both: they do not fit. -/
lemma sharedNeighbor_not_fits : ¬ sharedNeighbor.Fits 0 := by
  rintro ⟨P, hP⟩
  obtain ⟨Q, hQ, -⟩ := hP.of_not_mem (by simp)
  obtain ⟨Q, hQ, hfit⟩ := (hQ 1 (by decide)).of_not_mem (by decide)
  have hguess := (hQ 0 (by decide)).of_mem (by decide)
  have hreal : 10 ∈ Q 2 := (hQ 2 (by decide)).localBits_subset
    ⟨Or.inr ⟨2, List.mem_cons_of_mem _ (List.mem_singleton.mpr rfl), rfl⟩,
      (by decide +kernel : sharedNeighbor.interface.status_bit.getLsbD 10 = true)⟩
  have hdefined : 8 ∈ Q 0 := by
    rw [hguess]
    exact ⟨Or.inr ⟨⟨2, 1⟩, by decide, by decide, Or.inl rfl⟩,
      (by decide +kernel : sharedNeighbor.interface.status_bit.getLsbD 8 = true)⟩
  have hmem : 10 ∈ Q 0 := hfit 0 (by decide) 2 (by decide) 10 hdefined hreal
  rw [hguess] at hmem
  rcases hmem.1 with hlocal | hguessed
  · exact absurd (blockOf_of_mem_localBits hlocal) (by decide)
  · have hnone : ¬ ∃ b ∈ sharedNeighbor.bodyBeliefs 0, b.contextId ≠ 0 ∧
        (10 = sharedBlocks.startingOffset b.contextId ∨ 10 = b.globalAddress sharedBlocks) := by
      decide
    exact hnone hguessed

/-- There is an equilibrium, and no answer. -/
theorem sharedNeighbor_loses_equilibrium :
    sharedNeighbor.interface = sharedNeighbor.newMinV 0 ∧
      ¬ sharedNeighbor.AnswersEquilibria 0 1023 := by
  have hV : sharedNeighbor.interface = sharedNeighbor.newMinV 0 := by decide +kernel
  have hfew := sharedNeighbor.fewNeighbors_of_noBlocks_lt (by decide) 0
  refine ⟨hV, ?_⟩
  rintro ⟨⟨sent, h⟩, hsent⟩
  exact sharedNeighbor_not_fits (((joinedAnswers_iff hfew).mp h).exists_carries
    (keepsImports_of_newMinV hV) (by decide)
    ((hsent sent h _).mpr ⟨_, allBelieved_isEquilibrium, rfl⟩))

/-! ## A bridge rule over its own context -/

/-- One context with up to two beliefs. -/
def ownBlocks : BeliefStateOffset := .ofSucc 0 1

/-- A context that derives its belief when it does not believe it. -/
def ownBelief : System ownBlocks :=
  ofRules [1] [⟨⟨0, 1⟩, [⟨⟨0, 1⟩, true⟩], by simp⟩] (fun _ heads => [fun _ => decide (1 ∈ heads)])
    ⟨7#3, 7#3⟩ (by decide) (by decide)

instance : ownBelief.StrictAddresses := strictAddresses_ofRules (by decide)

/-- The bridge rule is evaluated on an input without the own block, where its literal holds.  So the
context sends a state although there is no equilibrium. -/
theorem ownBelief_sends_no_equilibrium :
    ownBelief.Fits 0 ∧ (¬ ∃ E, ownBelief.IsEquilibrium 0 E) ∧
      ¬ ownBelief.AnswersEquilibria 0 1023 := by
  have hleaf : ownBelief.neighborIds 0 = [] := by decide
  have hnone : ¬ ∃ E, ownBelief.IsEquilibrium 0 E := by
    rintro ⟨⟨status, value⟩, hE⟩
    have hblock : ∀ status value : BitVec 3,
        ¬ (⟨status, value⟩ : NewBeliefState ownBlocks.width).block ownBlocks 0 ∈
          ownBelief.acc 0 (ownBelief.applicableHeads 0 ⟨status, value⟩) := by decide +kernel
    exact hblock status value (hE.accepted 0 .refl)
  refine ⟨⟨_, .normal (by simp) (fun _ => ∅) (by simp [hleaf]) (by simp [hleaf])⟩, hnone, ?_⟩
  rintro ⟨⟨sent, h⟩, hsent⟩
  have hfew := ownBelief.fewNeighbors_of_noBlocks_lt (by decide) 0
  obtain ⟨answers, -, hmem⟩ := ((joinedAnswers_iff hfew).mp h).of_not_mem (by decide) (by simp)
  rw [hleaf] at hmem
  obtain ⟨E, hE, -⟩ := (hsent sent h _).mp ((hmem _).mpr
    ⟨NewBeliefState.empty _, List.mem_singleton.mpr rfl,
      localState ownBlocks 0 [1] (fun _ => true), by decide +kernel, by decide +kernel, rfl⟩)
  exact hnone ⟨E, hE⟩

end System

end Dmcs
