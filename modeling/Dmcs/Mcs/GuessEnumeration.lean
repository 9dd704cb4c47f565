import Dmcs.Mcs.Guess

/-!
# The guesses of a plan, one by one or directly

`next_guess` counts through the guesses and `jump_guess` writes the guess of a step at once.  The
two agree at every step, the overflow included.  Between `0` and `2 ^ m` they should run through all
assignments of the `m` guessed beliefs, each at one step.

What they count are bits of `total_guessing_input`, not beliefs of the plan.  A belief with address
`0` sits on the epsilon bit of its block and is passed over, and an address beyond the block falls
on a bit of another one.  `enumerates_iff` says that the guesses are those of the plan exactly if
its beliefs have bits of their own; addresses from `1` to `SIZE_BS` see to that.

## The argument

`planBeliefs` lists the beliefs of the plan, `beliefPos` is the position that `init` computes for a
belief, and `guessedBits` lists the positions that are counted.  By `Guess` the code runs through
the assignments of `guessedBits`, one at each step below `2 ^ guessedBits.length`, and says at the
end that there is no other.  So the enumeration is that of the plan if and only if its beliefs have
different positions, inside the state and none of them an epsilon bit: this is `Separate`.

Two beliefs of a plan meet only when an address leads out of its block, or when one is listed
twice; `separate_of_addresses` is the condition on the plan that excludes both.
-/

namespace Dmcs

namespace NewContext

open BitScan

variable {bso : BeliefStateOffset}

/-- The guessed beliefs of a plan, each with its context. -/
def planBeliefs (plan : List (ℕ × List ℕ)) : List (ℕ × ℕ) :=
  plan.flatMap (fun entry => entry.2.map (fun a => (entry.1, a)))

/-- Where `init` sets a guessed belief. -/
def beliefPos (bso : BeliefStateOffset) (belief : ℕ × ℕ) : ℕ :=
  bso.startingOffset belief.1 + belief.2

/-- The bits that are counted through: those set for the beliefs of a plan, without the epsilon
bits. -/
def guessedBits (bso : BeliefStateOffset) (plan : List (ℕ × List ℕ)) : List ℕ :=
  (List.range bso.width).filter (fun i => isBeliefBit bso i &&
    plan.any (fun entry => entry.2.any (fun a => i == bso.startingOffset entry.1 + a)))

/-- The result of calling `next_guess` a number of times, from `starting_guess` on. -/
def nextGuesses (starting total : NewBeliefState bso.width) :
    ℕ → Option (NewBeliefState bso.width)
  | 0 => some starting
  | n + 1 => (nextGuesses starting total n).bind (fun g => nextGuess g total)

/-- The two functions enumerate the assignments of the guessed beliefs of a plan. -/
structure Enumerates (bso : BeliefStateOffset) (plan : List (ℕ × List ℕ))
    (starting total : NewBeliefState bso.width) : Prop where
  /-- Jumping to a step is stepping up to it. -/
  jump_eq_next : ∀ step, jumpGuess starting total step = nextGuesses starting total step
  /-- The guesses end after `2 ^ m` steps. -/
  jump_eq_none_iff : ∀ step,
    jumpGuess starting total step = none ↔ 2 ^ (planBeliefs plan).length ≤ step
  /-- In every guess all guessed beliefs are `TRUE` or `FALSE`. -/
  assigns : ∀ step g, jumpGuess starting total step = some g → ∀ b ∈ planBeliefs plan,
    g.test (beliefPos bso b) = .dmcsTrue ∨ g.test (beliefPos bso b) = .dmcsFalse
  /-- Every assignment is guessed at exactly one step. -/
  existsUnique : ∀ v : ℕ × ℕ → Bool, ∃! step, ∃ g, jumpGuess starting total step = some g ∧
    ∀ b ∈ planBeliefs plan, g.test (beliefPos bso b) = if v b then .dmcsTrue else .dmcsFalse
  /-- All guesses have the same epsilon bits. -/
  epsilon : ∀ step g, jumpGuess starting total step = some g → ∀ c,
    g.status_bit.getLsbD (bso.startingOffset c) =
        starting.status_bit.getLsbD (bso.startingOffset c) ∧
      g.value_bit.getLsbD (bso.startingOffset c) = starting.value_bit.getLsbD (bso.startingOffset c)
  /-- Apart from these only the guessed beliefs have a status. -/
  status : ∀ step g, jumpGuess starting total step = some g → ∀ i, isBeliefBit bso i = true →
    (g.status_bit.getLsbD i = true ↔ ∃ b ∈ planBeliefs plan, i = beliefPos bso b)

/-- The guessed beliefs have different bits of the state, none of them an epsilon bit. -/
structure Separate (bso : BeliefStateOffset) (plan : List (ℕ × List ℕ)) : Prop where
  nodup : ((planBeliefs plan).map (beliefPos bso)).Nodup
  lt_width : ∀ b ∈ planBeliefs plan, beliefPos bso b < bso.width
  isBelief : ∀ b ∈ planBeliefs plan, isBeliefBit bso (beliefPos bso b) = true

section Writes

variable {w : ℕ}

/-- Different numbers are written differently. -/
lemma writeGuess_inj {bs : List ℕ} (hnd : bs.Nodup) (hw : ∀ b ∈ bs, b < w) {g : NewBeliefState w}
    {k k' : ℕ} (hk : k < 2 ^ bs.length) (hk' : k' < 2 ^ bs.length)
    (h : ∀ b ∈ bs, (writeGuess g bs k).test b = (writeGuess g bs k').test b) : k = k' := by
  have key : ∀ (bs : List ℕ) (g g' : NewBeliefState w) (k k' : ℕ), bs.Nodup → (∀ b ∈ bs, b < w) →
      k < 2 ^ bs.length → k' < 2 ^ bs.length →
        (∀ b ∈ bs, (writeGuess g bs k).test b = (writeGuess g' bs k').test b) → k = k' := by
    intro bs
    induction bs with
    | nil =>
        intro g g' k k' _ _ hk hk' _
        simp only [List.length_nil, pow_zero] at hk hk'
        omega
    | cons b bs ih =>
        intro g g' k k' hnd hw hk hk' h
        obtain ⟨hb, hnd⟩ := List.nodup_cons.mp hnd
        rw [List.length_cons, pow_succ] at hk hk'
        have hhalf : k / 2 = k' / 2 :=
          ih _ _ (k / 2) (k' / 2) hnd (fun a ha => hw a (by simp [ha])) (by omega) (by omega)
            (fun a ha => h a (by simp [ha]))
        have hbit := h b (by simp)
        rw [writeGuess, writeGuess, test_writeGuess_of_not_mem hb, test_writeGuess_of_not_mem hb,
          test_set_self _ (hw b (by simp)), test_set_self _ (hw b (by simp))] at hbit
        have hparity : k % 2 = 1 ↔ k' % 2 = 1 := by
          split at hbit <;> split at hbit <;> simp_all
        omega
  exact key bs g g k k' hnd hw hk hk' h

lemma value_writeGuess_of_not_mem {b : ℕ} {bs : List ℕ} (h : b ∉ bs) (g : NewBeliefState w)
    (k : ℕ) : (writeGuess g bs k).value_bit.getLsbD b = g.value_bit.getLsbD b := by
  induction bs generalizing g k with
  | nil => rfl
  | cons a bs ih =>
      simp only [List.mem_cons, not_or] at h
      rw [writeGuess, ih h.2, NewBeliefState.set_value, if_neg (fun hb => h.1 hb.1)]

/-- The digits written are truth values. -/
lemma test_writeGuess_of_mem {b : ℕ} {bs : List ℕ} (hw : ∀ b ∈ bs, b < w) (h : b ∈ bs)
    (g : NewBeliefState w) (k : ℕ) :
    (writeGuess g bs k).test b = .dmcsTrue ∨ (writeGuess g bs k).test b = .dmcsFalse := by
  induction bs generalizing g k with
  | nil => cases h
  | cons a bs ih =>
      rw [writeGuess]
      by_cases hmem : b ∈ bs
      · exact ih (fun x hx => hw x (by simp [hx])) hmem _ _
      · obtain rfl : b = a := (List.mem_cons.mp h).resolve_right hmem
        rw [test_writeGuess_of_not_mem hmem, test_set_self g (hw b (by simp))]
        split
        · exact Or.inl rfl
        · exact Or.inr rfl

end Writes

namespace GuessSpace

variable (G : GuessSpace bso)

lemma guessAt_inj {k k' : ℕ} (hk : k < 2 ^ G.noGuessed) (hk' : k' < 2 ^ G.noGuessed)
    (h : ∀ b ∈ G.bits, (G.guessAt k).test b = (G.guessAt k').test b) : k = k' :=
  writeGuess_inj G.bits_nodup (fun _ hb => G.bits_lt hb) hk hk' h

lemma startingOffset_not_mem_bits (c : ℕ) : bso.startingOffset c ∉ G.bits := by
  intro h
  have hbelief := (G.mem_bits.mp h).2
  rw [isBeliefBit, bso.startingOffset_mod] at hbelief
  cases hbelief

/-- Stepping follows the numbering of the guesses. -/
lemma nextGuesses_eq (step : ℕ) :
    nextGuesses G.starting G.total step =
      if step < 2 ^ G.noGuessed then some (G.guessAt step) else none := by
  induction step with
  | zero => rw [nextGuesses, if_pos (by positivity), guessAt_zero]
  | succ step ih =>
      rw [nextGuesses, ih]
      by_cases hstep : step < 2 ^ G.noGuessed
      · rw [if_pos hstep, Option.bind_some, G.nextGuess_guessAt hstep]
      · rw [if_neg hstep, if_neg (by omega), Option.bind_none]

lemma jumpGuess_eq_some_iff {step : ℕ} {g : NewBeliefState bso.width} :
    jumpGuess G.starting G.total step = some g ↔ step < 2 ^ G.noGuessed ∧ g = G.guessAt step := by
  rw [G.jumpGuess_eq]
  split
  · rename_i h
    rw [Option.some_inj, eq_comm]
    exact (and_iff_right h).symm
  · rename_i h
    simp [h]

/-- The guessed beliefs of the states that `init` builds. -/
lemma bits_ofPlan (plan : List (ℕ × List ℕ)) : (ofPlan bso plan).bits = guessedBits bso plan := by
  unfold bits beliefBits ones guessedBits
  rw [List.filter_filter]
  refine List.filter_congr (fun i hi => ?_)
  rw [Bool.eq_iff_iff, Bool.and_eq_true, Bool.and_eq_true, and_congr_right_iff]
  intro hbelief
  have hw := List.mem_range.mp hi
  show (initGuess bso .dmcsTrue plan).trueBits.getLsbD i = true ↔ _
  rw [NewBeliefState.trueBits_getLsbD, initGuess_true_value, Bool.and_self,
    initGuess_status _ (by simp)]
  have hne : ∀ c, i ≠ bso.startingOffset c := by
    rintro c rfl
    rw [isBeliefBit, bso.startingOffset_mod] at hbelief
    cases hbelief
  simp [PlanBit, hw, hne]

end GuessSpace

/-! ## Bits and beliefs -/

section Beliefs

variable {plan : List (ℕ × List ℕ)}

lemma mem_guessedBits {i : ℕ} : i ∈ guessedBits bso plan ↔
    i < bso.width ∧ isBeliefBit bso i = true ∧ ∃ b ∈ planBeliefs plan, i = beliefPos bso b := by
  have hplan : (∃ b ∈ planBeliefs plan, i = beliefPos bso b) ↔
      ∃ entry ∈ plan, ∃ a ∈ entry.2, i = bso.startingOffset entry.1 + a := by
    constructor
    · rintro ⟨b, hb, rfl⟩
      obtain ⟨entry, he, hb⟩ := List.mem_flatMap.mp hb
      obtain ⟨a, ha, rfl⟩ := List.mem_map.mp hb
      exact ⟨entry, he, a, ha, rfl⟩
    · rintro ⟨entry, he, a, ha, rfl⟩
      exact ⟨(entry.1, a), List.mem_flatMap.mpr ⟨entry, he, List.mem_map_of_mem ha⟩, rfl⟩
  rw [hplan]
  simp [guessedBits]

lemma guessedBits_nodup : (guessedBits bso plan).Nodup := List.nodup_range.filter _

section Guess

variable {step : ℕ} {g : NewBeliefState bso.width}
  (hg : jumpGuess (initGuess bso .dmcsFalse plan) (initGuess bso .dmcsTrue plan) step = some g)
include hg

/-- Apart from the epsilon bits, what is counted through has a status in a guess, and nothing
else. -/
lemma status_guess {i : ℕ} (hi : isBeliefBit bso i = true) :
    g.status_bit.getLsbD i = true ↔ i ∈ guessedBits bso plan := by
  obtain ⟨-, rfl⟩ := (GuessSpace.ofPlan bso plan).jumpGuess_eq_some_iff.mp hg
  rw [GuessSpace.guessAt_status, ← GuessSpace.bits_ofPlan, GuessSpace.mem_bits]
  show (initGuess bso .dmcsFalse plan).status_bit.getLsbD i = true ↔
    (initGuess bso .dmcsTrue plan).trueBits.getLsbD i = true ∧ _
  rw [NewBeliefState.trueBits_getLsbD, initGuess_true_value, Bool.and_self,
    initGuess_status _ (by simp), initGuess_status _ (by simp)]
  exact (and_iff_left hi).symm

/-- A bit that is counted through is `TRUE` or `FALSE` in a guess. -/
lemma test_guess {b : ℕ} (hb : b ∈ guessedBits bso plan) :
    g.test b = .dmcsTrue ∨ g.test b = .dmcsFalse := by
  obtain ⟨-, rfl⟩ := (GuessSpace.ofPlan bso plan).jumpGuess_eq_some_iff.mp hg
  rw [← GuessSpace.bits_ofPlan] at hb
  exact test_writeGuess_of_mem (fun _ hb => GuessSpace.bits_lt _ hb) hb _ _

end Guess

/-- The beliefs of a plan have bits of their own exactly if there are as many bits to count through
as beliefs. -/
lemma separate_iff_length : Separate bso plan ↔
    (guessedBits bso plan).length = (planBeliefs plan).length := by
  have hsub : guessedBits bso plan ⊆ (planBeliefs plan).map (beliefPos bso) := by
    intro i hi
    obtain ⟨-, -, b, hb, rfl⟩ := mem_guessedBits.mp hi
    exact List.mem_map_of_mem hb
  constructor
  · intro h
    have hperm : (guessedBits bso plan).Perm ((planBeliefs plan).map (beliefPos bso)) := by
      rw [List.perm_ext_iff_of_nodup guessedBits_nodup h.nodup]
      refine fun i => ⟨fun hi => hsub hi, fun hi => ?_⟩
      obtain ⟨b, hb, rfl⟩ := List.mem_map.mp hi
      exact mem_guessedBits.mpr ⟨h.lt_width b hb, h.isBelief b hb, b, hb, rfl⟩
    rw [hperm.length_eq, List.length_map]
  · intro h
    have hperm : (guessedBits bso plan).Perm ((planBeliefs plan).map (beliefPos bso)) :=
      (List.subperm_of_subset guessedBits_nodup hsub).perm_of_length_le (by
        rw [List.length_map, h])
    have hmem : ∀ b ∈ planBeliefs plan, beliefPos bso b ∈ guessedBits bso plan :=
      fun b hb => hperm.mem_iff.mpr (List.mem_map_of_mem hb)
    exact ⟨hperm.nodup guessedBits_nodup, fun b hb => (mem_guessedBits.mp (hmem b hb)).1,
      fun b hb => (mem_guessedBits.mp (hmem b hb)).2.1⟩

/-- The plans one expects: input signatures of different contexts of the system, with addresses from
`1` up to the size of a block. -/
lemma separate_of_addresses (hctx : (plan.map Prod.fst).Nodup)
    (hentry : ∀ entry ∈ plan, entry.1 < bso.noBlocks ∧ entry.2.Nodup ∧
      ∀ a ∈ entry.2, 1 ≤ a ∧ a ≤ bso.sizeBs) : Separate bso plan := by
  have hmem : ∀ b ∈ planBeliefs plan, b.1 < bso.noBlocks ∧ 1 ≤ b.2 ∧ b.2 ≤ bso.sizeBs := by
    intro b hb
    obtain ⟨entry, hentry', hb⟩ := List.mem_flatMap.mp hb
    obtain ⟨a, ha, rfl⟩ := List.mem_map.mp hb
    obtain ⟨hc, -, haddr⟩ := hentry entry hentry'
    exact ⟨hc, haddr a ha⟩
  have hnodup : (planBeliefs plan).Nodup := by
    rw [planBeliefs, List.nodup_flatMap]
    constructor
    · intro entry he
      exact (hentry entry he).2.1.map (fun a a' h => (Prod.mk.inj h).2)
    · refine (List.pairwise_map.mp hctx).imp (fun {e e'} hne => ?_)
      intro b hb hb'
      obtain ⟨a, -, rfl⟩ := List.mem_map.mp hb
      obtain ⟨a', -, heq⟩ := List.mem_map.mp hb'
      exact hne (Prod.mk.inj heq).1.symm
  refine ⟨?_, fun b hb => ?_, fun b hb => ?_⟩
  · refine (List.nodup_map_iff_inj_on hnodup).mpr (fun b hb b' hb' heq => ?_)
    obtain ⟨-, -, h2⟩ := hmem b hb
    obtain ⟨-, -, h2'⟩ := hmem b' hb'
    refine Prod.ext ?_ ?_
    · have hblock := congrArg bso.blockOf heq
      rwa [beliefPos, beliefPos, bso.blockOf_add h2, bso.blockOf_add h2'] at hblock
    · have hmod := congrArg (· % (bso.sizeBs + 1)) heq
      simp only [beliefPos] at hmod
      rwa [bso.add_mod h2, bso.add_mod h2'] at hmod
  · obtain ⟨hc, -, h2⟩ := hmem b hb
    exact bso.startingOffset_add_lt hc h2
  · obtain ⟨-, h1, h2⟩ := hmem b hb
    rw [isBeliefBit, beliefPos, bso.add_mod h2]
    simp only [decide_eq_true_eq]
    omega

end Beliefs

/-- Whatever plan the two states are built from, `next_guess` and `jump_guess` enumerate the
assignments of its guessed beliefs exactly if these have bits of their own.  A belief can lack a bit
of its own only if its address leads out of its block, or is listed twice. -/
theorem enumerates_iff (bso : BeliefStateOffset) (plan : List (ℕ × List ℕ)) :
    Enumerates bso plan (initGuess bso .dmcsFalse plan) (initGuess bso .dmcsTrue plan) ↔
      Separate bso plan := by
  set G := GuessSpace.ofPlan bso plan with hG
  have hbits : G.bits = guessedBits bso plan := GuessSpace.bits_ofPlan plan
  have hlength : (guessedBits bso plan).length = G.noGuessed := by rw [← hbits]; rfl
  have hsome : ∀ {step g},
      jumpGuess (initGuess bso .dmcsFalse plan) (initGuess bso .dmcsTrue plan) step = some g ↔
        step < 2 ^ G.noGuessed ∧ g = G.guessAt step := G.jumpGuess_eq_some_iff
  have hnone : ∀ step,
      jumpGuess (initGuess bso .dmcsFalse plan) (initGuess bso .dmcsTrue plan) step = none ↔
        2 ^ G.noGuessed ≤ step := by
    intro step
    show jumpGuess G.starting G.total step = none ↔ _
    rw [G.jumpGuess_eq]
    split <;> simp <;> omega
  constructor
  · intro h
    -- the step at which the guesses end tells how many bits are counted through
    have hm : 2 ^ (planBeliefs plan).length = 2 ^ G.noGuessed :=
      le_antisymm ((h.jump_eq_none_iff _).mp ((hnone _).mpr le_rfl))
        ((hnone _).mp ((h.jump_eq_none_iff _).mpr le_rfl))
    rw [separate_iff_length, hlength]
    exact (Nat.pow_right_injective le_rfl hm).symm
  · intro hsep
    have hm := hlength.symm.trans (separate_iff_length.mp hsep)
    have hmem : ∀ b ∈ planBeliefs plan, beliefPos bso b ∈ G.bits := fun b hb =>
      hbits ▸ mem_guessedBits.mpr ⟨hsep.lt_width b hb, hsep.isBelief b hb, b, hb, rfl⟩
    refine ⟨fun step => ?_, fun step => ?_, fun step g hg b hb => ?_, fun v => ?_,
      fun step g hg c => ?_, fun step g hg i hi => ?_⟩
    · exact (G.jumpGuess_eq step).trans (G.nextGuesses_eq step).symm
    · rw [hnone, hm]
    · exact test_guess hg (hbits ▸ hmem b hb)
    · -- an assignment of the beliefs is one of their bits
      obtain ⟨u, hu⟩ : ∃ u : ℕ → Bool, ∀ b ∈ planBeliefs plan, u (beliefPos bso b) = v b := by
        refine ⟨fun i => (planBeliefs plan).any (fun b => beliefPos bso b == i && v b), ?_⟩
        intro b hb
        have hinj := List.inj_on_of_nodup_map hsep.nodup
        rw [Bool.eq_iff_iff, List.any_eq_true]
        constructor
        · rintro ⟨b', hb', h⟩
          rw [Bool.and_eq_true, beq_iff_eq] at h
          exact hinj hb' hb h.1 ▸ h.2
        · exact fun h => ⟨b, hb, by simp [h]⟩
      obtain ⟨k, hk, htest⟩ := G.exists_guessAt u
      refine ⟨k, ⟨_, hsome.mpr ⟨hk, rfl⟩, fun b hb => ?_⟩, ?_⟩
      · rw [htest _ (hmem b hb), hu b hb]
      rintro k' ⟨g, hg, htest'⟩
      obtain ⟨hk', rfl⟩ := hsome.mp hg
      refine G.guessAt_inj hk' hk (fun i hi => ?_)
      obtain ⟨-, -, b, hb, rfl⟩ := mem_guessedBits.mp (hbits ▸ hi)
      rw [htest _ hi, hu b hb, htest' b hb]
    · obtain ⟨-, rfl⟩ := hsome.mp hg
      exact ⟨G.guessAt_status step _,
        value_writeGuess_of_not_mem (G.startingOffset_not_mem_bits c) _ _⟩
    · rw [status_guess hg hi]
      constructor
      · intro h
        exact (mem_guessedBits.mp h).2.2
      · rintro ⟨b, hb, rfl⟩
        exact hbits ▸ hmem b hb

/-- A guessed belief with address `0`, in blocks of one belief: the plan has two beliefs, and the
guesses end after two steps. -/
theorem jumpGuess_ends_early :
    ¬ Enumerates (.ofSucc 1 0) [(1, [0, 1])] (initGuess _ .dmcsFalse [(1, [0, 1])])
      (initGuess _ .dmcsTrue [(1, [0, 1])]) := by
  intro h
  have hnone := (h.jump_eq_none_iff 2).mp (by decide +kernel)
  exact absurd hnone (by decide)

end NewContext

end Dmcs
