import Mathlib.Tactic.Positivity
import Mathlib.Tactic.Ring
import Dmcs.Mcs.Combine

/-!
# Guessing input beliefs (`starting_guess`, `next_guess`, `jump_guess`)

A context that has to guess keeps two states: `total_guessing_input`, whose `TRUE` bits are the
epsilon bits of the guessed blocks and the beliefs to be guessed, and `starting_guess`, the same
with every belief `FALSE`.  `nextGuess` counts up in binary over the guessed beliefs and
`jumpGuess` writes the binary digits of a step number.

`GuessSpace` carries what the two `init` functions establish about the pair.  Over it the guesses
are numbered: `guessAt k` writes the digits of `k`, lowest bit first, and the two theorems
`nextGuess_guessAt` and `jumpGuess_eq` say that both functions follow this numbering, `jumpGuess`
directly and `nextGuess` by one step at a time, up to `2 ^ noGuessed`.

## The code and the numbering

`next_guess` is an increment of a binary counter whose digits are spread over the state: it sets
the first guessed belief that is `FALSE` and resets the ones before it.  `jump_guess` writes the
digits of a number with `bin_step` and then clears the digits above.  Both walk over the `TRUE` bits
of `total_guessing_input` with the cursor and skip the epsilon bits.

The proofs abstract the walk: `beliefBits` is the list of the positions that are counted, `incr` the
increment and `writeDigits` the writing of digits over this list.  Then both functions are facts
about binary digits, and `nextGuess` at the last guess answers that there is none.
-/

namespace Dmcs

open BitScan

namespace NewContext

variable {bso : BeliefStateOffset}

/-! ## The code -/

/-- The loops of `CycleBreaker::init` and `NormalContext::init`: for every guessed context switch
its epsilon bit on and give every belief of its input signature the value `v`. -/
def initGuess (bso : BeliefStateOffset) (v : TruthVal) (plan : List (ℕ × List ℕ)) :
    NewBeliefState bso.width :=
  plan.foldl (fun g entry =>
      entry.2.foldl (fun g address => g.set (bso.startingOffset entry.1 + address) v)
        (g.setEpsilon bso entry.1))
    (NewBeliefState.empty bso.width)

/-- A bit of the guessing input that is a belief and not an epsilon bit. -/
def isBeliefBit (bso : BeliefStateOffset) (bit : ℕ) : Bool := decide (bit % (bso.sizeBs + 1) ≠ 0)

/-- Inner loop of `next_guess`: set the guessed beliefs before `bit` to `FALSE`. -/
def resetBefore (gi : NewBeliefState bso.width) (bit : ℕ) :
    ℕ → ℕ → NewBeliefState bso.width → NewBeliefState bso.width
  | 0, _, g => g
  | fuel + 1, prev, g =>
      if prev < bit then
        resetBefore gi bit fuel (gi.getNext prev)
          (if isBeliefBit bso prev then g.set prev .dmcsFalse else g)
      else g

/-- Outer loop of `next_guess`. -/
def nextLoop (gi : NewBeliefState bso.width) (first : ℕ) :
    ℕ → ℕ → NewBeliefState bso.width → Option (NewBeliefState bso.width)
  | 0, _, _ => none
  | fuel + 1, bit, g =>
      let bit := gi.getNext bit
      if isBeliefBit bso bit ∧ g.test bit = .dmcsFalse then
        some (resetBefore gi bit (bso.width + 1) (gi.getNext first) (g.set bit .dmcsTrue))
      else if bit = 0 then none
      else nextLoop gi first fuel bit g

/-- `next_guess(current_guess, guessing_input)`; `none` is the `NULL` after the last guess. -/
def nextGuess (g gi : NewBeliefState bso.width) : Option (NewBeliefState bso.width) :=
  nextLoop gi gi.getFirst (bso.width + 1) gi.getFirst g

/-- `bin_step`: the binary digits of `step`, lowest first. -/
def binStep : ℕ → ℕ → List Bool
  | 0, _ => []
  | fuel + 1, step => if step = 0 then [] else decide (step % 2 = 1) :: binStep fuel (step / 2)

/-- First loop of `jump_guess`: write the digits on the guessed beliefs in turn.  Returns the
cursor, the digits left over and the guess. -/
def jumpLoop (gi : NewBeliefState bso.width) :
    ℕ → ℕ → List Bool → NewBeliefState bso.width → ℕ × List Bool × NewBeliefState bso.width
  | 0, bit, it, g => (bit, it, g)
  | fuel + 1, bit, it, g =>
      let bit := gi.getNext bit
      if isBeliefBit bso bit then
        let g := g.set bit (if it.headD false then .dmcsTrue else .dmcsFalse)
        let it := it.tail
        if it = [] then (bit, it, g)
        else if bit = 0 then (bit, it, g)
        else jumpLoop gi fuel bit it g
      else if bit = 0 then (bit, it, g)
      else jumpLoop gi fuel bit it g

/-- Second loop of `jump_guess`: the remaining guessed beliefs are `FALSE`. -/
def clearLoop (gi : NewBeliefState bso.width) :
    ℕ → ℕ → NewBeliefState bso.width → NewBeliefState bso.width
  | 0, _, g => g
  | fuel + 1, bit, g =>
      if bit = 0 then g
      else
        let bit := gi.getNext bit
        clearLoop gi fuel bit (if isBeliefBit bso bit then g.set bit .dmcsFalse else g)

/-- `jump_guess(guessing_input, step)`. -/
def jumpGuess (starting gi : NewBeliefState bso.width) (step : ℕ) :
    Option (NewBeliefState bso.width) :=
  if step = 0 then some starting
  else
    let (bit, it, g) := jumpLoop gi (bso.width + 1) gi.getFirst (binStep step step) starting
    let g := clearLoop gi (bso.width + 1) bit g
    if it ≠ [] then none else some g

/-! ## The numbering of the guesses -/

/-- Write the binary digits of `k` on `bits`, lowest first. -/
def writeGuess {w : ℕ} (g : NewBeliefState w) : List ℕ → ℕ → NewBeliefState w
  | [], _ => g
  | b :: bs, k => writeGuess (g.set b (if k % 2 = 1 then .dmcsTrue else .dmcsFalse)) bs (k / 2)

section Writes

variable {w : ℕ}

lemma set_set_same (g : NewBeliefState w) (b : ℕ) (u v : TruthVal) :
    (g.set b u).set b v = g.set b v := by
  refine NewBeliefState.ext_bits (fun i => ?_) (fun i => ?_)
  · simp only [NewBeliefState.set_status]; split <;> rfl
  · simp only [NewBeliefState.set_value]; split <;> rfl

lemma set_comm (g : NewBeliefState w) {a b : ℕ} (h : a ≠ b) (u v : TruthVal) :
    (g.set a u).set b v = (g.set b v).set a u := by
  refine NewBeliefState.ext_bits (fun i => ?_) (fun i => ?_)
  · simp only [NewBeliefState.set_status]
    split_ifs <;> first | rfl | omega
  · simp only [NewBeliefState.set_value]
    split_ifs <;> first | rfl | omega

lemma set_false_comm (g : NewBeliefState w) (a b : ℕ) :
    (g.set a .dmcsFalse).set b .dmcsFalse = (g.set b .dmcsFalse).set a .dmcsFalse := by
  by_cases h : a = b
  · rw [h]
  · exact set_comm g h _ _

lemma set_eq_self {g : NewBeliefState w} {b : ℕ} (h : g.test b = .dmcsFalse) :
    g.set b .dmcsFalse = g := by
  obtain ⟨h1, h2⟩ := NewBeliefState.test_eq_false.mp h
  refine NewBeliefState.ext_bits (fun i => ?_) (fun i => ?_)
  · rw [NewBeliefState.set_status]
    split
    · rename_i hi; rw [hi.1, h1]; rfl
    · rfl
  · rw [NewBeliefState.set_value]
    split
    · rename_i hi; rw [hi.1, h2]; rfl
    · rfl

lemma test_set_self (g : NewBeliefState w) {b : ℕ} (h : b < w) (v : TruthVal) :
    (g.set b v).test b = v := by
  unfold NewBeliefState.test
  cases v <;> simp only [NewBeliefState.set_status, NewBeliefState.set_value, h, and_self,
    if_true] <;> rfl

lemma test_set_ne (g : NewBeliefState w) {a b : ℕ} (h : a ≠ b) (v : TruthVal) :
    (g.set b v).test a = g.test a := by
  unfold NewBeliefState.test
  simp [h]

lemma set_writeGuess {b : ℕ} {bs : List ℕ} (h : b ∉ bs) (g : NewBeliefState w) (k : ℕ)
    (v : TruthVal) : (writeGuess g bs k).set b v = writeGuess (g.set b v) bs k := by
  induction bs generalizing g k with
  | nil => rfl
  | cons a bs ih =>
      simp only [List.mem_cons, not_or] at h
      rw [writeGuess, writeGuess, ih h.2, set_comm g (Ne.symm h.1)]

lemma test_writeGuess_of_not_mem {b : ℕ} {bs : List ℕ} (h : b ∉ bs) (g : NewBeliefState w)
    (k : ℕ) : (writeGuess g bs k).test b = g.test b := by
  induction bs generalizing g k with
  | nil => rfl
  | cons a bs ih =>
      simp only [List.mem_cons, not_or] at h
      rw [writeGuess, ih h.2, test_set_ne g h.1]

lemma writeGuess_zero {g : NewBeliefState w} {bs : List ℕ}
    (h : ∀ b ∈ bs, g.test b = .dmcsFalse) : writeGuess g bs 0 = g := by
  induction bs with
  | nil => rfl
  | cons b bs ih =>
      rw [writeGuess, if_neg (by simp), set_eq_self (h b (by simp))]
      exact ih (fun a ha => h a (by simp [ha]))

/-- Writing digits on bits that have a status leaves the status bits as they are. -/
lemma writeGuess_status {bs : List ℕ} {g : NewBeliefState w}
    (h : ∀ b ∈ bs, g.status_bit.getLsbD b = true) (k i : ℕ) :
    (writeGuess g bs k).status_bit.getLsbD i = g.status_bit.getLsbD i := by
  induction bs generalizing g k with
  | nil => rfl
  | cons b bs ih =>
      have hset : ∀ j, (g.set b (if k % 2 = 1 then .dmcsTrue else .dmcsFalse)).status_bit.getLsbD j
          = g.status_bit.getLsbD j := by
        intro j
        rw [NewBeliefState.set_status]
        split
        · rename_i hj
          rw [hj.1, h b (by simp)]
          split <;> simp
        · rfl
      rw [writeGuess, ih (fun a ha => (hset a).trans (h a (by simp [ha]))), hset]

/-- Every assignment of truth values to the bits is written for some number. -/
lemma exists_writeGuess {bs : List ℕ} (hnd : bs.Nodup) (hw : ∀ b ∈ bs, b < w) (v : ℕ → Bool)
    (g : NewBeliefState w) :
    ∃ k < 2 ^ bs.length, ∀ b ∈ bs,
      (writeGuess g bs k).test b = if v b then .dmcsTrue else .dmcsFalse := by
  induction bs generalizing g with
  | nil => exact ⟨0, by simp, by simp⟩
  | cons b bs ih =>
      obtain ⟨hb, hnd'⟩ := List.nodup_cons.mp hnd
      obtain ⟨k, hk, hbits⟩ := ih hnd' (fun a ha => hw a (by simp [ha]))
        (g.set b (if v b then .dmcsTrue else .dmcsFalse))
      have hdiv : (2 * k + (v b).toNat) / 2 = k := by
        have := Bool.toNat_lt (v b)
        omega
      have hmod : (2 * k + (v b).toNat) % 2 = 1 ↔ v b = true := by cases v b <;> simp
      refine ⟨2 * k + (v b).toNat, ?_, fun a ha => ?_⟩
      · have := Bool.toNat_lt (v b)
        rw [List.length_cons, pow_succ]
        omega
      · rw [writeGuess, hdiv]
        simp only [hmod]
        rcases List.mem_cons.mp ha with rfl | ha
        · rw [test_writeGuess_of_not_mem hb, test_set_self g (hw a (by simp))]
        · exact hbits a ha

/-- One binary increment over a list of bits: the first `FALSE` bit becomes `TRUE`, those before it
`FALSE`. -/
def incr : List ℕ → NewBeliefState w → Option (NewBeliefState w)
  | [], _ => none
  | b :: bs, g =>
      if g.test b = .dmcsFalse then some (g.set b .dmcsTrue)
      else (incr bs g).map (fun g' => g'.set b .dmcsFalse)

lemma incr_writeGuess (bs : List ℕ) (hnd : bs.Nodup) (hw : ∀ b ∈ bs, b < w)
    (g : NewBeliefState w) (k : ℕ) (hk : k < 2 ^ bs.length) :
    incr bs (writeGuess g bs k) =
      if k + 1 < 2 ^ bs.length then some (writeGuess g bs (k + 1)) else none := by
  induction bs generalizing g k with
  | nil => simp [incr] at hk ⊢
  | cons b bs ih =>
      obtain ⟨hb, hnd'⟩ := List.nodup_cons.mp hnd
      have hbw : b < w := hw b (by simp)
      have hpow : 2 ^ (b :: bs).length = 2 * 2 ^ bs.length := by
        rw [List.length_cons, pow_succ, Nat.mul_comm]
      rw [hpow] at hk ⊢
      have htest : (writeGuess g (b :: bs) k).test b =
          if k % 2 = 1 then .dmcsTrue else .dmcsFalse := by
        rw [writeGuess, test_writeGuess_of_not_mem hb, test_set_self g hbw]
      rw [incr, htest]
      by_cases hodd : k % 2 = 1
      · -- carry: bit `b` is reset and the increment continues on the higher bits
        have hdiv : k / 2 + 1 = (k + 1) / 2 := by omega
        have hmod : ¬ (k + 1) % 2 = 1 := by omega
        rw [if_pos hodd, if_neg (by simp), writeGuess, if_pos hodd,
          ih hnd' (fun a ha => hw a (by simp [ha])) _ _ (by omega)]
        by_cases hlt : k / 2 + 1 < 2 ^ bs.length
        · rw [if_pos hlt, if_pos (by omega), Option.map_some, set_writeGuess hb, set_set_same,
            writeGuess, if_neg hmod, hdiv]
        · rw [if_neg hlt, if_neg (by omega), Option.map_none]
      · have hdiv : (k + 1) / 2 = k / 2 := by omega
        have hmod : (k + 1) % 2 = 1 := by omega
        rw [if_neg hodd, if_pos rfl, if_pos (by omega), writeGuess, if_neg hodd,
          set_writeGuess hb, set_set_same, writeGuess, if_pos hmod, hdiv]

end Writes

/-! ## The loops over the guessed bits -/

/-- The beliefs among a list of bits. -/
def beliefBits (bso : BeliefStateOffset) (l : List ℕ) : List ℕ := l.filter (isBeliefBit bso)

lemma isBeliefBit_zero : isBeliefBit bso 0 = false := by simp [isBeliefBit]

/-- Set a list of bits to `FALSE`. -/
def clearBits {w : ℕ} (l : List ℕ) (g : NewBeliefState w) : NewBeliefState w :=
  l.foldl (fun g b => g.set b .dmcsFalse) g

lemma clearBits_set_comm {w : ℕ} (l : List ℕ) (g : NewBeliefState w) (b : ℕ) :
    clearBits l (g.set b .dmcsFalse) = (clearBits l g).set b .dmcsFalse := by
  induction l generalizing g with
  | nil => rfl
  | cons a l ih =>
      rw [clearBits, List.foldl_cons, set_false_comm, ← clearBits, ih]
      rfl

-- Induction on the bits between the cursor and `bit`.
private lemma resetBefore_eq (gi : NewBeliefState bso.width) (bit : ℕ) (rest : List ℕ) :
    ∀ (pre : List ℕ) (fuel p : ℕ) (g : NewBeliefState bso.width),
      above gi.trueBits p = pre ++ bit :: rest → pre.length < fuel →
        resetBefore gi bit fuel (gi.getNext p) g = clearBits (beliefBits bso pre) g := by
  intro pre
  induction pre with
  | nil =>
      intro fuel p g hl hf
      obtain ⟨fuel, rfl⟩ : ∃ f, fuel = f + 1 := ⟨fuel - 1, by simp at hf; omega⟩
      obtain ⟨hnext, -, -, -⟩ := nextOne_of_above_cons hl
      rw [NewBeliefState.getNext_eq, hnext, resetBefore, if_neg (by omega)]
      rfl
  | cons x pre ih =>
      intro fuel p g hl hf
      obtain ⟨fuel, rfl⟩ : ∃ f, fuel = f + 1 := ⟨fuel - 1, by simp at hf; omega⟩
      obtain ⟨hnext, -, -, habove⟩ := nextOne_of_above_cons hl
      have hsorted := above_sorted gi.trueBits p
      rw [hl] at hsorted
      have hlt : x < bit := (List.pairwise_cons.mp hsorted).1 bit (by simp)
      rw [NewBeliefState.getNext_eq gi p, hnext, resetBefore, if_pos hlt,
        ih fuel x _ habove (by simp at hf; omega)]
      by_cases hx : isBeliefBit bso x = true
      · simp [beliefBits, clearBits, hx]
      · simp [beliefBits, hx]

-- `all` is what the cursor sees from the first bit, `pre` the part already passed.  The bits
-- passed are reset only when a `FALSE` bit is found, so they stay outside the recursion.
private lemma nextLoop_eq (gi : NewBeliefState bso.width) (first : ℕ) :
    ∀ (l pre : List ℕ) (fuel bit : ℕ) (g : NewBeliefState bso.width),
      above gi.trueBits first = pre ++ l → above gi.trueBits bit = l → l.length < fuel →
        nextLoop gi first fuel bit g =
          (incr (beliefBits bso l) g).map (clearBits (beliefBits bso pre)) := by
  intro l
  induction l with
  | nil =>
      intro pre fuel bit g hall hl hf
      obtain ⟨fuel, rfl⟩ : ∃ f, fuel = f + 1 := ⟨fuel - 1, by simp at hf; omega⟩
      simp [nextLoop, NewBeliefState.getNext_eq, nextOne_of_above_nil hl, isBeliefBit_zero,
        beliefBits, incr]
  | cons x l ih =>
      intro pre fuel bit g hall hl hf
      obtain ⟨fuel, rfl⟩ : ∃ f, fuel = f + 1 := ⟨fuel - 1, by simp at hf; omega⟩
      obtain ⟨hnext, hlt, -, habove⟩ := nextOne_of_above_cons hl
      have hx0 : x ≠ 0 := by omega
      have hall' : above gi.trueBits first = (pre ++ [x]) ++ l := by simp [hall]
      have hrec := ih (pre ++ [x]) fuel x g hall' habove (by simp at hf; omega)
      rw [nextLoop]
      simp only [NewBeliefState.getNext_eq gi bit, hnext]
      by_cases hx : isBeliefBit bso x = true
      · by_cases ht : g.test x = .dmcsFalse
        · have hpre : pre.length < bso.width + 1 := by
            have := above_length_le gi.trueBits first
            rw [hall, List.length_append] at this
            omega
          rw [if_pos ⟨hx, ht⟩, resetBefore_eq gi x l pre _ first _ hall hpre]
          simp [beliefBits, hx, incr, ht]
        · rw [if_neg (fun h => ht h.2), if_neg hx0, hrec]
          simp only [beliefBits, List.filter_append, List.filter_cons, hx, if_true,
            List.filter_nil, incr, ht, if_false, Option.map_map]
          congr 1
          funext g'
          rw [Function.comp_apply, clearBits_set_comm, clearBits, List.foldl_append]
          rfl
      · rw [if_neg (fun h => hx h.1), if_neg hx0, hrec]
        simp [beliefBits, hx]

/-- Write given digits on a list of bits; bits beyond the last digit become `FALSE`. -/
def writeDigits {w : ℕ} (g : NewBeliefState w) : List ℕ → List Bool → NewBeliefState w
  | [], _ => g
  | b :: bs, ds =>
      writeDigits (g.set b (if ds.headD false then .dmcsTrue else .dmcsFalse)) bs ds.tail

private lemma clearLoop_eq (gi : NewBeliefState bso.width) :
    ∀ (l : List ℕ) (fuel bit : ℕ) (g : NewBeliefState bso.width),
      bit ≠ 0 → above gi.trueBits bit = l → l.length + 1 < fuel →
        clearLoop gi fuel bit g = writeDigits g (beliefBits bso l) [] := by
  intro l
  induction l with
  | nil =>
      intro fuel bit g hbit hl hf
      obtain ⟨fuel, rfl⟩ : ∃ f, fuel = f + 2 := ⟨fuel - 2, by simp at hf; omega⟩
      simp [clearLoop, hbit, NewBeliefState.getNext_eq, nextOne_of_above_nil hl,
        isBeliefBit_zero, beliefBits, writeDigits]
  | cons x l ih =>
      intro fuel bit g hbit hl hf
      obtain ⟨fuel, rfl⟩ : ∃ f, fuel = f + 1 := ⟨fuel - 1, by simp at hf; omega⟩
      obtain ⟨hnext, hlt, -, habove⟩ := nextOne_of_above_cons hl
      rw [clearLoop, if_neg hbit]
      simp only [NewBeliefState.getNext_eq gi bit, hnext]
      rw [ih fuel x _ (by omega) habove (by simp at hf; omega)]
      by_cases hx : isBeliefBit bso x = true
      · simp [beliefBits, hx, writeDigits]
      · simp [beliefBits, hx]

-- Both loops of `jump_guess` together, by induction on the bits in front of the cursor: if there
-- are enough guessed beliefs for the digits they are written, otherwise digits are left over.
private lemma jumpLoop_eq (gi : NewBeliefState bso.width) :
    ∀ (l : List ℕ) (fuel bit : ℕ) (it : List Bool) (g : NewBeliefState bso.width),
      it ≠ [] → above gi.trueBits bit = l → l.length < fuel → l.length < bso.width + 1 →
        (it.length ≤ (beliefBits bso l).length →
          (jumpLoop gi fuel bit it g).2.1 = [] ∧
          clearLoop gi (bso.width + 1) (jumpLoop gi fuel bit it g).1
            (jumpLoop gi fuel bit it g).2.2 = writeDigits g (beliefBits bso l) it) ∧
        ((beliefBits bso l).length < it.length → (jumpLoop gi fuel bit it g).2.1 ≠ []) := by
  intro l
  -- induction on the TRUE bits behind `bit`; a digit is used up only at a belief
  induction l with
  | nil =>
      intro fuel bit it g hit hl hf hw
      obtain ⟨fuel, rfl⟩ : ∃ f, fuel = f + 1 := ⟨fuel - 1, by simp at hf; omega⟩
      have hpos : 0 < it.length := List.length_pos_iff.mpr hit
      have hloop : jumpLoop gi (fuel + 1) bit it g = (0, it, g) := by
        simp [jumpLoop, NewBeliefState.getNext_eq, nextOne_of_above_nil hl, isBeliefBit_zero]
      rw [hloop]
      refine ⟨fun h => ?_, fun _ => hit⟩
      simp [beliefBits] at h
      exact absurd h hit
  | cons x l ih =>
      intro fuel bit it g hit hl hf hw
      obtain ⟨fuel, rfl⟩ : ∃ f, fuel = f + 1 := ⟨fuel - 1, by simp at hf; omega⟩
      obtain ⟨hnext, hlt, -, habove⟩ := nextOne_of_above_cons hl
      have hx0 : x ≠ 0 := by omega
      have hf' : l.length < fuel := by simp at hf; omega
      have hw' : l.length < bso.width + 1 := by simp at hw; omega
      by_cases hx : isBeliefBit bso x = true
      · have hbits : beliefBits bso (x :: l) = x :: beliefBits bso l := by simp [beliefBits, hx]
        rw [hbits]
        obtain ⟨d, ds, rfl⟩ : ∃ d ds, it = d :: ds := List.exists_cons_of_ne_nil hit
        -- the last digit ends the jumps, and the bits behind it are cleared
        by_cases hds : ds = []
        · subst hds
          have hloop : jumpLoop gi (fuel + 1) bit [d] g =
              (x, [], g.set x (if d then .dmcsTrue else .dmcsFalse)) := by
            simp [jumpLoop, NewBeliefState.getNext_eq, hnext, hx]
          rw [hloop]
          refine ⟨fun _ => ⟨rfl, ?_⟩, fun h => ?_⟩
          · have hlw := above_length_le gi.trueBits bit
            rw [hl, List.length_cons] at hlw
            rw [clearLoop_eq gi l _ x _ hx0 habove (by omega)]
            simp [writeDigits]
          · simp at h
        · have hloop : jumpLoop gi (fuel + 1) bit (d :: ds) g =
              jumpLoop gi fuel x ds (g.set x (if d then .dmcsTrue else .dmcsFalse)) := by
            rw [jumpLoop]
            simp [NewBeliefState.getNext_eq, hnext, hx, hds, hx0]
          obtain ⟨ih1, ih2⟩ := ih fuel x ds
            (g.set x (if d then .dmcsTrue else .dmcsFalse)) hds habove hf' hw'
          rw [hloop]
          refine ⟨fun h => ?_, fun h => ?_⟩
          · obtain ⟨h1, h2⟩ := ih1 (by simp at h; omega)
            exact ⟨h1, by rw [h2]; simp [writeDigits]⟩
          · exact ih2 (by simp at h; omega)
      · have hbits : beliefBits bso (x :: l) = beliefBits bso l := by simp [beliefBits, hx]
        have hloop : jumpLoop gi (fuel + 1) bit it g = jumpLoop gi fuel x it g := by
          rw [jumpLoop]
          simp [NewBeliefState.getNext_eq, hnext, hx, hx0]
        rw [hbits, hloop]
        exact ih fuel x it g hit habove hf' hw'

/-! ## Binary digits -/

lemma binStep_fuel (fuel step : ℕ) (h : step ≤ fuel) :
    binStep fuel step = if step = 0 then [] else
      decide (step % 2 = 1) :: binStep (step / 2) (step / 2) := by
  have key : ∀ n, ∀ f g : ℕ, n ≤ f → n ≤ g → binStep f n = binStep g n := by
    intro n
    induction n using Nat.strongRecOn with
    | ind n ih =>
        intro f g hf hg
        by_cases hn : n = 0
        · subst hn
          cases f <;> cases g <;> simp [binStep]
        · obtain ⟨f, rfl⟩ : ∃ f', f = f' + 1 := ⟨f - 1, by omega⟩
          obtain ⟨g, rfl⟩ : ∃ g', g = g' + 1 := ⟨g - 1, by omega⟩
          simp only [binStep, hn, if_false]
          rw [ih (n / 2) (by omega) f g (by omega) (by omega)]
  by_cases hs : step = 0
  · subst hs
    cases fuel <;> simp [binStep]
  · obtain ⟨f, rfl⟩ : ∃ f', fuel = f' + 1 := ⟨fuel - 1, by omega⟩
    rw [binStep, if_neg hs, if_neg hs, key (step / 2) f (step / 2) (by omega) le_rfl]

lemma writeDigits_binStep {w : ℕ} (bs : List ℕ) (g : NewBeliefState w) (k : ℕ) :
    writeDigits g bs (binStep k k) = writeGuess g bs k := by
  induction bs generalizing g k with
  | nil => rfl
  | cons b bs ih =>
      rw [writeDigits, writeGuess, binStep_fuel k k le_rfl]
      by_cases hk : k = 0
      · subst hk
        have := ih (g.set b .dmcsFalse) 0
        simpa [binStep] using this
      · rw [if_neg hk]
        simp only [List.headD_cons, List.tail_cons, decide_eq_true_eq]
        exact ih _ _

lemma binStep_length_le (m : ℕ) : ∀ k : ℕ, (binStep k k).length ≤ m ↔ k < 2 ^ m := by
  induction m with
  | zero =>
      intro k
      rw [binStep_fuel k k le_rfl]
      by_cases hk : k = 0 <;> simp [hk]
  | succ m ih =>
      intro k
      rw [binStep_fuel k k le_rfl]
      by_cases hk : k = 0
      · simp [hk]
      · rw [if_neg hk, List.length_cons, Nat.add_le_add_iff_right, ih, pow_succ]
        omega

/-! ## Guess spaces -/

/-- What the `init` functions establish about `total_guessing_input` and `starting_guess`: the
lowest `TRUE` bit is an epsilon bit (asserted by `next_guess` and `jump_guess`), and every guessed
belief starts `FALSE`. -/
structure GuessSpace (bso : BeliefStateOffset) where
  total : NewBeliefState bso.width
  starting : NewBeliefState bso.width
  first_epsilon : total.getFirst % (bso.sizeBs + 1) = 0
  starting_false : ∀ b, total.trueBits.getLsbD b = true → isBeliefBit bso b = true →
    starting.test b = .dmcsFalse

namespace GuessSpace

variable (G : GuessSpace bso)

/-- The guessed beliefs, in ascending order. -/
def bits : List ℕ := beliefBits bso (ones G.total.trueBits)

/-- Their number `m`. -/
def noGuessed : ℕ := G.bits.length

/-- The guess of step `k`. -/
def guessAt (k : ℕ) : NewBeliefState bso.width := writeGuess G.starting G.bits k

lemma mem_bits {b : ℕ} :
    b ∈ G.bits ↔ G.total.trueBits.getLsbD b = true ∧ isBeliefBit bso b = true := by
  rw [bits, beliefBits, List.mem_filter, mem_ones]

lemma bits_nodup : G.bits.Nodup :=
  ((ones_sorted _).imp (fun h => Nat.ne_of_lt h)).filter _

lemma bits_lt {b : ℕ} (hb : b ∈ G.bits) : b < bso.width := by
  have h := (G.mem_bits.mp hb).1
  rw [NewBeliefState.trueBits_getLsbD, Bool.and_eq_true] at h
  exact NewBeliefState.status_lt h.1

/-- The cursor started at the first bit sees every guessed belief: the first bit itself is an
epsilon bit. -/
lemma bits_eq_above : G.bits = beliefBits bso (above G.total.trueBits G.total.getFirst) := by
  rw [bits, NewBeliefState.getFirst_eq]
  cases hl : ones G.total.trueBits with
  | nil =>
      have habove : above G.total.trueBits (firstOne G.total.trueBits) = [] := by
        simp [above, hl]
      rw [habove]
  | cons x l =>
      obtain ⟨hfirst, -, habove⟩ := ones_eq_cons hl
      have hx := G.first_epsilon
      rw [NewBeliefState.getFirst_eq, hfirst] at hx
      rw [hfirst, habove]
      simp [beliefBits, isBeliefBit, hx]

lemma guessAt_zero : G.guessAt 0 = G.starting :=
  writeGuess_zero (fun b hb => G.starting_false b (G.mem_bits.mp hb).1 (G.mem_bits.mp hb).2)

/-- Every assignment of truth values to the guessed beliefs is guessed at some step. -/
lemma exists_guessAt (v : ℕ → Bool) :
    ∃ k < 2 ^ G.noGuessed, ∀ b ∈ G.bits,
      (G.guessAt k).test b = if v b then .dmcsTrue else .dmcsFalse :=
  exists_writeGuess G.bits_nodup (fun _ hb => G.bits_lt hb) v G.starting

/-- All guesses have the same status bits. -/
lemma guessAt_status (k i : ℕ) :
    (G.guessAt k).status_bit.getLsbD i = G.starting.status_bit.getLsbD i := by
  refine writeGuess_status (fun b hb => ?_) k i
  obtain ⟨h1, h2⟩ := G.mem_bits.mp hb
  exact (NewBeliefState.test_eq_false.mp (G.starting_false b h1 h2)).1

/-- `next_guess` steps through the numbering and returns `NULL` after the last guess. -/
theorem nextGuess_guessAt {k : ℕ} (hk : k < 2 ^ G.noGuessed) :
    nextGuess (G.guessAt k) G.total =
      if k + 1 < 2 ^ G.noGuessed then some (G.guessAt (k + 1)) else none := by
  have hlen : (above G.total.trueBits G.total.getFirst).length < bso.width + 1 := by
    have := above_length_le G.total.trueBits G.total.getFirst
    omega
  rw [nextGuess, nextLoop_eq G.total _ _ [] _ _ _ (by simp) rfl hlen, ← G.bits_eq_above,
    guessAt, incr_writeGuess G.bits G.bits_nodup (fun b hb => G.bits_lt hb) _ _ hk]
  have hid : (clearBits (beliefBits bso []) : NewBeliefState bso.width → _) = id := rfl
  rw [hid, Option.map_id]
  rfl

/-- `jump_guess` goes straight to the guess of a step, and is `NULL` from `2 ^ m` on. -/
theorem jumpGuess_eq (step : ℕ) :
    jumpGuess G.starting G.total step =
      if step < 2 ^ G.noGuessed then some (G.guessAt step) else none := by
  rw [jumpGuess]
  by_cases hs : step = 0
  · subst hs
    rw [if_pos rfl, if_pos (by positivity), guessAt_zero]
  · have hne : binStep step step ≠ [] := by
      rw [binStep_fuel step step le_rfl, if_neg hs]
      simp
    have hlen : (above G.total.trueBits G.total.getFirst).length < bso.width + 1 := by
      have := above_length_le G.total.trueBits G.total.getFirst
      omega
    obtain ⟨h1, h2⟩ := jumpLoop_eq G.total _ (bso.width + 1) G.total.getFirst
      (binStep step step) G.starting hne rfl hlen hlen
    rw [← G.bits_eq_above, ← noGuessed] at h1 h2
    rw [if_neg hs]
    simp only
    by_cases hk : step < 2 ^ G.noGuessed
    · obtain ⟨h3, h4⟩ := h1 ((binStep_length_le _ _).mpr hk)
      rw [h3, h4, if_neg (by simp), if_pos hk, guessAt, writeDigits_binStep]
    · have h3 := h2 (by
        have := mt (binStep_length_le G.noGuessed step).mp hk
        omega)
      rw [if_pos h3, if_neg hk]

end GuessSpace

/-! ## The guess space of a plan -/

/-- The positions a plan touches: the epsilon bit of every guessed context and the beliefs of its
input signature. -/
def PlanBit (bso : BeliefStateOffset) (plan : List (ℕ × List ℕ)) (i : ℕ) : Prop :=
  ∃ entry ∈ plan, i = bso.startingOffset entry.1 ∨
    ∃ a ∈ entry.2, i = bso.startingOffset entry.1 + a

/-- Setting a list of positions gives them a status. -/
lemma foldl_set_status {w : ℕ} {β : Type*} {v : TruthVal} (hv : v ≠ .dmcsUndef) (f : β → ℕ) (i : ℕ)
    (l : List β) (g : NewBeliefState w) :
    (l.foldl (fun g x => g.set (f x) v) g).status_bit.getLsbD i = true ↔
      g.status_bit.getLsbD i = true ∨ (i < w ∧ ∃ x ∈ l, i = f x) := by
  induction l generalizing g with
  | nil => simp
  | cons x l ih =>
      rw [List.foldl_cons, ih, NewBeliefState.set_status]
      by_cases hi : i = f x ∧ i < w
      · have hmem : i < w ∧ ∃ y ∈ x :: l, i = f y := ⟨hi.2, x, by simp, hi.1⟩
        rw [if_pos hi]
        exact ⟨fun _ => Or.inr hmem, fun _ => Or.inl (by simp [hv])⟩
      · rw [if_neg hi]
        simp only [List.mem_cons, exists_eq_or_imp]
        constructor
        · rintro (h | ⟨hw, h⟩)
          · exact Or.inl h
          · exact Or.inr ⟨hw, Or.inr h⟩
        · rintro (h | ⟨hw, h | h⟩)
          · exact Or.inl h
          · exact absurd ⟨h, hw⟩ hi
          · exact Or.inr ⟨hw, h⟩

private lemma foldl_set_true_value {w : ℕ} (start i : ℕ) (as : List ℕ) (g : NewBeliefState w)
    (hg : ∀ i, g.value_bit.getLsbD i = g.status_bit.getLsbD i) :
    (as.foldl (fun g a => g.set (start + a) .dmcsTrue) g).value_bit.getLsbD i =
      (as.foldl (fun g a => g.set (start + a) .dmcsTrue) g).status_bit.getLsbD i := by
  induction as generalizing g with
  | nil => exact hg i
  | cons a as ih =>
      refine ih _ (fun j => ?_)
      rw [NewBeliefState.set_status, NewBeliefState.set_value]
      split
      · rfl
      · exact hg j

private lemma foldl_set_false_value {w : ℕ} (start i : ℕ) (as : List ℕ) (g : NewBeliefState w)
    (h : (as.foldl (fun g a => g.set (start + a) .dmcsFalse) g).value_bit.getLsbD i = true) :
    g.value_bit.getLsbD i = true := by
  induction as generalizing g with
  | nil => exact h
  | cons a as ih =>
      have := ih _ h
      rw [NewBeliefState.set_value] at this
      split at this
      · simp at this
      · exact this

/-- The status bits of the states `init` builds. -/
lemma initGuess_status (v : TruthVal) (hv : v ≠ .dmcsUndef) (plan : List (ℕ × List ℕ)) (i : ℕ) :
    (initGuess bso v plan).status_bit.getLsbD i = true ↔ i < bso.width ∧ PlanBit bso plan i := by
  have key : ∀ (plan : List (ℕ × List ℕ)) (g : NewBeliefState bso.width),
      (plan.foldl (fun g entry =>
        entry.2.foldl (fun g a => g.set (bso.startingOffset entry.1 + a) v)
          (g.setEpsilon bso entry.1)) g).status_bit.getLsbD i = true ↔
        g.status_bit.getLsbD i = true ∨ (i < bso.width ∧ PlanBit bso plan i) := by
    intro plan
    induction plan with
    | nil => intro g; simp [PlanBit]
    | cons e plan ih =>
        intro g
        rw [List.foldl_cons, ih, foldl_set_status hv, NewBeliefState.setEpsilon_status]
        have hcons : PlanBit bso (e :: plan) i ↔
            (i = bso.startingOffset e.1 ∨ ∃ a ∈ e.2, i = bso.startingOffset e.1 + a) ∨
              PlanBit bso plan i := by
          simp [PlanBit]
        rw [hcons]
        by_cases hi : i = bso.startingOffset e.1 ∧ i < bso.width
        · rw [if_pos hi]
          simp only [true_or, true_iff]
          exact Or.inr ⟨hi.2, Or.inl (Or.inl hi.1)⟩
        · rw [if_neg hi]
          constructor
          · rintro ((h | ⟨hw, h⟩) | ⟨hw, h⟩)
            · exact Or.inl h
            · exact Or.inr ⟨hw, Or.inl (Or.inr h)⟩
            · exact Or.inr ⟨hw, Or.inr h⟩
          · rintro (h | ⟨hw, (h | h) | h⟩)
            · exact Or.inl (Or.inl h)
            · exact absurd ⟨h, hw⟩ hi
            · exact Or.inl (Or.inr ⟨hw, h⟩)
            · exact Or.inr ⟨hw, h⟩
  rw [initGuess, key]
  simp

/-- In `total_guessing_input` every bit with a status is `TRUE`. -/
lemma initGuess_true_value (plan : List (ℕ × List ℕ)) (i : ℕ) :
    (initGuess bso .dmcsTrue plan).value_bit.getLsbD i =
      (initGuess bso .dmcsTrue plan).status_bit.getLsbD i := by
  rw [initGuess]
  generalize hg : NewBeliefState.empty bso.width = g
  have hval : ∀ i, g.value_bit.getLsbD i = g.status_bit.getLsbD i := by simp [← hg]
  clear hg
  induction plan generalizing g with
  | nil => exact hval i
  | cons e plan ih =>
      refine ih _ (fun j => foldl_set_true_value _ _ _ _ (fun j => ?_))
      rw [NewBeliefState.setEpsilon_status, NewBeliefState.setEpsilon_value]
      split
      · rfl
      · exact hval j

/-- In `starting_guess` only epsilon bits can be `TRUE`. -/
lemma initGuess_false_value (plan : List (ℕ × List ℕ)) {i : ℕ}
    (h : (initGuess bso .dmcsFalse plan).value_bit.getLsbD i = true) :
    isBeliefBit bso i = false := by
  rw [initGuess] at h
  have hval : (NewBeliefState.empty bso.width).value_bit.getLsbD i = true →
      isBeliefBit bso i = false := by simp
  generalize NewBeliefState.empty bso.width = g at h hval
  induction plan generalizing g with
  | nil => exact hval h
  | cons e plan ih =>
      refine ih _ h (fun h' => ?_)
      have := foldl_set_false_value _ _ _ _ h'
      rw [NewBeliefState.setEpsilon_value] at this
      split at this
      · rename_i hi
        rw [hi.1]
        simp [isBeliefBit, bso.startingOffset_mod]
      · exact hval this

/-- The lowest bit of `total_guessing_input` is an epsilon bit. -/
lemma initGuess_getFirst (plan : List (ℕ × List ℕ)) :
    (initGuess bso .dmcsTrue plan).getFirst % (bso.sizeBs + 1) = 0 := by
  rw [NewBeliefState.getFirst_eq]
  cases hl : ones (initGuess bso .dmcsTrue plan).trueBits with
  | nil => simp [firstOne, hl]
  | cons x l =>
      obtain ⟨hfirst, hx, -⟩ := ones_eq_cons hl
      have hsorted := ones_sorted (initGuess bso .dmcsTrue plan).trueBits
      rw [hl] at hsorted
      rw [NewBeliefState.trueBits_getLsbD, Bool.and_eq_true] at hx
      obtain ⟨hxw, e, he, hpos⟩ := (initGuess_status _ (by simp) plan x).mp hx.1
      -- the epsilon bit of the block the plan entry belongs to is `TRUE` and not above `x`
      have hle : bso.startingOffset e.1 ≤ x := by
        rcases hpos with h | ⟨a, -, h⟩ <;> omega
      have heps : (initGuess bso .dmcsTrue plan).status_bit.getLsbD
          (bso.startingOffset e.1) = true :=
        (initGuess_status _ (by simp) plan _).mpr ⟨by omega, e, he, Or.inl rfl⟩
      have hmem : bso.startingOffset e.1 ∈ x :: l := by
        rw [← hl, mem_ones, NewBeliefState.trueBits_getLsbD, initGuess_true_value, heps]
        rfl
      rcases List.mem_cons.mp hmem with h | h
      · rw [hfirst, ← h, bso.startingOffset_mod]
      · have := (List.pairwise_cons.mp hsorted).1 _ h
        omega

/-- Every belief of `total_guessing_input` is `FALSE` in `starting_guess`. -/
lemma initGuess_test (plan : List (ℕ × List ℕ)) (b : ℕ)
    (hb : (initGuess bso .dmcsTrue plan).trueBits.getLsbD b = true)
    (hbelief : isBeliefBit bso b = true) :
    (initGuess bso .dmcsFalse plan).test b = .dmcsFalse := by
  rw [NewBeliefState.trueBits_getLsbD, Bool.and_eq_true] at hb
  refine NewBeliefState.test_eq_false.mpr ⟨?_, ?_⟩
  · rw [initGuess_status _ (by simp)]
    exact (initGuess_status _ (by simp) plan b).mp hb.1
  · by_contra hval
    have := initGuess_false_value plan (Bool.not_eq_false _ ▸ hval)
    simp [this] at hbelief

/-- The pair of states built by `CycleBreaker::init` and `NormalContext::init`. -/
def GuessSpace.ofPlan (bso : BeliefStateOffset) (plan : List (ℕ × List ℕ)) : GuessSpace bso where
  total := initGuess bso .dmcsTrue plan
  starting := initGuess bso .dmcsFalse plan
  first_epsilon := initGuess_getFirst plan
  starting_false := initGuess_test plan

end NewContext

end Dmcs
