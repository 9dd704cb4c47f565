import Dmcs.Lib.BlockReading
import Mathlib.Algebra.Ring.Nat
import Mathlib.Data.Nat.Find
import Mathlib.Logic.Function.Iterate

/-!
# The client loop (`new_dmcsc`, `NewClient::handle_read_answer`)

The client wants `k2 - k1 + 1` belief states.  `handle_read_answer` asks on until its answers have
as many elements, repetitions of earlier answers included; then the main loop looks at the set it
has, and starts another round behind the window of its own last request, not behind the last request
of `handle_read_answer`.  It stops when the set is large enough or the running difference of its
sizes is zero.

A round reads the positions `reads size` from its start on; what all rounds see is `rounds`, and
`finds_iff` says for which lists that is right.

## The argument

The list of the server is fixed, and an answer has the elements of the positions it was asked for.
So the client is followed by its `rounds`: `BlockReading` says how far `handle_read_answer` reads
from a position until it has as many elements as it wants.

* The range of the next round starts behind the first range of the round before, so positions are
  read again that `handle_read_answer` has gone through already.
* The number of new elements is computed as the size of the set minus the last such number, and not
  minus the last size.  So it is zero only if the set stands still at once; after that the loop asks
  beyond the end of the list for ever.
* All positions are `size_t`, and a range that wraps fails an assertion.

`Suffices` is the condition on the list that results.
-/

namespace Dmcs

open BlockReading

namespace NewDmcsc

/-! ## The client -/

/-- The values of `std::size_t`. -/
def wordSize : ℕ := 2 ^ 64

/-- The range of positions that a message asks for. -/
structure Range where
  k1 : ℕ
  k2 : ℕ
  deriving DecidableEq

/-- `getPackSize`. -/
def Range.getPackSize (mess : Range) : ℕ :=
  if mess.k2 = 0 then 0 else (mess.k2 + wordSize - mess.k1 + 1) % wordSize

/-- What the client does: it waits for the answer to a request, `io_service.run` has come back, it
waits for the end of the connection, it has left its loop, or an assertion has failed. -/
inductive Phase
  | waiting
  | back
  | last
  | done
  | failed
  deriving DecidableEq

/-- The variables of the client; `mess` is the message of `NewClient`, `requests` are the ranges
asked for so far. -/
structure Client (α : Type*) where
  k1 : ℕ
  k2 : ℕ
  packSize : ℕ
  finalResult : Finset α
  diffCount : ℕ
  mess : Range
  requests : List Range
  phase : Phase

variable {α : Type*} [DecidableEq α]

/-- The client after it has sent its first request. -/
def Client.init (k1 k2 : ℕ) : Client α where
  k1 := k1
  k2 := k2
  packSize := if 0 < k1 then (k2 + wordSize - k1 + 1) % wordSize else 0
  finalResult := ∅
  diffCount := 0
  mess := ⟨k1, k2⟩
  requests := [⟨k1, k2⟩]
  phase := .waiting

/-- `setPackRequest`, with its assertion, and `send_header`. -/
def Client.send (c : Client α) (kOne kTwo : ℕ) : Client α :=
  if kOne ≤ kTwo then
    { c with
      mess := ⟨kOne, kTwo⟩
      requests := c.requests ++ [⟨kOne, kTwo⟩]
      phase := .waiting }
  else { c with phase := .failed }

/-- `handle_read_answer`, for a list without its end marker. -/
def Client.handleReadAnswer (loop : Bool) (c : Client α) (resultList : List α) : Client α :=
  if resultList.length = 0 then { c with phase := .back }
  else
    let packSize := c.mess.getPackSize
    if 0 < packSize ∧ packSize < resultList.length then { c with phase := .failed }
    else
      let nextK := if 0 < packSize then packSize - resultList.length else 0
      -- `handle_belief_states`
      let c := { c with finalResult := c.finalResult ∪ resultList.toFinset }
      if !loop then { c with phase := .back }
      else if nextK = 0 then { c with phase := .back }
      else c.send ((c.mess.k2 + 1) % wordSize) ((c.mess.k2 + nextK) % wordSize)

/-- The body of the loop of `main` after `io_service.run`, before the last round. -/
def Client.iterate (loop : Bool) (c : Client α) : Client α :=
  let size := c.finalResult.card % wordSize
  let diffCount := (size + wordSize - c.diffCount) % wordSize
  let c := { c with diffCount := diffCount }
  if !loop then { c with phase := .done }
  else if 0 < diffCount ∧ size < c.packSize then
    let leftToRequest := c.packSize - size
    let k1 := (c.k2 + 1) % wordSize
    let k2 := (k1 + leftToRequest) % wordSize
    { c with k1 := k1, k2 := k2 }.send k1 k2
  else { c with phase := .last }

/-- One step of the client with a server. -/
def step (server : ℕ → ℕ → List α) (loop : Bool) (c : Client α) : Client α :=
  match c.phase with
  | .waiting => c.handleReadAnswer loop (server c.mess.k1 c.mess.k2)
  | .back => c.iterate loop
  | .last => { c with phase := .done }
  | .done => c
  | .failed => c

/-- The server answers a range with the distinct elements at its positions, in some order. -/
structure Serves (server : ℕ → ℕ → List α) (L : List α) : Prop where
  nodup : ∀ a b, 1 ≤ a → a ≤ b → (server a b).Nodup
  elements : ∀ a b, 1 ≤ a → a ≤ b →
    (server a b).toFinset = ((L.drop (a - 1)).take (b - a + 1)).toFinset

/-- The request is a range of positions. -/
def Range.Valid (r : Range) : Prop := 1 ≤ r.k1 ∧ r.k1 ≤ r.k2

/-- The client leaves its loop, with the first distinct elements from position `k1` on, after it has
sent valid requests only; so no assertion has failed. -/
def Finds (server : ℕ → ℕ → List α) (L : List α) (k1 k2 : ℕ) : Prop :=
  ∃ n, ∃ c, (step server true)^[n] (Client.init k1 k2) = c ∧ c.phase = .done ∧
    c.finalResult = firstDistinct (k2 - k1 + 1) (L.drop (k1 - 1)) ∧ ∀ r ∈ c.requests, r.Valid

/-! ## What the rounds read -/

/-- A round of the main loop, over the list from `k1` on: the first position and the size of its
first range, and how far the list was read up to the end of the round. -/
structure Round where
  start : ℕ
  size : ℕ
  covered : ℕ

/-- The next round asks for one element more than is missing. -/
def Round.next (want : ℕ) (l : List α) (r : Round) : Round :=
  let start := r.start + r.size
  let size := want - (l.take r.covered).toFinset.card + 1
  ⟨start, size, max r.covered (start + reads size (l.drop start))⟩

/-- The rounds of a client that wants `want` elements. -/
def rounds (want : ℕ) (l : List α) : ℕ → Round
  | 0 => ⟨0, want, reads want l⟩
  | j + 1 => (rounds want l j).next want l

/-- The number of distinct elements seen up to the end of a round. -/
def seen (want : ℕ) (l : List α) (j : ℕ) : ℕ := (l.take (rounds want l j).covered).toFinset.card

/-- The last position that a round asks for is a word. -/
def Round.InWord (k1 : ℕ) (l : List α) (r : Round) : Prop :=
  k1 - 1 + r.start + reads r.size (l.drop r.start) < wordSize

/-- The condition on the list from `k1` on.  The first round sees all that is wanted, or all there
is (then a second round follows, unless there is nothing); or the second round sees something new
and a later one, the first that sees enough, does not see too much. -/
def Suffices (k1 want : ℕ) (l : List α) : Prop :=
  ∃ j, (∀ i ≤ j, (rounds want l i).InWord k1 l) ∧
    ((j = 0 ∧ (seen want l 0 = want ∨ l = [])) ∨
      (j = 1 ∧ seen want l 0 = l.toFinset.card ∧ seen want l 0 < want) ∨
      (1 ≤ j ∧ seen want l 0 < seen want l 1 ∧ (∀ i < j, seen want l i < want) ∧
        seen want l j = want))

/-! ## Requests -/

variable {server : ℕ → ℕ → List α} {L : List α} {c : Client α}

/-- An assertion has failed, or a request is not a range of positions. -/
def Client.Bad (c : Client α) : Prop := c.phase = .failed ∨ ∃ r ∈ c.requests, ¬ r.Valid

omit [DecidableEq α] in
lemma send_of_lt (c : Client α) {b next : ℕ} (hnext : 0 < next) (h : b + next < wordSize) :
    c.send ((b + 1) % wordSize) ((b + next) % wordSize) =
      { c with
        mess := ⟨b + 1, b + next⟩
        requests := c.requests ++ [⟨b + 1, b + next⟩]
        phase := .waiting } := by
  unfold Client.send
  rw [Nat.mod_eq_of_lt (by omega : b + 1 < wordSize), Nat.mod_eq_of_lt h,
    if_pos (by omega : b + 1 ≤ b + next)]

omit [DecidableEq α] in
/-- A range that leaves the words is no range: its first position is 0 or it is turned around. -/
lemma bad_send (c : Client α) {b next : ℕ} (hb : b < wordSize) (hnext : next < wordSize)
    (h : wordSize ≤ b + next) : (c.send ((b + 1) % wordSize) ((b + next) % wordSize)).Bad := by
  unfold Client.send
  by_cases hzero : b + 1 = wordSize
  · rw [hzero, Nat.mod_self, if_pos (Nat.zero_le _)]
    right
    refine ⟨⟨0, (b + next) % wordSize⟩, List.mem_append_right _ (List.mem_singleton_self _), ?_⟩
    exact fun hvalid => absurd hvalid.1 (Nat.not_succ_le_zero 0)
  · have hone : (b + 1) % wordSize = b + 1 := Nat.mod_eq_of_lt (by omega)
    have htwo : (b + next) % wordSize = b + next - wordSize := by
      rw [Nat.mod_eq_sub_mod h, Nat.mod_eq_of_lt (by omega)]
    rw [hone, htwo, if_neg (by omega)]
    exact Or.inl rfl

omit [DecidableEq α] in
/-- Requests are never taken back. -/
lemma send_requests (c : Client α) (kOne kTwo : ℕ) :
    ∀ r ∈ c.requests, r ∈ (c.send kOne kTwo).requests := by
  intro r hr
  unfold Client.send
  split
  · exact List.mem_append_left _ hr
  · exact hr

lemma step_requests (server : ℕ → ℕ → List α) (c : Client α) :
    ∀ r ∈ c.requests, r ∈ (step server true c).requests := by
  intro r hr
  unfold step
  split
  · unfold Client.handleReadAnswer
    split
    · exact hr
    · simp only [Bool.not_true, Bool.false_eq_true, if_false]
      split
      · exact hr
      · generalize (if 0 < c.mess.getPackSize then
          c.mess.getPackSize - (server c.mess.k1 c.mess.k2).length else 0) = nextK
        split
        · exact hr
        · exact send_requests _ _ _ r hr
  · unfold Client.iterate
    simp only
    split
    · exact hr
    · split
      · exact send_requests _ _ _ r hr
      · exact hr
  · exact hr
  · exact hr
  · exact hr

variable (server) in
lemma Client.Bad.step (h : c.Bad) : (step server true c).Bad := by
  rcases h with h | ⟨r, hr, hvalid⟩
  · left
    unfold NewDmcsc.step
    rw [h]
    exact h
  · exact Or.inr ⟨r, step_requests server c r hr, hvalid⟩

variable (server) in
lemma Client.Bad.iterate (h : c.Bad) (n : ℕ) : ((NewDmcsc.step server true)^[n] c).Bad := by
  induction n with
  | zero => exact h
  | succ n ih =>
      rw [Function.iterate_succ_apply']
      exact ih.step server

variable (server) in
lemma iterate_requests (c : Client α) (n : ℕ) :
    ∀ r ∈ c.requests, r ∈ ((step server true)^[n] c).requests := by
  induction n with
  | zero => exact fun r hr => hr
  | succ n ih =>
      intro r hr
      rw [Function.iterate_succ_apply']
      exact step_requests server _ r (ih r hr)

/-- The message that the client waits for is among its requests. -/
def Client.Recorded (c : Client α) : Prop := c.phase = .waiting → c.mess ∈ c.requests

omit [DecidableEq α] in
lemma recorded_send (c : Client α) (kOne kTwo : ℕ) : (c.send kOne kTwo).Recorded := by
  unfold Client.send Client.Recorded
  split
  · exact fun _ => List.mem_append_right _ (List.mem_singleton_self _)
  · intro hphase
    cases hphase

variable (server) in
lemma recorded_step (c : Client α) (h : c.Recorded) : (step server true c).Recorded := by
  unfold step
  split
  · unfold Client.handleReadAnswer
    split
    · intro hphase
      cases hphase
    · simp only [Bool.not_true, Bool.false_eq_true, if_false]
      split
      · intro hphase
        cases hphase
      · generalize (if 0 < c.mess.getPackSize then
          c.mess.getPackSize - (server c.mess.k1 c.mess.k2).length else 0) = nextK
        split
        · intro hphase
          cases hphase
        · exact recorded_send _ _ _
  · unfold Client.iterate
    simp only
    split
    · intro hphase
      cases hphase
    · split
      · exact recorded_send _ _ _
      · intro hphase
        cases hphase
  · intro hphase
    cases hphase
  · exact h
  · exact h

/-- Only the answers to the requests of a run matter to it. -/
lemma iterate_congr {server' : ℕ → ℕ → List α} {n : ℕ} :
    ∀ {c₀ : Client α}, c₀.Recorded → (step server' true)^[n] c₀ = c →
      (∀ r ∈ c.requests, server r.k1 r.k2 = server' r.k1 r.k2) →
        (step server true)^[n] c₀ = c := by
  induction n with
  | zero => exact fun _ hrun _ => hrun
  | succ n ih =>
      intro c₀ hrecorded hrun hsame
      have hstep : step server true c₀ = step server' true c₀ := by
        unfold step
        split
        · next hphase =>
            have hmem : c₀.mess ∈ c.requests := hrun ▸ iterate_requests server' c₀ (n + 1) _
              (hrecorded hphase)
            rw [hsame _ hmem]
        all_goals rfl
      rw [Function.iterate_succ_apply] at hrun ⊢
      rw [hstep]
      exact ih (recorded_step server' c₀ hrecorded) hrun hsame

variable (server) in
lemma step_done (h : c.phase = .done) : step server true c = c := by
  unfold step
  rw [h]

/-! ## One answer -/

section Answer

variable {i n : ℕ}

lemma getPackSize_eq (hn : i + n < wordSize) (hpos : 0 < n) :
    (⟨i + 1, i + n⟩ : Range).getPackSize = n := by
  have hsub : i + n + wordSize - (i + 1) + 1 = n + wordSize := by omega
  unfold Range.getPackSize
  rw [if_neg (by omega : ¬ i + n = 0)]
  show (i + n + wordSize - (i + 1) + 1) % wordSize = n
  rw [hsub, Nat.add_mod_right, Nat.mod_eq_of_lt (by omega)]

/-- An answer: the block is added, and the places that are still open are asked for. -/
lemma step_answer (hs : Serves server L) (hphase : c.phase = .waiting)
    (hmess : c.mess = ⟨i + 1, i + n⟩) (hpos : 0 < n) (hn : i + n < wordSize) :
    step server true c =
      if ((L.drop i).take n).toFinset.card = 0 then { c with phase := .back }
      else if n - ((L.drop i).take n).toFinset.card = 0 then
        { c with
          finalResult := c.finalResult ∪ ((L.drop i).take n).toFinset
          phase := .back }
      else
        { c with finalResult := c.finalResult ∪ ((L.drop i).take n).toFinset }.send
          ((i + n + 1) % wordSize)
          ((i + n + (n - ((L.drop i).take n).toFinset.card)) % wordSize) := by
  have helements := hs.elements (i + 1) (i + n) (by omega) (by omega)
  have hsize : i + n - (i + 1) + 1 = n := by omega
  rw [Nat.add_sub_cancel, hsize] at helements
  have hlength : (server (i + 1) (i + n)).length = ((L.drop i).take n).toFinset.card := by
    rw [← helements, List.toFinset_card_of_nodup (hs.nodup _ _ (by omega) (by omega))]
  have hle := card_take_le n (L.drop i)
  unfold step
  rw [hphase]
  show c.handleReadAnswer true (server c.mess.k1 c.mess.k2) = _
  unfold Client.handleReadAnswer
  rw [hmess, getPackSize_eq hn hpos]
  simp only [hlength, helements]
  by_cases hzero : ((L.drop i).take n).toFinset.card = 0
  · rw [if_pos hzero, if_pos hzero]
  · rw [if_neg hzero, if_neg hzero, if_neg (by omega), if_pos hpos]
    rfl

end Answer

/-! ## One round -/

/-- The client waits for the answer to the range of size `n` behind position `i`. -/
structure Asks (i n : ℕ) (c : Client α) : Prop where
  phase : c.phase = .waiting
  mess : c.mess = ⟨i + 1, i + n⟩
  size : 0 < n
  inWord : i + n < wordSize
  valid : ∀ r ∈ c.requests, r.Valid

/-- A round has ended; it added the given elements and asked for positions up to the given one. -/
structure Ended (found : Finset α) (last : ℕ) (c c' : Client α) : Prop where
  phase : c'.phase = .back
  k2 : c'.k2 = c.k2
  packSize : c'.packSize = c.packSize
  diffCount : c'.diffCount = c.diffCount
  finalResult : c'.finalResult = c.finalResult ∪ found
  valid : ∀ r ∈ c'.requests, r.Valid
  last_le : ∀ r ∈ c'.requests, r ∈ c.requests ∨ r.k2 ≤ last

omit [DecidableEq α] in
lemma Asks.send {c : Client α} {b next : ℕ} (hvalid : ∀ r ∈ c.requests, r.Valid)
    (hnext : 0 < next) (h : b + next < wordSize) :
    Asks b next (c.send ((b + 1) % wordSize) ((b + next) % wordSize)) := by
  rw [send_of_lt c hnext h]
  refine ⟨rfl, rfl, hnext, h, ?_⟩
  intro r hr
  rcases List.mem_append.1 hr with hr | hr
  · exact hvalid r hr
  · rw [List.mem_singleton.1 hr]
    exact ⟨Nat.le_add_left 1 b, Nat.add_le_add_left hnext b⟩

/-- A round reads `reads n` positions, or asks for a range that leaves the words. -/
lemma round_cases (hs : Serves server L) {n : ℕ} : ∀ {i : ℕ} {c : Client α}, Asks i n c →
    (i + reads n (L.drop i) < wordSize ∧ ∃ m, 0 < m ∧
      Ended ((L.drop i).take (reads n (L.drop i))).toFinset (i + reads n (L.drop i)) c
        ((step server true)^[m] c)) ∨
    (wordSize ≤ i + reads n (L.drop i) ∧ ∃ m, ((step server true)^[m] c).Bad) := by
  -- strong induction on the places that are open: a block with something in it closes some of them
  induction n using Nat.strongRecOn with
  | ind n ih =>
      intro i c hc
      have hstep := step_answer hs hc.phase hc.mess hc.size hc.inWord
      have hle := card_take_le n (L.drop i)
      have hin := hc.inWord
      by_cases hzero : ((L.drop i).take n).toFinset.card = 0
      · -- the block is empty
        left
        rw [if_pos hzero] at hstep
        rw [reads_of_empty hzero, Finset.card_eq_zero.1 hzero]
        refine ⟨hin, 1, Nat.one_pos, ?_⟩
        rw [Function.iterate_one, hstep]
        exact ⟨rfl, rfl, rfl, rfl, (Finset.union_empty _).symm, hc.valid, fun r hr => Or.inl hr⟩
      · rw [if_neg hzero] at hstep
        rw [reads_of_found hzero]
        by_cases hfull : n - ((L.drop i).take n).toFinset.card = 0
        · -- no place is open
          left
          rw [if_pos hfull] at hstep
          rw [hfull, reads_zero, Nat.add_zero]
          refine ⟨hin, 1, Nat.one_pos, ?_⟩
          rw [Function.iterate_one, hstep]
          exact ⟨rfl, rfl, rfl, rfl, rfl, hc.valid, fun r hr => Or.inl hr⟩
        · rw [if_neg hfull] at hstep
          set rest := n - ((L.drop i).take n).toFinset.card with hrest
          have hdrop : (L.drop i).drop n = L.drop (i + n) := List.drop_drop
          have hassoc : i + (n + reads rest (L.drop (i + n))) =
              i + n + reads rest (L.drop (i + n)) := (Nat.add_assoc _ _ _).symm
          rw [hdrop, hassoc]
          by_cases hword : i + n + rest < wordSize
          · have hasks : Asks (i + n) rest (step server true c) := by
              rw [hstep]
              exact Asks.send hc.valid (by omega) hword
            rcases ih rest (by omega) hasks with ⟨hlt, m, -, hended⟩ | ⟨hge, m, hbad⟩
            · left
              refine ⟨hlt, m + 1, Nat.succ_pos m, ?_⟩
              rw [Function.iterate_succ_apply]
              rw [hstep, send_of_lt _ (by omega) hword] at hended ⊢
              refine ⟨hended.phase, hended.k2, hended.packSize, hended.diffCount, ?_, hended.valid,
                fun r hr => ?_⟩
              · rw [hended.finalResult, toFinset_take_add, hdrop, Finset.union_assoc]
              · rcases hended.last_le r hr with hr | hr
                · rcases List.mem_append.1 hr with hr | hr
                  · exact Or.inl hr
                  · rw [List.mem_singleton.1 hr]
                    exact Or.inr (Nat.add_le_add_left (le_reads rest (L.drop (i + n))) (i + n))
                · exact Or.inr hr
            · right
              refine ⟨hge, m + 1, ?_⟩
              rw [Function.iterate_succ_apply]
              exact hbad
          · right
            have hreads := le_reads rest (L.drop (i + n))
            refine ⟨by omega, 1, ?_⟩
            rw [Function.iterate_one, hstep]
            exact bad_send _ hin (by omega) (by omega)

/-! ## The main loop -/

section Rounds

variable {want : ℕ} {l : List α} {k1 j : ℕ}

lemma start_add_reads_le (want : ℕ) (l : List α) (j : ℕ) :
    (rounds want l j).start + reads (rounds want l j).size (l.drop (rounds want l j).start) ≤
      (rounds want l j).covered := by
  cases j with
  | zero => exact le_of_eq (Nat.zero_add _)
  | succ j => exact le_max_right _ _

/-- A round begins inside what was read before. -/
lemma start_succ_le (want : ℕ) (l : List α) (j : ℕ) :
    (rounds want l (j + 1)).start ≤ (rounds want l j).covered := by
  have hreads := le_reads (rounds want l j).size (l.drop (rounds want l j).start)
  have hcovered := start_add_reads_le want l j
  show (rounds want l j).start + (rounds want l j).size ≤ _
  omega

lemma seen_mono (want : ℕ) (l : List α) : Monotone (seen want l) := by
  apply monotone_nat_of_le_succ
  intro j
  apply Finset.card_le_card
  intro x hx
  rw [List.mem_toFinset] at hx ⊢
  exact List.take_subset_take_left _ (le_max_left _ _) hx

/-- What was read lies inside the words, if all rounds do. -/
lemma covered_lt (h : ∀ i ≤ j, (rounds want l i).InWord k1 l) :
    (rounds want l j).covered < wordSize := by
  induction j with
  | zero =>
      have h0 : k1 - 1 + 0 + reads want l < wordSize := h 0 (Nat.le_refl 0)
      show reads want l < wordSize
      omega
  | succ j ih =>
      have hprev := ih (fun i hi => h i (Nat.le_succ_of_le hi))
      have hlast := h (j + 1) (Nat.le_refl _)
      unfold Round.InWord at hlast
      apply max_lt hprev
      show (rounds want l (j + 1)).start + reads (rounds want l (j + 1)).size
        (l.drop (rounds want l (j + 1)).start) < wordSize
      omega

lemma seen_lt (h : ∀ i ≤ j, (rounds want l i).InWord k1 l) : seen want l j < wordSize :=
  lt_of_le_of_lt (card_take_le _ l) (covered_lt h)

/-- The difference that the main loop has computed in the round before. -/
def lastDifference (s : ℕ → ℕ) : ℕ → ℕ
  | 0 => 0
  | j + 1 => difference s j

lemma difference_eq (s : ℕ → ℕ) (j : ℕ) : difference s j = s j - lastDifference s j := by
  cases j with
  | zero => exact (Nat.sub_zero _).symm
  | succ j => rfl

lemma lastDifference_le (want : ℕ) (l : List α) (j : ℕ) :
    lastDifference (seen want l) j ≤ seen want l j := by
  cases j with
  | zero => exact Nat.zero_le _
  | succ j => exact (difference_le _ j).trans (seen_mono want l (Nat.le_succ j))

/-- The client goes on after round `j`. -/
def Continues (want : ℕ) (l : List α) (j : ℕ) : Prop :=
  0 < difference (seen want l) j ∧ seen want l j < want

/-- The requests of the first rounds end where these rounds stop reading. -/
def EndsInRounds (k1 want : ℕ) (l : List α) (j : ℕ) (requests : List Range) : Prop :=
  ∀ r ∈ requests, ∃ i ≤ j, r.k2 ≤ k1 - 1 + (rounds want l i).start +
    reads (rounds want l i).size (l.drop (rounds want l i).start)

lemma EndsInRounds.succ {requests : List Range} (h : EndsInRounds k1 want l j requests) :
    EndsInRounds k1 want l (j + 1) requests := by
  intro r hr
  obtain ⟨i, hi, hle⟩ := h r hr
  exact ⟨i, Nat.le_succ_of_le hi, hle⟩

/-- The client at the end of round `j`. -/
structure AtEnd (k1 want : ℕ) (l : List α) (j : ℕ) (c : Client α) : Prop where
  phase : c.phase = .back
  k2 : c.k2 = k1 - 1 + (rounds want l j).start + (rounds want l j).size
  packSize : c.packSize = want
  diffCount : c.diffCount = lastDifference (seen want l) j
  finalResult : c.finalResult = (l.take (rounds want l j).covered).toFinset
  valid : ∀ r ∈ c.requests, r.Valid
  ends : EndsInRounds k1 want l j c.requests

variable (server) in
/-- The main loop after round `j`. -/
lemma AtEnd.step (h : AtEnd k1 want l j c) (hseen : seen want l j < wordSize) :
    ∃ c₁ : Client α, c₁.requests = c.requests ∧ c₁.finalResult = c.finalResult ∧
      c₁.packSize = want ∧ c₁.diffCount = difference (seen want l) j ∧
      ((Continues want l j ∧ c₁.k2 = (c.k2 + (rounds want l (j + 1)).size) % wordSize ∧
        NewDmcsc.step server true c = c₁.send ((c.k2 + 1) % wordSize)
          ((c.k2 + (rounds want l (j + 1)).size) % wordSize)) ∨
        (¬ Continues want l j ∧ NewDmcsc.step server true c = { c₁ with phase := .last })) := by
  have hcard : c.finalResult.card = seen want l j := by
    rw [h.finalResult]
    rfl
  have hle := lastDifference_le want l j
  have hdiff : (seen want l j + wordSize - c.diffCount) % wordSize =
      difference (seen want l) j := by
    have hsub : seen want l j + wordSize - c.diffCount =
        seen want l j - lastDifference (seen want l) j + wordSize := by
      rw [h.diffCount]
      omega
    rw [hsub, Nat.add_mod_right, Nat.mod_eq_of_lt (by omega), difference_eq]
  have hstep : NewDmcsc.step server true c = c.iterate true := by
    unfold NewDmcsc.step
    rw [h.phase]
  unfold Client.iterate at hstep
  simp only [Bool.not_true, Bool.false_eq_true, if_false] at hstep
  rw [hcard, Nat.mod_eq_of_lt hseen, hdiff, h.packSize] at hstep
  by_cases hcont : 0 < difference (seen want l) j ∧ seen want l j < want
  · have hsize : ((c.k2 + 1) % wordSize + (want - seen want l j)) % wordSize =
        (c.k2 + (rounds want l (j + 1)).size) % wordSize := by
      have hnext : c.k2 + (rounds want l (j + 1)).size = c.k2 + 1 + (want - seen want l j) := by
        show c.k2 + (want - seen want l j + 1) = _
        omega
      rw [hnext, Nat.mod_add_mod]
    rw [if_pos hcont, hsize] at hstep
    exact ⟨{ c with
      k1 := (c.k2 + 1) % wordSize
      k2 := (c.k2 + (rounds want l (j + 1)).size) % wordSize
      packSize := want
      diffCount := difference (seen want l) j }, rfl, rfl, rfl, rfl, Or.inl ⟨hcont, rfl, hstep⟩⟩
  · rw [if_neg hcont] at hstep
    exact ⟨{ c with packSize := want, diffCount := difference (seen want l) j }, rfl, rfl, rfl, rfl,
      Or.inr ⟨hcont, hstep⟩⟩

omit [DecidableEq α] in
/-- The first request. -/
lemma asks_init (hk1 : 1 ≤ k1) {k2 : ℕ} (hk2 : k1 ≤ k2) (hword : k2 < wordSize) :
    Asks (k1 - 1) (k2 - k1 + 1) (Client.init k1 k2 : Client α) := by
  refine ⟨rfl, ?_, Nat.succ_pos _, by omega, ?_⟩
  · show (⟨k1, k2⟩ : Range) = _
    rw [Range.mk.injEq]
    omega
  · intro r hr
    rw [List.mem_singleton.1 hr]
    exact ⟨hk1, hk2⟩

/-- A further round that has ended. -/
lemma Ended.atEnd {c' : Client α} {i : ℕ} (hdrop : L.drop i = l.drop (rounds want l (j + 1)).start)
    {last : ℕ} (h : Ended ((L.drop i).take (reads (rounds want l (j + 1)).size
      (L.drop i))).toFinset last c c')
    (hlast : last ≤ k1 - 1 + (rounds want l (j + 1)).start +
      reads (rounds want l (j + 1)).size (l.drop (rounds want l (j + 1)).start))
    (hends : EndsInRounds k1 want l (j + 1) c.requests)
    (hk2 : c.k2 = k1 - 1 + (rounds want l (j + 1)).start + (rounds want l (j + 1)).size)
    (hpack : c.packSize = want) (hdiff : c.diffCount = difference (seen want l) j)
    (hfinal : c.finalResult = (l.take (rounds want l j).covered).toFinset) :
    AtEnd k1 want l (j + 1) c' := by
  refine ⟨h.phase, h.k2.trans hk2, h.packSize.trans hpack, h.diffCount.trans hdiff, ?_, h.valid,
    fun r hr => ?_⟩
  · rw [h.finalResult, hfinal, hdrop, toFinset_take_union (start_succ_le want l j)]
    rfl
  · rcases h.last_le r hr with hr | hr
    · exact hends r hr
    · exact ⟨j + 1, Nat.le_refl _, hr.trans hlast⟩

/-- After a round that goes on the client asks for the first range of the next one, or for a range
that leaves the words. -/
lemma AtEnd.next (hs : Serves server L) (hl : l = L.drop (k1 - 1)) (h : AtEnd k1 want l j c)
    (hword : c.k2 < wordSize) (hseen : seen want l j < wordSize) (hwant : want < wordSize)
    (hcont : Continues want l j) :
    ((rounds want l (j + 1)).InWord k1 l ∧
      ∃ m, 0 < m ∧ AtEnd k1 want l (j + 1) ((NewDmcsc.step server true)^[m] c)) ∨
    (¬ (rounds want l (j + 1)).InWord k1 l ∧
      ∃ m, ((NewDmcsc.step server true)^[m] c).Bad) := by
  obtain ⟨c₁, hrequests, hfinal, hpack, hdiff, ⟨-, hk2, hstep⟩ | ⟨hno, -⟩⟩ :=
    h.step server hseen
  · have hstart : c.k2 = k1 - 1 + (rounds want l (j + 1)).start := by
      rw [h.k2]
      exact Nat.add_assoc _ _ _
    have hpos : 0 < (rounds want l (j + 1)).size := Nat.succ_pos _
    have hdrop : L.drop c.k2 = l.drop (rounds want l (j + 1)).start := by
      rw [hstart, ← List.drop_drop, ← hl]
    have hreads := le_reads (rounds want l (j + 1)).size (l.drop (rounds want l (j + 1)).start)
    unfold Round.InWord
    rw [← hstart]
    -- the next range lies inside the words, and the round reads it, or the client stops at it
    by_cases hlt : c.k2 + (rounds want l (j + 1)).size < wordSize
    · have hasks : Asks c.k2 (rounds want l (j + 1)).size (NewDmcsc.step server true c) := by
        rw [hstep]
        exact Asks.send (hrequests ▸ h.valid) hpos hlt
      rcases round_cases hs hasks with ⟨hin, m, -, hended⟩ | ⟨hout, m, hbad⟩
      · left
        rw [hdrop] at hin
        refine ⟨hin, m + 1, Nat.succ_pos m, ?_⟩
        rw [Function.iterate_succ_apply]
        apply hended.atEnd hdrop
        · rw [hdrop, ← hstart]
        · rw [hstep, send_of_lt _ hpos hlt]
          intro r hr
          rcases List.mem_append.1 hr with hr | hr
          · exact h.ends.succ r (hrequests ▸ hr)
          · rw [List.mem_singleton.1 hr]
            refine ⟨j + 1, Nat.le_refl _, ?_⟩
            rw [← hstart]
            exact Nat.add_le_add_left hreads c.k2
        · rw [hstep, send_of_lt _ hpos hlt]
          exact (hk2.trans (Nat.mod_eq_of_lt hlt)).trans (by rw [← hstart])
        · rw [hstep, send_of_lt _ hpos hlt]
          exact hpack
        · rw [hstep, send_of_lt _ hpos hlt]
          exact hdiff
        · rw [hstep, send_of_lt _ hpos hlt]
          exact hfinal.trans h.finalResult
      · right
        rw [hdrop] at hout
        refine ⟨Nat.not_lt.2 hout, m + 1, ?_⟩
        rw [Function.iterate_succ_apply]
        exact hbad
    · right
      have hsize : (rounds want l (j + 1)).size < wordSize := by
        have hpositive := lt_of_lt_of_le hcont.1 (difference_le (seen want l) j)
        show want - seen want l j + 1 < wordSize
        omega
      refine ⟨by omega, 1, ?_⟩
      rw [Function.iterate_one, hstep]
      exact bad_send c₁ hword hsize (Nat.le_of_not_lt hlt)
  · exact absurd hcont hno

/-- The first position behind the first range of a round is a word. -/
lemma AtEnd.k2_lt (h : AtEnd k1 want l j c) (hin : (rounds want l j).InWord k1 l) :
    c.k2 < wordSize := by
  have hreads := le_reads (rounds want l j).size (l.drop (rounds want l j).start)
  unfold Round.InWord at hin
  rw [h.k2]
  omega

variable {k2 : ℕ}

/-- The client comes to the end of every round before which it went on, as long as the rounds are
inside the words. -/
lemma reaches_round (hs : Serves server L) (hk1 : 1 ≤ k1) (hk2 : k1 ≤ k2) (hword : k2 < wordSize)
    (hwant : want = k2 - k1 + 1) (hl : l = L.drop (k1 - 1))
    (hin : ∀ i ≤ j, (rounds want l i).InWord k1 l) (hcont : ∀ i < j, Continues want l i) :
    ∃ m, j ≤ m ∧ AtEnd k1 want l j ((step server true)^[m] (Client.init k1 k2)) := by
  induction j with
  | zero =>
      have hasks : Asks (k1 - 1) want (Client.init k1 k2 : Client α) :=
        hwant ▸ asks_init hk1 hk2 hword
      have hzero : k1 - 1 + 0 + reads want l < wordSize := hin 0 (Nat.le_refl 0)
      rcases round_cases hs hasks with ⟨-, m, -, hended⟩ | ⟨hout, -⟩
      · refine ⟨m, Nat.zero_le m, hended.phase, ?_, ?_, hended.diffCount, ?_, hended.valid, ?_⟩
        · rw [hended.k2]
          show k2 = k1 - 1 + 0 + want
          omega
        · rw [hended.packSize]
          show (if 0 < k1 then (k2 + wordSize - k1 + 1) % wordSize else 0) = want
          have hsub : k2 + wordSize - k1 + 1 = want + wordSize := by omega
          rw [if_pos (by omega), hsub, Nat.add_mod_right, Nat.mod_eq_of_lt (by omega)]
        · rw [hended.finalResult, ← hl]
          exact Finset.empty_union _
        · have hreads := le_reads want l
          have hend : k1 - 1 + 0 + reads want l = k1 - 1 + reads want l := rfl
          intro r hr
          refine ⟨0, Nat.le_refl 0, ?_⟩
          show r.k2 ≤ k1 - 1 + 0 + reads want l
          rcases hended.last_le r hr with hr | hr
          · rw [List.mem_singleton.1 hr]
            show k2 ≤ _
            omega
          · rw [hl]
            exact hr
      · rw [← hl] at hout
        omega
  | succ j ih =>
      obtain ⟨m, hm, hend⟩ := ih (fun i hi => hin i (Nat.le_succ_of_le hi))
        (fun i hi => hcont i (Nat.lt_succ_of_lt hi))
      have hseen : seen want l j < wordSize := seen_lt (fun i hi => hin i (Nat.le_succ_of_le hi))
      rcases hend.next hs hl (hend.k2_lt (hin j (Nat.le_succ j))) hseen (by omega)
        (hcont j (Nat.lt_succ_self j)) with ⟨-, m', hm', hnext⟩ | ⟨hout, -⟩
      · refine ⟨m' + m, by omega, ?_⟩
        rw [Function.iterate_add_apply]
        exact hnext
      · exact absurd (hin (j + 1) (Nat.le_refl _)) hout

/-- Otherwise it asks for a range that is none. -/
lemma reaches_bad (hs : Serves server L) (hk1 : 1 ≤ k1) (hk2 : k1 ≤ k2) (hword : k2 < wordSize)
    (hwant : want = k2 - k1 + 1) (hl : l = L.drop (k1 - 1))
    (hin : ∀ i < j, (rounds want l i).InWord k1 l) (hout : ¬ (rounds want l j).InWord k1 l)
    (hcont : ∀ i < j, Continues want l i) :
    ∃ m, ((step server true)^[m] (Client.init k1 k2 : Client α)).Bad := by
  cases j with
  | zero =>
      have hasks : Asks (k1 - 1) want (Client.init k1 k2 : Client α) :=
        hwant ▸ asks_init hk1 hk2 hword
      have hzero : ¬ k1 - 1 + 0 + reads want l < wordSize := hout
      rcases round_cases hs hasks with ⟨hlt, -⟩ | ⟨-, m, hbad⟩
      · rw [← hl] at hlt
        omega
      · exact ⟨m, hbad⟩
  | succ j =>
      obtain ⟨m, -, hend⟩ := reaches_round hs hk1 hk2 hword hwant hl
        (fun i hi => hin i (Nat.lt_succ_of_le hi)) (fun i hi => hcont i (Nat.lt_succ_of_lt hi))
      have hseen : seen want l j < wordSize := seen_lt (fun i hi => hin i (Nat.lt_succ_of_le hi))
      rcases hend.next hs hl (hend.k2_lt (hin j (Nat.lt_succ_self j))) hseen (by omega)
        (hcont j (Nat.lt_succ_self j)) with ⟨hlt, -⟩ | ⟨-, m', hbad⟩
      · exact absurd hlt hout
      · refine ⟨m' + m, ?_⟩
        rw [Function.iterate_add_apply]
        exact hbad

/-- The client leaves the loop after the first round that does not go on, with what it has seen. -/
lemma reaches_done (hs : Serves server L) (hk1 : 1 ≤ k1) (hk2 : k1 ≤ k2) (hword : k2 < wordSize)
    (hwant : want = k2 - k1 + 1) (hl : l = L.drop (k1 - 1))
    (hin : ∀ i ≤ j, (rounds want l i).InWord k1 l) (hcont : ∀ i < j, Continues want l i)
    (hstop : ¬ Continues want l j) :
    ∃ m c, (step server true)^[m] (Client.init k1 k2) = c ∧ c.phase = .done ∧
      c.finalResult = (l.take (rounds want l j).covered).toFinset ∧ (∀ r ∈ c.requests, r.Valid) ∧
        EndsInRounds k1 want l j c.requests := by
  obtain ⟨m, -, hend⟩ := reaches_round hs hk1 hk2 hword hwant hl hin hcont
  obtain ⟨c₁, hrequests, hfinal, -, -, ⟨hyes, -⟩ | ⟨-, hstep⟩⟩ :=
    hend.step server (seen_lt hin)
  · exact absurd hyes hstop
  · refine ⟨2 + m, { c₁ with phase := .done }, ?_, rfl, hfinal.trans hend.finalResult, ?_, ?_⟩
    · rw [Function.iterate_add_apply, Function.iterate_succ_apply, hstep]
      rfl
    · rw [hrequests]
      exact hend.valid
    · rw [hrequests]
      exact hend.ends

end Rounds

/-! ## For which lists the client is right -/

section Main

variable {want k1 k2 j : ℕ} {l : List α}

lemma seen_le (want : ℕ) (l : List α) (j : ℕ) : seen want l j ≤ l.toFinset.card := by
  apply Finset.card_le_card
  intro x hx
  rw [List.mem_toFinset] at hx ⊢
  exact List.mem_of_mem_take hx

/-- The first round sees something, if there is anything. -/
lemma eq_nil_of_seen (hwant : 0 < want) (h : seen want l 0 = 0) : l = [] := by
  have hempty : l.take (reads want l) = [] := by
    rw [← List.toFinset_eq_empty_iff]
    exact Finset.card_eq_zero.1 h
  have hreads := le_reads want l
  rcases List.take_eq_nil_iff.1 hempty with hzero | hnil
  · omega
  · exact hnil

/-- A client that has left its loop sends nothing any more, and nothing bad has happened. -/
lemma not_bad_of_done {n m : ℕ} {c₀ : Client α} (hn : (step server true)^[n] c₀ = c)
    (hdone : c.phase = .done) (hvalid : ∀ r ∈ c.requests, r.Valid) :
    ¬ ((step server true)^[m] c₀).Bad := by
  intro hbad
  have hlate := hbad.iterate server n
  rw [← Function.iterate_add_apply, Nat.add_comm, Function.iterate_add_apply, hn,
    Function.iterate_fixed (step_done server hdone)] at hlate
  rcases hlate with hfailed | ⟨r, hr, hinvalid⟩
  · rw [hdone] at hfailed
    cases hfailed
  · exact hinvalid (hvalid r hr)

/-- What the client has after the last round is right if it is as much as there should be. -/
lemma finds_iff_seen (hs : Serves server L) (hk1 : 1 ≤ k1) (hk2 : k1 ≤ k2) (hword : k2 < wordSize)
    (hwant : want = k2 - k1 + 1) (hl : l = L.drop (k1 - 1))
    (hin : ∀ i ≤ j, (rounds want l i).InWord k1 l) (hcont : ∀ i < j, Continues want l i)
    (hstop : ¬ Continues want l j) :
    Finds server L k1 k2 ↔ seen want l j = min want l.toFinset.card := by
  obtain ⟨m, c, hm, hdone, hfinal, hvalid, -⟩ :=
    reaches_done hs hk1 hk2 hword hwant hl hin hcont hstop
  have hiff := toFinset_take_eq_iff want (rounds want l j).covered l
  rw [← hfinal] at hiff
  have hseen : c.finalResult.card = seen want l j := by
    rw [hfinal]
    rfl
  rw [hseen] at hiff
  rw [← hiff]
  unfold Finds
  rw [← hwant, ← hl]
  constructor
  · rintro ⟨n, c', hn, hdone', hfinal', -⟩
    have hsame : c = c' := by
      rw [← Function.iterate_fixed (step_done server hdone) n, ← hm,
        ← Function.iterate_add_apply, Nat.add_comm, Function.iterate_add_apply, hn,
        Function.iterate_fixed (step_done server hdone')]
    rw [hsame]
    exact hfinal'
  · intro h
    exact ⟨m, c, hm, hdone, h, hvalid⟩

/-- A client that is right keeps its rounds inside the words while it goes on. -/
lemma inWord_of_finds (hs : Serves server L) (hk1 : 1 ≤ k1) (hk2 : k1 ≤ k2) (hword : k2 < wordSize)
    (hwant : want = k2 - k1 + 1) (hl : l = L.drop (k1 - 1)) (hfinds : Finds server L k1 k2)
    (hcont : ∀ i < j, Continues want l i) : ∀ i ≤ j, (rounds want l i).InWord k1 l := by
  obtain ⟨n, c, hn, hdone, -, hvalid⟩ := hfinds
  by_contra hout
  simp only [not_forall] at hout
  obtain ⟨i, hi, hout⟩ := hout
  have hex : ∃ i, ¬ (rounds want l i).InWord k1 l := ⟨i, hout⟩
  classical
  have hle : Nat.find hex ≤ i := Nat.find_min' hex hout
  obtain ⟨m, hbad⟩ := reaches_bad (j := Nat.find hex) hs hk1 hk2 hword hwant hl
    (fun i' hi' => not_not.1 (Nat.find_min hex hi')) (Nat.find_spec hex)
    (fun i' hi' => hcont i' (by omega))
  exact not_bad_of_done hn hdone hvalid hbad

/-- The client does not go on for ever. -/
lemma exists_stop_of_finds (hs : Serves server L) (hk1 : 1 ≤ k1) (hk2 : k1 ≤ k2)
    (hword : k2 < wordSize) (hwant : want = k2 - k1 + 1) (hl : l = L.drop (k1 - 1))
    (hfinds : Finds server L k1 k2) : ∃ j, ¬ Continues want l j := by
  by_contra hnone
  simp only [not_exists, not_not] at hnone
  have hin : ∀ i ≤ hfinds.choose, (rounds want l i).InWord k1 l :=
    inWord_of_finds hs hk1 hk2 hword hwant hl hfinds (fun i _ => hnone i)
  obtain ⟨m, hm, hend⟩ := reaches_round hs hk1 hk2 hword hwant hl hin (fun i _ => hnone i)
  obtain ⟨c, hn, hdone, -⟩ := hfinds.choose_spec
  have hsame : (step server true)^[m] (Client.init k1 k2) = c := by
    rw [← Nat.sub_add_cancel hm, Function.iterate_add_apply, hn,
      Function.iterate_fixed (step_done server hdone)]
  have hback := hend.phase
  rw [hsame, hdone] at hback
  cases hback

/-- Where a client that is right stops, its rounds suffice. -/
lemma suffices_of_finds (hs : Serves server L) (hk1 : 1 ≤ k1) (hk2 : k1 ≤ k2)
    (hword : k2 < wordSize) (hwant : want = k2 - k1 + 1) (hl : l = L.drop (k1 - 1))
    (hfinds : Finds server L k1 k2) : Suffices k1 want l := by
  have hpos : 0 < want := by omega
  classical
  have hex := exists_stop_of_finds hs hk1 hk2 hword hwant hl hfinds
  obtain ⟨j, hj⟩ : ∃ j, j = Nat.find hex := ⟨_, rfl⟩
  have hstop : ¬ Continues want l j := hj ▸ Nat.find_spec hex
  have hcont : ∀ i < j, Continues want l i :=
    fun i hi => not_not.1 (Nat.find_min hex (hj ▸ hi))
  have hin := inWord_of_finds hs hk1 hk2 hword hwant hl hfinds hcont
  rw [finds_iff_seen hs hk1 hk2 hword hwant hl hin hcont hstop] at hfinds
  refine ⟨j, hin, ?_⟩
  rcases Nat.eq_zero_or_pos j with rfl | hj'
  · left
    refine ⟨rfl, ?_⟩
    by_cases hzero : seen want l 0 = 0
    · exact Or.inr (eq_nil_of_seen hpos hzero)
    · left
      by_contra hne
      exact hstop ⟨Nat.pos_of_ne_zero hzero, by omega⟩
  · right
    obtain ⟨hstart, hlt⟩ := hcont 0 hj'
    have hmono := seen_mono want l (Nat.zero_le 1)
    by_cases hrises : seen want l 0 < seen want l 1
    · right
      have hdiff := difference_pos (seen_mono want l) hstart hrises j
      have hfull : want ≤ seen want l j := Nat.le_of_not_lt (fun h => hstop ⟨hdiff, h⟩)
      exact ⟨hj', hrises, fun i hi => (hcont i hi).2, by omega⟩
    · -- the second round sees nothing new, and is the last
      left
      have hone : j = 1 := by
        by_contra hne
        have hsub : 0 < seen want l 1 - seen want l 0 := (hcont 1 (by omega)).1
        omega
      rw [hone] at hfinds ⊢
      exact ⟨rfl, by omega, hlt⟩

/-- The first round is the last one. -/
lemma seen_eq_min_of_first (hfirst : seen want l 0 = want ∨ l = []) :
    ¬ Continues want l 0 ∧ seen want l 0 = min want l.toFinset.card := by
  have hle := seen_le want l 0
  rcases hfirst with hfull | rfl
  · rw [hfull] at hle ⊢
    refine ⟨?_, (min_eq_left hle).symm⟩
    rintro ⟨-, hlt⟩
    omega
  · rw [Nat.eq_zero_of_le_zero hle]
    refine ⟨?_, (min_eq_right (Nat.zero_le want)).symm⟩
    rintro ⟨hdiff, -⟩
    exact absurd hdiff (Nat.not_lt.2 hle)

lemma finds_of_suffices (hs : Serves server L) (hk1 : 1 ≤ k1) (hk2 : k1 ≤ k2)
    (hword : k2 < wordSize) (hwant : want = k2 - k1 + 1) (hl : l = L.drop (k1 - 1))
    (h : Suffices k1 want l) : Finds server L k1 k2 := by
  have hpos : 0 < want := by omega
  have hrefl : ∀ i < 0, Continues want l i := fun i hi => absurd hi (Nat.not_lt_zero i)
  obtain ⟨j, hin, ⟨rfl, hfirst⟩ | ⟨rfl, hall, hlt⟩ | ⟨hj, hrises, hbelow, hexact⟩⟩ := h
  · obtain ⟨hstop, hseen⟩ := seen_eq_min_of_first hfirst
    exact (finds_iff_seen hs hk1 hk2 hword hwant hl hin hrefl hstop).2 hseen
  · have hle := seen_le want l 1
    have hmono := seen_mono want l (Nat.zero_le 1)
    have hmin : min want l.toFinset.card = l.toFinset.card := min_eq_right (by omega)
    by_cases hzero : seen want l 0 = 0
    · have hstop : ¬ Continues want l 0 := by
        rintro ⟨hdiff, -⟩
        exact absurd hdiff (Nat.not_lt.2 (le_of_eq hzero))
      rw [finds_iff_seen hs hk1 hk2 hword hwant hl (fun i hi => hin i (by omega)) hrefl hstop,
        hmin]
      exact hall
    · have hstop : ¬ Continues want l 1 := by
        rintro ⟨hdiff, -⟩
        have hsub : 0 < seen want l 1 - seen want l 0 := hdiff
        omega
      have hcont : ∀ i < 1, Continues want l i := by
        intro i hi
        rw [Nat.lt_one_iff.1 hi]
        exact ⟨Nat.pos_of_ne_zero hzero, hlt⟩
      rw [finds_iff_seen hs hk1 hk2 hword hwant hl hin hcont hstop, hmin]
      omega
  · have hstart : 0 < seen want l 0 := by
      apply Nat.pos_of_ne_zero
      intro hzero
      rw [eq_nil_of_seen hpos hzero] at hrises
      exact absurd hrises (Nat.not_lt.2 ((seen_le want [] 1).trans (Nat.zero_le _)))
    have hcont : ∀ i < j, Continues want l i :=
      fun i hi => ⟨difference_pos (seen_mono want l) hstart hrises i, hbelow i hi⟩
    have hstop : ¬ Continues want l j := by
      rintro ⟨-, hlt⟩
      omega
    have hle := seen_le want l j
    rw [finds_iff_seen hs hk1 hk2 hword hwant hl hin hcont hstop, hexact]
    rw [hexact] at hle
    exact (min_eq_left hle).symm

/-- The client of a server that answers with the distinct elements of a range is right exactly for
the lists for which its rounds suffice.  The rounds are a pure function of the list, so the
right-hand side is about the list alone; the client is led through them round by round. -/
theorem finds_iff (hs : Serves server L) (hk1 : 1 ≤ k1) (hk2 : k1 ≤ k2) (hword : k2 < wordSize) :
    Finds server L k1 k2 ↔ Suffices k1 (k2 - k1 + 1) (L.drop (k1 - 1)) :=
  ⟨suffices_of_finds hs hk1 hk2 hword rfl rfl, finds_of_suffices hs hk1 hk2 hword rfl rfl⟩

end Main

/-- A server that answers with the distinct elements of a range. -/
def distinctServer (L : List α) (a b : ℕ) : List α := ((L.drop (a - 1)).take (b - a + 1)).dedup

lemma serves_distinctServer (L : List α) : Serves (distinctServer L) L := by
  refine ⟨fun _ _ _ _ => List.nodup_dedup _, ?_⟩
  intro a b _ _
  ext x
  rw [List.mem_toFinset, List.mem_toFinset]
  exact List.mem_dedup

/-- A repetition in the first range, and the second element behind it. -/
theorem finds_iff_repeated : Finds (distinctServer [1, 1, 2, 3]) [1, 1, 2, 3] 1 2 := by
  apply (finds_iff (serves_distinctServer _) (le_refl 1) (by omega) (by decide)).2
  have hreads : reads 2 [1, 1, 2, 3] = 3 := by
    rw [reads_of_found (by decide)]
    show 2 + reads 1 [2, 3] = 3
    rw [reads_of_found (by decide)]
    show 2 + (1 + reads 0 [3]) = 3
    rw [reads_zero]
  refine ⟨0, ?_, Or.inl ⟨rfl, Or.inl ?_⟩⟩
  · intro i hi
    rw [Nat.eq_zero_of_le_zero hi]
    show 0 + reads 2 [1, 1, 2, 3] < wordSize
    rw [hreads]
    decide
  · show ([1, 1, 2, 3].take (reads 2 [1, 1, 2, 3])).toFinset.card = 2
    rw [hreads]
    decide

/-- Three elements are there and wanted, but the second round repeats the first two, and the client
stops. -/
theorem finds_fails :
    ¬ ∀ (server : ℕ → ℕ → List ℕ) (L : List ℕ) (k1 k2 : ℕ), Serves server L → 1 ≤ k1 → k1 ≤ k2 →
      k2 < wordSize → Finds server L k1 k2 := by
  intro hall
  have hserves := serves_distinctServer [1, 2, 1, 1, 2, 3]
  have hfinds := hall _ _ 1 3 hserves (le_refl 1) (by omega) (by decide)
  rw [finds_iff hserves (le_refl 1) (by omega) (by decide)] at hfinds
  have hfirst : reads 3 [1, 2, 1, 1, 2, 3] = 4 := by
    rw [reads_of_found (by decide)]
    show 3 + reads 1 [1, 2, 3] = 4
    rw [reads_of_found (by decide)]
    show 3 + (1 + reads 0 [2, 3]) = 4
    rw [reads_zero]
  have hsecond : reads 2 [1, 2, 3] = 2 := by
    rw [reads_of_found (by decide)]
    show 2 + reads 0 [3] = 2
    rw [reads_zero]
  have hseen₀ : seen 3 [1, 2, 1, 1, 2, 3] 0 = 2 := by
    show ([1, 2, 1, 1, 2, 3].take (reads 3 [1, 2, 1, 1, 2, 3])).toFinset.card = 2
    rw [hfirst]
    decide
  have hseen₁ : seen 3 [1, 2, 1, 1, 2, 3] 1 = 2 := by
    show ([1, 2, 1, 1, 2, 3].take (max (reads 3 [1, 2, 1, 1, 2, 3]) (0 + 3 +
      reads (3 - seen 3 [1, 2, 1, 1, 2, 3] 0 + 1) [1, 2, 3]))).toFinset.card = 2
    rw [hseen₀, hfirst, hsecond]
    decide
  obtain ⟨j, -, ⟨-, hfull | hnil⟩ | ⟨-, hcard, -⟩ | ⟨-, hrises, -⟩⟩ := hfinds
  · exact absurd (hseen₀.symm.trans hfull) (by decide)
  · exact absurd hnil (List.cons_ne_nil _ _)
  · exact absurd (hseen₀.symm.trans hcard) (by decide)
  · have hlt : seen 3 [1, 2, 1, 1, 2, 3] 0 < seen 3 [1, 2, 1, 1, 2, 3] 1 := hrises
    rw [hseen₀, hseen₁] at hlt
    exact absurd hlt (Nat.lt_irrefl 2)

end NewDmcsc

end Dmcs
