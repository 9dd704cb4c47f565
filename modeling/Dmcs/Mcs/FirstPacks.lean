import Dmcs.Mcs.AskNeighbors

/-!
# Waiting for the first packs (`ask_first_packs`)

`ask_first_packs` asks the neighbours from `from_neighbor` to `to_neighbor` and then reads
`JOIN_IN_MQ` until the bits of all of them are set in a word of 64 bits.  The word to compare with
is built by shifts.  If all 64 neighbours a joiner may have are asked at once, the first of these
shifts is by the width of the word; the mask comes out empty and nothing is read
(`askFirstPacks_all64`).  In all other cases the function waits for exactly the neighbours it asked
(`waitsForAsked_iff`).
-/

namespace Dmcs

open QueryID

variable {bso : BeliefStateOffset}

namespace StreamingJoiner

/-- The states with which neighbour `i` answers when the neighbours from `lo` on are asked. -/
def packOf (J : JoinerConfig) (env : Environment bso) (history : Finset ℕ) (qid : Qid) (lo : ℕ)
    (s : State bso) (i : ℕ) : List (NewBeliefState bso.width) :=
  answerOf J env history qid (s.net.clock + (i - lo)) i (firstRange J).1 (firstRange J).2

/-- A call of `ask_first_packs` for the neighbours from `lo` to `hi`: the result says whether all of
them have a state; when it is `true`, their end markers were read and their states are held; what is
held of other neighbours stays as it was. -/
def WaitsForAsked (J : JoinerConfig) (env : Environment bso) (history : Finset ℕ) (qid : Qid)
    (lo hi : ℕ) (s : State bso) : Prop :=
  ∃ result s', askFirstPacks J env history qid lo hi s = .ok (result, s') ∧
    (result = true ↔ ∀ i, lo ≤ i → i ≤ hi → packOf J env history qid lo s i ≠ []) ∧
    (result = true →
      (∃ read, s'.net.conclusions = s.net.conclusions ++ read ∧
        ∀ i, lo ≤ i → i ≤ hi → (qid, J.forwardQid qid i) ∈ read) ∧
      ∀ i, lo ≤ i → i ≤ hi → s'.inputBeliefStates[i]? = some (packOf J env history qid lo s i)) ∧
    ∀ i, ¬ (lo ≤ i ∧ i ≤ hi) → s'.inputBeliefStates[i]? = s.inputBeliefStates[i]?

section

variable {J : JoinerConfig} {env : Environment bso} {history : Finset ℕ} {qid : Qid} {lo hi : ℕ}
  {s : State bso}

lemma getElem?_packAnswers {k : ℕ} (hk : k < hi - lo + 1) :
    (packAnswers J env history qid lo (hi - lo + 1) s.net.clock)[k]? =
      some (packOf J env history qid lo s (lo + k)) := by
  unfold packAnswers packOf
  rw [List.getElem?_map, List.getElem?_range hk, Nat.add_sub_cancel_left]
  rfl

lemma forall_packAnswers (hle : lo ≤ hi) :
    (∀ a ∈ packAnswers J env history qid lo (hi - lo + 1) s.net.clock, a ≠ []) ↔
      ∀ i, lo ≤ i → i ≤ hi → packOf J env history qid lo s i ≠ [] := by
  constructor
  · intro hall i hlo hhi
    obtain ⟨k, rfl⟩ := Nat.exists_eq_add_of_le hlo
    exact hall _ (List.mem_of_getElem? (getElem?_packAnswers (by omega)))
  · intro hall a ha
    obtain ⟨k, hk, rfl⟩ := List.mem_map.1 ha
    have hne := hall (lo + k) (by omega) (by have := List.mem_range.1 hk; omega)
    unfold packOf at hne
    rw [Nat.add_sub_cancel_left] at hne
    exact hne

/-- Fewer than 64 neighbours are waited for. -/
lemma waitsForAsked_of_lt (hq : Plain qid) (h64 : J.neighbors.length ≤ 64) (hle : lo ≤ hi)
    (hlast : hi < J.neighbors.length) (hcount : hi - lo + 1 < 64) (hs : s.net.Settled)
    (hlen : s.inputBeliefStates.length = J.neighbors.length) :
    WaitsForAsked J env history qid lo hi s := by
  obtain ⟨result, s', hrun, hres⟩ :=
    askFirstPacks_received env history hq h64 hle hlast hcount hs hlen
  have hlength : (packAnswers J env history qid lo (hi - lo + 1) s.net.clock).length =
      hi - lo + 1 := length_packAnswers ..
  refine ⟨result, s', hrun, hres.result_iff.trans (forall_packAnswers hle), fun hr => ⟨?_, ?_⟩, ?_⟩
  · obtain ⟨read, hread, hmarkers⟩ := hres.markers
    refine ⟨read, hread, fun i hlo hhi => ?_⟩
    obtain ⟨k, rfl⟩ := Nat.exists_eq_add_of_le hlo
    have hk : k < hi - lo + 1 := by omega
    apply hmarkers hr k
      (answerStream (J.forwardQid qid (lo + k)) (packOf J env history qid lo s (lo + k)))
    · rw [packStreams, List.getElem?_mapIdx, getElem?_packAnswers hk]
      rfl
    · simp [answerStream]
  · intro i hlo hhi
    obtain ⟨k, rfl⟩ := Nat.exists_eq_add_of_le hlo
    have hk : k < hi - lo + 1 := by omega
    rw [hres.inputs hr k (by omega), getElem?_packAnswers hk]
  · intro i hi'
    exact hres.others i (by omega)

variable (env history qid s) in
/-- With 64 neighbours the mask is empty, and the loop is not entered. -/
lemma askFirstPacks_all64 (hlast : hi < J.neighbors.length) (hcount : hi - lo + 1 = 64) :
    ∃ s', askFirstPacks J env history qid lo hi s = .ok (true, s') ∧
      s'.net.conclusions = s.net.conclusions := by
  have hmask : allNeighborsReturned lo hi = 0 := by
    unfold allNeighborsReturned
    rw [hcount]
    exact BitVec.zero_shiftLeft lo
  have hasked : Asked J env history qid lo (hi - lo + 1) s (askPacks J env history qid lo hi s) :=
    asked_foldl lo (hi - lo + 1) s
  unfold askFirstPacks
  rw [if_neg (by omega), hmask]
  set s₁ := askPacks J env history qid lo hi s
  show ∃ s', receiveFirstPacks J qid 0 (s₁.net.await env).joinIn 0 _ _ = _ ∧ _
  cases (s₁.net.await env).joinIn with
  | nil => exact ⟨_, rfl, hasked.conclusions⟩
  | cons rbs rest => exact ⟨_, rfl, hasked.conclusions⟩

/-- So no end marker was read when it returns. -/
lemma not_waitsForAsked (hlast : hi < J.neighbors.length) (hle : lo ≤ hi)
    (hcount : hi - lo + 1 = 64) : ¬ WaitsForAsked J env history qid lo hi s := by
  rintro ⟨result, s', hrun, -, htrue, -⟩
  obtain ⟨s'', hrun', hsame⟩ := askFirstPacks_all64 env history qid s hlast hcount
  obtain ⟨rfl, rfl⟩ := Prod.mk.inj (Except.ok.inj (hrun.symm.trans hrun'))
  obtain ⟨⟨read, hread, hmarkers⟩, -⟩ := htrue rfl
  rw [hsame] at hread
  have hnil : read = [] := List.self_eq_append_right.1 hread
  have hfirst := hmarkers lo (le_refl lo) hle
  rw [hnil] at hfirst
  exact List.not_mem_nil hfirst

/-- The call waits for exactly the neighbours it asked, unless it asks 64.  For 64 neighbours the
shift of the mask leaves the word, the mask is `0`, and the call returns at once. -/
theorem waitsForAsked_iff (hq : Plain qid) (h64 : J.neighbors.length ≤ 64) (hle : lo ≤ hi)
    (hlast : hi < J.neighbors.length) (hs : s.net.Settled)
    (hlen : s.inputBeliefStates.length = J.neighbors.length) :
    WaitsForAsked J env history qid lo hi s ↔ hi - lo + 1 < 64 := by
  constructor
  · intro hwaits
    by_contra hcount
    exact not_waitsForAsked hlast hle (by omega) hwaits
  · intro hcount
    exact waitsForAsked_of_lt hq h64 hle hlast hcount hs hlen

end

/-- A joiner with `n` neighbours, whose queues have the offsets `0`, `1`, … -/
def neighborsUpTo (n : ℕ) (hpos : 0 < n) (hle : n ≤ 64) : JoinerConfig where
  packSize := 1
  packSize_lt := by norm_num
  neighbors := (List.range n).map (fun i => ⟨i + 1, i⟩)
  joinerOffset := 0
  neighbors_ne := by
    simp only [ne_eq, List.map_eq_nil_iff, List.range_eq_nil]
    omega
  offsets_nodup := by
    rw [List.map_map]
    exact (List.map_id (List.range n)).symm ▸ List.nodup_range
  neighborOffset_lt := by
    intro nb hnb
    obtain ⟨i, hi, rfl⟩ := List.mem_map.1 hnb
    have hlt := List.mem_range.1 hi
    show i < 2 ^ 10
    omega
  joinerOffset_lt := by omega

/-- All neighbours answer with no state, one after the other. -/
def noStates : Environment bso where
  answer _ _ _ := []
  arrive _ ls := ls.flatten
  interleaving := interleaving_flatten

lemma settled_init (J : JoinerConfig) : (State.init J : State bso).net.Settled :=
  ⟨rfl, rfl, fun _ h => absurd h List.not_mem_nil⟩

/-- Every neighbour answers with a state of its own block. -/
def ownBlocks : Environment (.ofSucc 4 0) where
  answer _ nb _ := [(NewBeliefState.empty _).setEpsilon (.ofSucc 4 0) nb.neighborId]
  arrive _ ls := ls.flatten
  interleaving := interleaving_flatten

/-- Three of four neighbours are asked and have a state: the call returns with their states, and the
first neighbour, which was not asked, has none. -/
theorem waitsForAsked_ownBlocks :
    ∃ s', askFirstPacks (neighborsUpTo 4 (by omega) (by omega)) ownBlocks ∅ (queryId 0 1) 1 3
        (State.init (neighborsUpTo 4 (by omega) (by omega))) = .ok (true, s') ∧
      (∀ i, 1 ≤ i → i ≤ 3 → s'.inputBeliefStates[i]? =
        some [(NewBeliefState.empty _).setEpsilon (.ofSucc 4 0) (i + 1)]) ∧
      s'.inputBeliefStates[0]? = some [] := by
  have hwaits : WaitsForAsked (neighborsUpTo 4 (by omega) (by omega)) ownBlocks ∅ (queryId 0 1) 1 3
      (State.init (neighborsUpTo 4 (by omega) (by omega))) :=
    (waitsForAsked_iff (plain_queryId (by omega) (by omega)) (by decide) (by omega) (by decide)
      (settled_init _) (List.length_replicate ..)).2 (by omega)
  obtain ⟨result, s', hrun, hresult, htrue, hothers⟩ := hwaits
  have hpacks : ∀ i, 1 ≤ i → i ≤ 3 → packOf (neighborsUpTo 4 (by omega) (by omega)) ownBlocks ∅
      (queryId 0 1) 1 (State.init (neighborsUpTo 4 (by omega) (by omega))) i =
        [(NewBeliefState.empty _).setEpsilon (.ofSucc 4 0) (i + 1)] := by
    intro i hlo hhi
    interval_cases i
    · rfl
    · rfl
    · rfl
  obtain rfl : result = true := by
    refine hresult.2 fun i hlo hhi => ?_
    rw [hpacks i hlo hhi]
    exact List.cons_ne_nil _ _
  refine ⟨s', hrun, fun i hlo hhi => ?_, hothers 0 (by omega)⟩
  rw [(htrue rfl).2 i hlo hhi, hpacks i hlo hhi]

/-- All of 64 neighbours are asked and none has a state: nothing is waited for. -/
theorem waitsForAsked_fails :
    ¬ ∀ J : JoinerConfig, J.neighbors.length ≤ 64 → ∀ (env : Environment (.ofSucc 0 0))
      (history : Finset ℕ) (qid : Qid), Plain qid → ∀ lo hi, lo ≤ hi → hi < J.neighbors.length →
      ∀ s : State (.ofSucc 0 0), s.net.Settled →
        s.inputBeliefStates.length = J.neighbors.length →
        WaitsForAsked J env history qid lo hi s := by
  intro hall
  have hwaits := hall (neighborsUpTo 64 (by omega) (le_refl 64)) (by decide) noStates ∅
    (queryId 0 1) (plain_queryId (by omega) (by omega)) 0 63 (by omega) (by decide) (State.init _)
    (settled_init _) (List.length_replicate ..)
  exact not_waitsForAsked (by decide) (by omega) rfl hwaits

end StreamingJoiner

end Dmcs
