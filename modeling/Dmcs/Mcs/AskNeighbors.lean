import Dmcs.Mcs.StreamingJoiner

/-!
# What the joiner receives (`ask_neighbor_and_receive`, `ask_first_packs`)

A joiner whose queue is empty and that has no query under way (`Settled`) asks one neighbour, or
the first neighbours all at once.  `askNeighborAndReceive_eq` and `askFirstPacks_received` say that
after reading it holds exactly the answers of these queries and is settled again, whatever the
order of arrival.  If a neighbour has no state, `ask_first_packs` stops at its end marker; it then
leaves the queue empty when that marker arrives last (`askFirstPacks_received`).

## The loop of `ask_first_packs`

The loop reads the queue message by message.  `Receiving` is its invariant: of every neighbour asked
a part of the answer has been read, the bits of those whose end marker was read are set in the mask,
and what is held of a neighbour is the states of the part.  A message is a state or an end marker
of one of the neighbours, which the id of its query tells, and it is the first message that is left
of this neighbour; so the induction is on the queue, with one lemma for each kind of message
(`PacksReceived.of_state`, `PacksReceived.of_marker`).

The mask has a bit for each neighbour that was asked, counted from the first one.  The lemmas are
stated for a range of neighbours that begins anywhere, since `next_join` asks the neighbours in
front of the current one again.
-/

namespace Dmcs

open Odometer Paging QueryID

variable {bso : BeliefStateOffset}

namespace StreamingJoiner

variable {J : JoinerConfig} {env : Environment bso} {history : Finset ℕ} {qid : Qid}

/-! ## Query ids of the neighbours -/

lemma JoinerConfig.neighbor_mem {i : ℕ} (hi : i < J.neighbors.length) :
    J.neighbor i ∈ J.neighbors := by
  rw [JoinerConfig.neighbor, List.getD_eq_getElem _ _ hi]
  exact List.getElem_mem hi

lemma JoinerConfig.offset_forwardQid (hq : Plain qid) {i : ℕ} (hi : i < J.neighbors.length) :
    neighborOffsetFromQid (J.forwardQid qid i) = (J.neighbor i).neighborOffset :=
  neighborOffset_forward hq _ (J.neighborOffset_lt _ (J.neighbor_mem hi)) J.joinerOffset_lt

lemma JoinerConfig.stripped_forwardQid (hq : Plain qid) (i : ℕ) :
    strippedQid (J.forwardQid qid i) = qid :=
  stripped_forward hq _ _ J.joinerOffset_lt

lemma JoinerConfig.offset2index_neighbor {i : ℕ} (hi : i < J.neighbors.length) :
    J.offset2index (J.neighbor i).neighborOffset = i := by
  have hmem : (J.neighbor i).neighborOffset ∈ J.neighbors.map Neighbor.neighborOffset :=
    List.mem_map_of_mem (J.neighbor_mem hi)
  have hi' : i < (J.neighbors.map Neighbor.neighborOffset).length := by simpa using hi
  have hget : (J.neighbor i).neighborOffset = (J.neighbors.map Neighbor.neighborOffset)[i] := by
    rw [JoinerConfig.neighbor, List.getD_eq_getElem _ _ hi, List.getElem_map]
  rw [JoinerConfig.offset2index]
  simp only [if_pos hmem]
  rw [hget]
  exact J.offsets_nodup.idxOf_getElem i _

/-- The answers of different neighbours have different ids. -/
lemma JoinerConfig.forwardQid_injective (hq : Plain qid) {i j : ℕ} (hi : i < J.neighbors.length)
    (hj : j < J.neighbors.length) (h : J.forwardQid qid i = J.forwardQid qid j) : i = j := by
  have h' := congrArg (fun q => J.offset2index (neighborOffsetFromQid q)) h
  simpa only [J.offset_forwardQid hq hi, J.offset_forwardQid hq hj, J.offset2index_neighbor hi,
    J.offset2index_neighbor hj] using h'

/-- The mask has the bits of the asked neighbours, unless these are all 64. -/
lemma getLsbD_allNeighborsReturned {fromNeighbor toNeighbor : ℕ} (hle : fromNeighbor ≤ toNeighbor)
    (hto : toNeighbor < 64) (hcount : toNeighbor - fromNeighbor + 1 < 64) (i : ℕ) :
    (allNeighborsReturned fromNeighbor toNeighbor).getLsbD i =
      decide (fromNeighbor ≤ i ∧ i ≤ toNeighbor) := by
  have hpow : 2 ^ (toNeighbor - fromNeighbor + 1) < 2 ^ 64 :=
    Nat.pow_lt_pow_right (by omega) hcount
  have hpos : 0 < 2 ^ (toNeighbor - fromNeighbor + 1) := Nat.pow_pos (by omega)
  have hones : (1#64 <<< (toNeighbor - fromNeighbor + 1) - 1#64).toNat =
      2 ^ (toNeighbor - fromNeighbor + 1) - 1 := by
    rw [BitVec.toNat_sub, BitVec.toNat_shiftLeft, BitVec.toNat_ofNat, Nat.shiftLeft_eq]
    norm_num
    omega
  rw [allNeighborsReturned, Nat.mod_eq_of_lt hcount, BitVec.getLsbD_shiftLeft,
    ← BitVec.testBit_toNat, hones, Nat.testBit_two_pow_sub_one]
  by_cases hfrom : i < fromNeighbor
  · simp [hfrom]
  · by_cases hi : i < 64
    · simp only [hi, hfrom, decide_true, decide_false, Bool.not_false, Bool.true_and]
      exact decide_eq_decide.mpr (by omega)
    · simp [hi]
      omega

/-! ## A settled network -/

/-- Nothing is unread or on the way, and every conclusion was drawn from an answer to the query the
joiner was called with. -/
structure Network.Settled (net : Network bso) : Prop where
  joinIn : net.joinIn = []
  pending : net.pending = []
  conclusions : ∀ c ∈ net.conclusions, strippedQid c.2 = c.1

/-- Reading a registered end marker of the query. -/
lemma Network.endMarker_eq {net : Network bso} {marker : Qid}
    {rest : List (ReturnedBeliefState bso)} (h : marker ∈ net.registered) :
    net.endMarker qid marker rest = .ok (net.conclude qid marker rest) := if_pos h

lemma mem_conclusions_append {l : List (Qid × Qid)} {marker : Qid}
    (hl : ∀ c ∈ l, strippedQid c.2 = c.1) (h : strippedQid marker = qid) :
    ∀ c ∈ l ++ [(qid, marker)], strippedQid c.2 = c.1 := by
  intro c hc
  rcases List.mem_append.mp hc with hc | hc
  · exact hl c hc
  · rw [List.mem_singleton] at hc
    rw [hc]
    exact h

/-! ## One neighbour -/

/-- The answer of neighbour `i` at time `t` to a request for `(k1, k2)`. -/
def answerOf (J : JoinerConfig) (env : Environment bso) (history : Finset ℕ) (qid : Qid)
    (t i k1 k2 : ℕ) : List (NewBeliefState bso.width) :=
  env.answer t (J.neighbor i) ⟨J.forwardQid qid i, history, k1, k2⟩

lemma receiveNeighbor_answerStream (hq : Plain qid) {i : ℕ} (hi : i < J.neighbors.length) :
    ∀ (models : List (NewBeliefState bso.width)) (count : ℕ) (s : State bso),
      J.forwardQid qid i ∈ s.net.registered →
        receiveNeighbor J qid i (answerStream (J.forwardQid qid i) models) count s =
          .ok (count + models.length != 0, { s with
            inputBeliefStates := s.inputBeliefStates.modify i (· ++ models)
            net := s.net.conclude qid (J.forwardQid qid i) [] }) := by
  intro models
  induction models with
  | nil =>
      intro count s hreg
      have hmod : s.inputBeliefStates.modify i (· ++ []) = s.inputBeliefStates := by
        simp only [List.append_nil]
        exact List.modify_id _ _
      simp only [answerStream, List.map_nil, List.nil_append, receiveNeighbor,
        Network.endMarker_eq hreg, hmod, List.length_nil, Nat.add_zero]
  | cons bs models ih =>
      intro count s hreg
      have hstep : receiveNeighbor J qid i (answerStream (J.forwardQid qid i) (bs :: models))
          count s = receiveNeighbor J qid i (answerStream (J.forwardQid qid i) models) (count + 1)
            { s with inputBeliefStates := s.inputBeliefStates.modify i (· ++ [bs]) } := by
        simp only [answerStream, List.map_cons, List.cons_append, receiveNeighbor,
          J.offset_forwardQid hq hi, ne_eq, not_true_eq_false, if_false]
      rw [hstep, ih (count + 1)
        { s with inputBeliefStates := s.inputBeliefStates.modify i (· ++ [bs]) } hreg]
      simp only [List.modify_modify_eq, List.length_cons]
      have hcomp : ((· ++ models) ∘ (· ++ [bs]) :
          List (NewBeliefState bso.width) → List (NewBeliefState bso.width)) =
            (· ++ bs :: models) := by
        funext l
        simp
      rw [hcomp]
      have hcount : count + 1 + models.length = count + (models.length + 1) := by omega
      rw [hcount]

lemma set_nil_modify (l : List (List (NewBeliefState bso.width))) (i : ℕ)
    (models : List (NewBeliefState bso.width)) :
    (l.set i []).modify i (· ++ models) = l.set i models := by
  rw [List.set_eq_modify, List.modify_modify_eq, List.set_eq_modify]
  rfl

variable (env history) in
/-- A neighbour asked alone: its answer replaces what was held of it. -/
theorem askNeighborAndReceive_eq (hq : Plain qid) {i : ℕ} (hi : i < J.neighbors.length)
    (k1 k2 : ℕ) {s : State bso} (hs : s.net.Settled) :
    ∃ net : Network bso, net.Settled ∧
      askNeighborAndReceive J env history qid i k1 k2 s =
        .ok (!(answerOf J env history qid s.net.clock i k1 k2).isEmpty, { s with
          inputBeliefStates :=
            s.inputBeliefStates.set i (answerOf J env history qid s.net.clock i k1 k2)
          net := net }) := by
  let asked := (askNeighbor J env history qid i k1 k2 s).net.await env
  have hjoinIn : asked.joinIn =
      answerStream (J.forwardQid qid i) (answerOf J env history qid s.net.clock i k1 k2) := by
    have h := env.interleaving (s.net.clock + 1)
      [[], answerStream (J.forwardQid qid i) (answerOf J env history qid s.net.clock i k1 k2)]
    rw [← (Interleaving.nil_cons.mp h).singleton]
    simp only [asked, Network.await, askNeighbor, Network.ask, hs.joinIn, hs.pending,
      List.nil_append]
    rfl
  have hreg : J.forwardQid qid i ∈ asked.registered :=
    List.mem_insert_iff.mpr (Or.inl rfl)
  refine ⟨asked.conclude qid (J.forwardQid qid i) [],
    ⟨rfl, rfl, mem_conclusions_append hs.conclusions (J.stripped_forwardQid hq i)⟩, ?_⟩
  have hread := receiveNeighbor_answerStream hq hi
    (answerOf J env history qid s.net.clock i k1 k2) 0
    { askNeighbor J env history qid i k1 k2 s with net := asked } hreg
  rw [← hjoinIn] at hread
  rw [askNeighborAndReceive]
  refine hread.trans ?_
  simp only [askNeighbor, set_nil_modify]
  cases hans : answerOf J env history qid s.net.clock i k1 k2 <;> rfl

/-! ## The first neighbours -/

/-- The range of a request for a first pack. -/
def firstRange (J : JoinerConfig) : ℕ × ℕ := if J.packSize > 0 then (1, J.packSize) else (0, 0)

/-- The answers of `m` neighbours from `lo` on, asked one after the other from time `t` on. -/
def packAnswers (J : JoinerConfig) (env : Environment bso) (history : Finset ℕ) (qid : Qid)
    (lo m t : ℕ) : List (List (NewBeliefState bso.width)) :=
  (List.range m).map
    (fun k => answerOf J env history qid (t + k) (lo + k) (firstRange J).1 (firstRange J).2)

/-- The answers with their end markers, as they are sent. -/
def packStreams (J : JoinerConfig) (qid : Qid) (lo : ℕ)
    (answers : List (List (NewBeliefState bso.width))) : List (List (ReturnedBeliefState bso)) :=
  answers.mapIdx (fun k models => answerStream (J.forwardQid qid (lo + k)) models)

/-- The order in which these answers arrive in an empty queue. -/
def packArrivals (J : JoinerConfig) (env : Environment bso) (history : Finset ℕ) (qid : Qid)
    (lo m t : ℕ) : List (ReturnedBeliefState bso) :=
  env.arrive (t + m) ([] :: packStreams J qid lo (packAnswers J env history qid lo m t))

@[simp] lemma length_packAnswers (lo m t : ℕ) :
    (packAnswers J env history qid lo m t).length = m := by simp [packAnswers]

/-- What asking `m` neighbours from `lo` on changes. -/
structure Asked (J : JoinerConfig) (env : Environment bso) (history : Finset ℕ) (qid : Qid)
    (lo m : ℕ) (s s' : State bso) : Prop where
  frame : s' = { s with inputBeliefStates := s'.inputBeliefStates, net := s'.net }
  length : s'.inputBeliefStates.length = s.inputBeliefStates.length
  inputs : ∀ j, s'.inputBeliefStates[j]? =
    if lo ≤ j ∧ j < lo + m then s.inputBeliefStates[j]?.map (fun _ => [])
    else s.inputBeliefStates[j]?
  pending : s'.net.pending =
    s.net.pending ++ packStreams J qid lo (packAnswers J env history qid lo m s.net.clock)
  clock : s'.net.clock = s.net.clock + m
  joinIn : s'.net.joinIn = s.net.joinIn
  conclusions : s'.net.conclusions = s.net.conclusions
  registered : ∀ k < m, J.forwardQid qid (lo + k) ∈ s'.net.registered

lemma asked_foldl (lo m : ℕ) (s : State bso) :
    Asked J env history qid lo m s ((List.range' lo m).foldl
      (fun s i => askNeighbor J env history qid i (firstRange J).1 (firstRange J).2 s) s) := by
  induction m with
  | zero =>
      refine ⟨rfl, rfl, ?_, by simp [packStreams, packAnswers], rfl, rfl, rfl, by simp⟩
      intro j
      rw [if_neg (by omega)]
      rfl
  | succ m ih =>
      rw [List.range'_concat, List.foldl_append, List.foldl_cons, List.foldl_nil, Nat.one_mul]
      generalize (List.range' lo m).foldl _ s = s' at ih ⊢
      refine ⟨?_, ?_, ?_, ?_, ?_, ih.joinIn, ih.conclusions, ?_⟩
      · rw [ih.frame]
        rfl
      · rw [askNeighbor, List.length_set, ih.length]
      · intro j
        have hj := ih.inputs j
        simp only [askNeighbor, List.getElem?_set]
        by_cases hlast : lo + m = j
        · subst hlast
          rw [if_neg (by omega)] at hj
          rw [if_pos rfl, ← hj]
          by_cases hlt : lo + m < s'.inputBeliefStates.length
          · simp [hlt]
          · simp [hlt]
        · rw [if_neg hlast, hj]
          have : (lo ≤ j ∧ j < lo + (m + 1)) ↔ (lo ≤ j ∧ j < lo + m) := by omega
          simp only [this]
      · simp only [askNeighbor, Network.ask, ih.pending, ih.clock, List.append_assoc]
        simp [packStreams, packAnswers, List.range_succ, List.mapIdx_append, answerOf]
      · simp only [askNeighbor, Network.ask, ih.clock]
        omega
      · intro k hk
        simp only [askNeighbor, Network.ask, List.mem_insert_iff]
        by_cases hkm : k = m
        · exact Or.inl (by rw [hkm])
        · exact Or.inr (ih.registered k (by omega))

/-- What the loop of `ask_first_packs` has received: each asked neighbour is marked and its answer
held, or the rest of its answer is still to arrive. -/
structure Receiving (J : JoinerConfig) (qid : Qid) (lo : ℕ)
    (answers : List (List (NewBeliefState bso.width)))
    (streams : List (List (ReturnedBeliefState bso))) (marking : BitVec 64) (counts : List ℕ)
    (s : State bso) : Prop where
  each : ∀ k < answers.length,
    (streams[k]? = some [] ∧ marking.getLsbD (lo + k) = true ∧
      s.inputBeliefStates[lo + k]? = answers[k]? ∧ answers[k]? ≠ some []) ∨
    ∃ got todo, streams[k]? = some (answerStream (J.forwardQid qid (lo + k)) todo) ∧
      marking.getLsbD (lo + k) = false ∧ s.inputBeliefStates[lo + k]? = some got ∧
      answers[k]? = some (got ++ todo) ∧ counts[lo + k]? = some got.length ∧
      J.forwardQid qid (lo + k) ∈ s.net.registered
  length : streams.length = answers.length
  others : ∀ i, ¬ (lo ≤ i ∧ i < lo + answers.length) → marking.getLsbD i = false

/-- Among the answers of the neighbours from `lo` on, the end marker of a neighbour without a state
is the last message to arrive. -/
def MarkersLast (J : JoinerConfig) (qid : Qid) (lo : ℕ)
    (answers : List (List (NewBeliefState bso.width)))
    (queue : List (ReturnedBeliefState bso)) : Prop :=
  ∀ k pre post, answers[k]? = some [] → queue = pre ++ ⟨none, J.forwardQid qid (lo + k)⟩ :: post →
    post = []

namespace Receiving

variable {lo : ℕ} {answers : List (List (NewBeliefState bso.width))}
  {streams : List (List (ReturnedBeliefState bso))} {marking allReturned : BitVec 64}
  {counts : List ℕ} {s : State bso}

/-- All neighbours are marked when nothing more is to arrive, and not before. -/
lemma marking_eq_iff (h : Receiving J qid lo answers streams marking counts s)
    (hall : ∀ i, allReturned.getLsbD i = decide (lo ≤ i ∧ i < lo + answers.length)) :
    marking = allReturned ↔ ∀ l ∈ streams, l = [] := by
  constructor
  · rintro rfl l hl
    obtain ⟨k, hk, rfl⟩ := List.getElem_of_mem hl
    have hk' : k < answers.length := h.length ▸ hk
    rcases h.each k hk' with ⟨hst, -⟩ | ⟨got, todo, -, hbit, -⟩
    · rw [List.getElem?_eq_getElem hk] at hst
      exact Option.some.inj hst
    · have hrange : lo ≤ lo + k ∧ lo + k < lo + answers.length := by omega
      rw [hall, decide_eq_true hrange] at hbit
      exact absurd hbit (by simp)
  · intro hnil
    refine BitVec.eq_of_getLsbD_eq (fun i _ => ?_)
    rw [hall]
    by_cases hi : lo ≤ i ∧ i < lo + answers.length
    · obtain ⟨k, rfl⟩ := Nat.exists_eq_add_of_le hi.1
      rcases h.each k (by omega) with ⟨-, hbit, -⟩ | ⟨got, todo, hst, -⟩
      · rw [hbit, decide_eq_true hi]
      · have := hnil _ (List.mem_of_getElem? hst)
        simp [answerStream] at this
    · rw [h.others i hi, decide_eq_false hi]

/-- When nothing more is to arrive, the answers are held. -/
lemma inputs_eq (h : Receiving J qid lo answers streams marking counts s)
    (hnil : ∀ l ∈ streams, l = []) :
    (∀ a ∈ answers, a ≠ []) ∧
      ∀ k < answers.length, s.inputBeliefStates[lo + k]? = answers[k]? := by
  have hdone : ∀ k < answers.length, s.inputBeliefStates[lo + k]? = answers[k]? ∧
      answers[k]? ≠ some [] := by
    intro k hk
    rcases h.each k hk with ⟨-, -, hin, hne⟩ | ⟨got, todo, hst, -⟩
    · exact ⟨hin, hne⟩
    · have := hnil _ (List.mem_of_getElem? hst)
      simp [answerStream] at this
  refine ⟨?_, fun k hk => (hdone k hk).1⟩
  rintro a ha rfl
  obtain ⟨k, hk, hget⟩ := List.getElem_of_mem ha
  exact (hdone k hk).2 (by rw [List.getElem?_eq_getElem hk, hget])

/-- The head of a stream is a state or the end marker of its neighbour. -/
lemma head_cases (h : Receiving J qid lo answers streams marking counts s) {k : ℕ}
    {rbs : ReturnedBeliefState bso} {l : List (ReturnedBeliefState bso)}
    (hk : streams[k]? = some (rbs :: l)) :
    k < answers.length ∧ ∃ got todo, marking.getLsbD (lo + k) = false ∧
      s.inputBeliefStates[lo + k]? = some got ∧ answers[k]? = some (got ++ todo) ∧
      counts[lo + k]? = some got.length ∧ J.forwardQid qid (lo + k) ∈ s.net.registered ∧
      ((todo = [] ∧ rbs = ⟨none, J.forwardQid qid (lo + k)⟩ ∧ l = []) ∨
        ∃ bs rest, todo = bs :: rest ∧ rbs = ⟨some bs, J.forwardQid qid (lo + k)⟩ ∧
          l = answerStream (J.forwardQid qid (lo + k)) rest) := by
  have hlt : k < answers.length := h.length ▸ (List.getElem?_eq_some_iff.mp hk).1
  refine ⟨hlt, ?_⟩
  rcases h.each k hlt with ⟨hst, -⟩ | ⟨got, todo, hst, hbit, hin, hans, hcount, hreg⟩
  · rw [hk] at hst
    cases hst
  · refine ⟨got, todo, hbit, hin, hans, hcount, hreg, ?_⟩
    rw [hk, Option.some.injEq] at hst
    cases todo with
    | nil =>
        simp only [answerStream, List.map_nil, List.nil_append, List.cons.injEq] at hst
        exact Or.inl ⟨rfl, hst⟩
    | cons bs rest =>
        simp only [answerStream, List.map_cons, List.cons_append, List.cons.injEq] at hst
        exact Or.inr ⟨bs, rest, rfl, hst⟩

/-- Reading a state of an asked neighbour. -/
lemma read_state (h : Receiving J qid lo answers streams marking counts s) {k : ℕ}
    {bs : NewBeliefState bso.width} {rest : List (NewBeliefState bso.width)}
    (hk : streams[k]? = some (answerStream (J.forwardQid qid (lo + k)) (bs :: rest))) :
    Receiving J qid lo answers (streams.set k (answerStream (J.forwardQid qid (lo + k)) rest))
      marking (counts.modify (lo + k) (· + 1))
      { s with inputBeliefStates := s.inputBeliefStates.modify (lo + k) (· ++ [bs]) } := by
  obtain ⟨hlt, got, todo, hbit, hin, hans, hcount, hreg, hhead⟩ := h.head_cases hk
  refine ⟨fun j hj => ?_, by rw [List.length_set, h.length], h.others⟩
  by_cases hkj : k = j
  · subst hkj
    rcases hhead with ⟨-, hrbs, -⟩ | ⟨bs', rest', rfl, hrbs, hl⟩
    · cases hrbs
    · cases hrbs
      refine Or.inr ⟨got ++ [bs], rest', ?_, hbit, ?_, ?_, ?_, hreg⟩
      · rw [List.getElem?_set, if_pos rfl, if_pos (h.length ▸ hlt)]
        exact congrArg some hl
      · simp [hin]
      · simpa using hans
      · simp [hcount]
  · have hst : (streams.set k (answerStream (J.forwardQid qid (lo + k)) rest))[j]? =
        streams[j]? := by
      rw [List.getElem?_set, if_neg hkj]
    have hin' : (s.inputBeliefStates.modify (lo + k) (· ++ [bs]))[lo + j]? =
        s.inputBeliefStates[lo + j]? := by
      simp [hkj]
    have hcount' : (counts.modify (lo + k) (· + 1))[lo + j]? = counts[lo + j]? := by
      simp [hkj]
    simp only [hst, hin', hcount']
    exact h.each j hj

/-- The marking with the bit of neighbour `i` set. -/
private lemma getLsbD_mark (marking : BitVec 64) (i j : ℕ) :
    (marking ||| 1#64 <<< i).getLsbD j =
      (marking.getLsbD j || (decide (j < 64) && decide (i = j))) := by
  rw [BitVec.getLsbD_or, BitVec.getLsbD_shiftLeft, BitVec.getLsbD_one]
  congr 1
  by_cases hij : i = j
  · subst hij
    simp
  · by_cases hji : j < i
    · simp [hji, hij]
    · have : ¬ j - i = 0 := by omega
      simp [this, hij]

/-- Reading the end marker of an asked neighbour, which has sent a state. -/
lemma read_marker (hq : Plain qid) (hm : lo + answers.length ≤ J.neighbors.length)
    (h64 : J.neighbors.length ≤ 64) (h : Receiving J qid lo answers streams marking counts s)
    {k : ℕ}
    (hk : streams[k]? = some (answerStream (J.forwardQid qid (lo + k)) []))
    (hne : counts.getD (lo + k) 0 ≠ 0) (rest : List (ReturnedBeliefState bso)) :
    Receiving J qid lo answers (streams.set k []) (marking ||| 1#64 <<< (lo + k)) counts
      { s with net := s.net.conclude qid (J.forwardQid qid (lo + k)) rest } := by
  obtain ⟨hlt, got, todo, hbit, hin, hans, hcount, hreg, hhead⟩ := h.head_cases hk
  have htodo : todo = [] := by
    rcases hhead with ⟨h', -⟩ | ⟨bs, rest, -, hrbs, -⟩
    · exact h'
    · cases hrbs
  subst htodo
  refine ⟨fun j hj => ?_, by rw [List.length_set, h.length], fun j hj => ?_⟩
  · by_cases hkj : k = j
    · subst hkj
      refine Or.inl ⟨?_, ?_, ?_, ?_⟩
      · rw [List.getElem?_set, if_pos rfl, if_pos (h.length ▸ hlt)]
      · have : lo + k < 64 := by omega
        simp [this]
      · rw [hans, List.append_nil]
        exact hin
      · rw [hans, List.append_nil]
        intro hnil
        rw [Option.some.inj hnil] at hcount
        simp [List.getD, hcount] at hne
    · have hst : (streams.set k [])[j]? = streams[j]? := by
        rw [List.getElem?_set, if_neg hkj]
      have hbitj : (marking ||| 1#64 <<< (lo + k)).getLsbD (lo + j) =
          marking.getLsbD (lo + j) := by
        rw [getLsbD_mark]
        simp [hkj]
      have hq' : J.forwardQid qid (lo + j) ≠ J.forwardQid qid (lo + k) := by
        intro heq
        have hinj := J.forwardQid_injective hq (by omega) (by omega) heq
        omega
      rw [hst, hbitj]
      rcases h.each j hj with hdone | ⟨got', todo', h1, h2, h3, h4, h5, h6⟩
      · exact Or.inl hdone
      · exact Or.inr ⟨got', todo', h1, h2, h3, h4, h5, (List.mem_erase_of_ne hq').mpr h6⟩
  · have hkj : lo + k ≠ j := by omega
    rw [getLsbD_mark, h.others j hj]
    simp [hkj]

end Receiving

section

variable {lo : ℕ} {answers : List (List (NewBeliefState bso.width))} {allReturned : BitVec 64}

lemma MarkersLast.tail {rbs : ReturnedBeliefState bso} {queue : List (ReturnedBeliefState bso)}
    (h : MarkersLast J qid lo answers (rbs :: queue)) :
    MarkersLast J qid lo answers queue :=
  fun k pre post hk hqueue => h k (rbs :: pre) post hk (by rw [hqueue, List.cons_append])

/-- How the loop of `ask_first_packs` ends for neighbours from `lo` on, with `streams` still to
arrive.  With the result `true` it holds all answers and has read everything; with `false` a
neighbour has no state. -/
structure PacksReceived (J : JoinerConfig) (qid : Qid) (lo : ℕ)
    (answers : List (List (NewBeliefState bso.width)))
    (streams : List (List (ReturnedBeliefState bso))) (queue : List (ReturnedBeliefState bso))
    (s : State bso) (result : Bool) (s' : State bso) : Prop where
  frame : s' = { s with inputBeliefStates := s'.inputBeliefStates, net := s'.net }
  result_iff : result = true ↔ ∀ a ∈ answers, a ≠ []
  inputs : result = true → ∀ k < answers.length, s'.inputBeliefStates[lo + k]? = answers[k]?
  others : ∀ i, ¬ (lo ≤ i ∧ i < lo + answers.length) →
    s'.inputBeliefStates[i]? = s.inputBeliefStates[i]?
  length : s'.inputBeliefStates.length = s.inputBeliefStates.length
  pending : s'.net.pending = s.net.pending
  conclusions : ∀ c ∈ s'.net.conclusions, strippedQid c.2 = c.1
  markers : ∃ read, s'.net.conclusions = s.net.conclusions ++ read ∧
    (result = true → ∀ k l, streams[k]? = some l → l ≠ [] → (qid, J.forwardQid qid (lo + k)) ∈ read)
  joinIn : result = true ∨ MarkersLast J qid lo answers queue → s'.net.joinIn = []

section Step

variable {streams : List (List (ReturnedBeliefState bso))} {marking : BitVec 64} {counts : List ℕ}
  {s s' : State bso} {queue : List (ReturnedBeliefState bso)} {result : Bool} {k : ℕ}

/-- The end of the loop, after a state of an asked neighbour was read. -/
lemma PacksReceived.of_state (h : Receiving J qid lo answers streams marking counts s)
    {bs : NewBeliefState bso.width} {rest : List (NewBeliefState bso.width)}
    (hk : streams[k]? = some (answerStream (J.forwardQid qid (lo + k)) (bs :: rest)))
    (hres : PacksReceived J qid lo answers
      (streams.set k (answerStream (J.forwardQid qid (lo + k)) rest)) queue
      { s with inputBeliefStates := s.inputBeliefStates.modify (lo + k) (· ++ [bs]) } result s') :
    PacksReceived J qid lo answers streams (⟨some bs, J.forwardQid qid (lo + k)⟩ :: queue) s result
      s' := by
  obtain ⟨hlt, -⟩ := h.head_cases hk
  refine ⟨?_, hres.result_iff, hres.inputs, ?_, ?_, hres.pending, hres.conclusions, ?_,
    fun hj => hres.joinIn (hj.imp_right MarkersLast.tail)⟩
  · rw [hres.frame]
  · intro i hi
    have hne : lo + k ≠ i := by omega
    rw [hres.others i hi]
    simp [hne]
  · rw [hres.length]
    simp
  · obtain ⟨read, hread, hall⟩ := hres.markers
    refine ⟨read, hread, fun hr j l hj hl => ?_⟩
    by_cases hkj : k = j
    · subst hkj
      have hlen : k < streams.length := h.length ▸ hlt
      have hnonempty : answerStream (J.forwardQid qid (lo + k)) rest ≠ [] := by
        simp [answerStream]
      apply hall hr k (answerStream (J.forwardQid qid (lo + k)) rest) _ hnonempty
      rw [List.getElem?_set, if_pos rfl, if_pos hlen]
    · apply hall hr j l _ hl
      rw [List.getElem?_set, if_neg hkj, hj]

/-- The end of the loop, after the end marker of an asked neighbour with a state was read. -/
lemma PacksReceived.of_marker
    (hres : PacksReceived J qid lo answers (streams.set k []) queue
      { s with net := s.net.conclude qid (J.forwardQid qid (lo + k)) queue } result s') :
    PacksReceived J qid lo answers streams (⟨none, J.forwardQid qid (lo + k)⟩ :: queue) s result
      s' := by
  refine ⟨?_, hres.result_iff, hres.inputs, hres.others, hres.length, hres.pending,
    hres.conclusions, ?_, fun hj => hres.joinIn (hj.imp_right MarkersLast.tail)⟩
  · rw [hres.frame]
  · obtain ⟨read, hread, hall⟩ := hres.markers
    refine ⟨(qid, J.forwardQid qid (lo + k)) :: read, ?_, fun hr j l hj hl => ?_⟩
    · rw [hread, Network.conclude, List.append_assoc]
      rfl
    · by_cases hkj : k = j
      · rw [hkj]
        exact List.mem_cons_self
      · apply List.mem_cons_of_mem
        apply hall hr j l _ hl
        rw [List.getElem?_set, if_neg hkj, hj]

end Step

/-- The loop of `ask_first_packs`, from any point in the middle: by induction on the queue, which
loses its first message with every round. -/
theorem receiveFirstPacks_received (hq : Plain qid) (hm : lo + answers.length ≤ J.neighbors.length)
    (h64 : J.neighbors.length ≤ 64)
    (hall : ∀ i, allReturned.getLsbD i = decide (lo ≤ i ∧ i < lo + answers.length))
    (queue : List (ReturnedBeliefState bso)) :
    ∀ (streams : List (List (ReturnedBeliefState bso))) (marking : BitVec 64) (counts : List ℕ)
      (s : State bso), Interleaving streams queue →
        Receiving J qid lo answers streams marking counts s →
        (∀ c ∈ s.net.conclusions, strippedQid c.2 = c.1) →
        ∃ result s', receiveFirstPacks J qid allReturned queue marking counts s =
          .ok (result, s') ∧ PacksReceived J qid lo answers streams queue s result s' := by
  induction queue with
  | nil =>
      intro streams marking counts s hint h hc
      obtain ⟨hne, hin⟩ := h.inputs_eq hint
      refine ⟨true, { s with net := { s.net with joinIn := [] } }, ?_, rfl,
        ⟨fun _ => hne, fun _ => rfl⟩, fun _ => hin, fun _ _ => rfl, rfl, rfl, hc, ?_, fun _ => rfl⟩
      · rw [receiveFirstPacks, if_pos ((h.marking_eq_iff hall).mpr hint)]
      · refine ⟨[], (List.append_nil _).symm, fun _ k l hk hl => ?_⟩
        exact absurd (hint l (List.mem_of_getElem? hk)) hl
  | cons rbs queue ih =>
      intro streams marking counts s hint h hc
      obtain ⟨k, l, hk, hint'⟩ := hint
      obtain ⟨hlt, got, todo, hbit, hin, hans, hcount, hreg, hhead⟩ := h.head_cases hk
      have hopen : marking ≠ allReturned := by
        intro heq
        have := (h.marking_eq_iff hall).mp heq _ (List.mem_of_getElem? hk)
        cases this
      have hindex :
          J.offset2index (neighborOffsetFromQid (J.forwardQid qid (lo + k))) = lo + k := by
        rw [J.offset_forwardQid hq (by omega), J.offset2index_neighbor (by omega)]
      rcases hhead with ⟨rfl, rfl, rfl⟩ | ⟨bs, rest, rfl, rfl, rfl⟩
      · -- an end marker: a neighbour without states ends the loop
        rw [receiveFirstPacks, if_neg hopen]
        simp only [Network.endMarker_eq hreg, hindex]
        have hc' : ∀ c ∈ (s.net.conclude qid (J.forwardQid qid (lo + k)) queue).conclusions,
            strippedQid c.2 = c.1 :=
          mem_conclusions_append hc (J.stripped_forwardQid hq _)
        by_cases hzero : counts.getD (lo + k) 0 = 0
        · rw [if_pos hzero]
          have hgot : got = [] := by
            simpa [List.getD, hcount] using hzero
          subst hgot
          refine ⟨false, _, rfl, rfl, ⟨fun hf => absurd hf (by simp), fun hne => ?_⟩,
            fun hf => absurd hf (by simp), fun _ _ => rfl, rfl, rfl, hc',
            ⟨_, rfl, fun hf => absurd hf (by simp)⟩, ?_⟩
          · exact absurd rfl (hne [] (List.mem_of_getElem? hans))
          · rintro (hf | hlast)
            · cases hf
            · exact hlast k [] queue hans rfl
        · rw [if_neg hzero]
          have h' := h.read_marker hq hm h64 hk hzero queue
          obtain ⟨result, s', hrun, hres⟩ := ih _ _ _ _ hint' h' hc'
          exact ⟨result, s', hrun, hres.of_marker⟩
      · -- a state
        rw [receiveFirstPacks, if_neg hopen]
        simp only [hindex, J.stripped_forwardQid hq, ne_eq, not_true_eq_false, if_false]
        obtain ⟨result, s', hrun, hres⟩ := ih _ _ _ _ hint' (h.read_state hk) hc
        exact ⟨result, s', hrun, PacksReceived.of_state h hk hres⟩

variable (env history) in
/-- `ask_first_packs` on a settled joiner, for fewer than 64 neighbours. -/
theorem askFirstPacks_received (hq : Plain qid) (h64 : J.neighbors.length ≤ 64) {hi : ℕ}
    (hle : lo ≤ hi) (hlast : hi < J.neighbors.length) (hcount : hi - lo + 1 < 64) {s : State bso}
    (hs : s.net.Settled) (hlen : s.inputBeliefStates.length = J.neighbors.length) :
    ∃ result s', askFirstPacks J env history qid lo hi s = .ok (result, s') ∧
      PacksReceived J qid lo (packAnswers J env history qid lo (hi - lo + 1) s.net.clock)
        (packStreams J qid lo (packAnswers J env history qid lo (hi - lo + 1) s.net.clock))
        (packArrivals J env history qid lo (hi - lo + 1) s.net.clock) s result s' := by
  have hall := getLsbD_allNeighborsReturned hle (by omega) hcount
  have hasked : Asked J env history qid lo (hi - lo + 1) s (askPacks J env history qid lo hi s) :=
    asked_foldl lo (hi - lo + 1) s
  set s₁ := askPacks J env history qid lo hi s
  set answers := packAnswers J env history qid lo (hi - lo + 1) s.net.clock with hanswers
  have hlength : answers.length = hi - lo + 1 := by simp [hanswers]
  have hstreams : s₁.net.joinIn :: s₁.net.pending = [] :: packStreams J qid lo answers := by
    rw [hasked.joinIn, hs.joinIn, hasked.pending, hs.pending, List.nil_append]
  have hint : Interleaving (packStreams J qid lo answers) (s₁.net.await env).joinIn := by
    apply Interleaving.nil_cons.mp
    rw [← hstreams]
    exact env.interleaving _ _
  have hmask : ∀ i, (allNeighborsReturned lo hi).getLsbD i =
      decide (lo ≤ i ∧ i < lo + answers.length) := by
    intro i
    rw [hall, hlength]
    exact decide_eq_decide.mpr (by omega)
  have hstart : Receiving J qid lo answers (packStreams J qid lo answers) 0
      (List.replicate (hi + 1) 0) { s₁ with net := s₁.net.await env } := by
    refine ⟨fun k hk => Or.inr ⟨[], answers[k], ?_, by simp, ?_, ?_, ?_, ?_⟩,
      by rw [packStreams, List.length_mapIdx], by simp⟩
    · rw [packStreams, List.getElem?_mapIdx, List.getElem?_eq_getElem hk]
      rfl
    · have hlt : lo + k < s.inputBeliefStates.length := by omega
      rw [hasked.inputs, if_pos (by omega), List.getElem?_eq_getElem hlt]
      rfl
    · rw [List.getElem?_eq_getElem hk, List.nil_append]
    · rw [List.getElem?_replicate, if_pos (by omega)]
      rfl
    · exact hasked.registered k (by omega)
  obtain ⟨result, s', hrun, hres⟩ :=
    receiveFirstPacks_received hq (by omega) h64 hmask _ _ _ _ _ hint
    hstart (by rw [Network.await, hasked.conclusions]; exact hs.conclusions)
  have harrive : (s₁.net.await env).joinIn =
      env.arrive (s.net.clock + (hi - lo + 1)) ([] :: packStreams J qid lo answers) := by
    rw [Network.await, hstreams, hasked.clock]
  rw [harrive] at hres
  refine ⟨result, s', ?_, ?_⟩
  · rw [askFirstPacks, if_neg (by omega)]
    exact hrun
  · refine ⟨?_, hres.result_iff, hres.inputs, ?_, hres.length.trans hasked.length,
      hres.pending.trans hs.pending.symm, hres.conclusions, ?_, hres.joinIn⟩
    · rw [hres.frame, hasked.frame]
    · intro i hi
      rw [hres.others i hi, hasked.inputs, if_neg (by omega)]
    · rw [← hasked.conclusions]
      exact hres.markers

/-- With all answers received, the packs of the first neighbours are replaced. -/
lemma PacksReceived.inputs_eq {streams : List (List (ReturnedBeliefState bso))}
    {queue : List (ReturnedBeliefState bso)} {s s' : State bso}
    (h : PacksReceived J qid 0 answers streams queue s true s') :
    s'.inputBeliefStates = answers ++ s.inputBeliefStates.drop answers.length := by
  refine List.ext_getElem? (fun i => ?_)
  by_cases hi : i < answers.length
  · have hin := h.inputs rfl i hi
    rw [Nat.zero_add] at hin
    rw [List.getElem?_append_left hi, hin]
  · rw [List.getElem?_append_right (by omega), List.getElem?_drop, h.others i (by omega)]
    congr 1
    omega

/-- With all answers received, the joiner is settled again. -/
lemma PacksReceived.settled {streams : List (List (ReturnedBeliefState bso))}
    {queue : List (ReturnedBeliefState bso)} {s s' : State bso}
    (h : PacksReceived J qid lo answers streams queue s true s') (hs : s.net.Settled) :
    s'.net.Settled :=
  ⟨h.joinIn (Or.inl rfl), h.pending.trans hs.pending, h.conclusions⟩

variable (env history) in
/-- The first packs of all neighbours: they replace everything the joiner held. -/
theorem askFirstPacks_all (hq : Plain qid) (h64 : J.neighbors.length < 64) {s : State bso}
    (hs : s.net.Settled) (hlen : s.inputBeliefStates.length = J.neighbors.length) :
    ∃ result s', askFirstPacks J env history qid 0 (J.neighbors.length - 1) s.reset =
        .ok (result, s') ∧
      (∃ streams, PacksReceived J qid 0
        (packAnswers J env history qid 0 J.neighbors.length s.net.clock) streams
        (packArrivals J env history qid 0 J.neighbors.length s.net.clock) s.reset result s') ∧
      (result = true → s' = { s.reset with
        inputBeliefStates := packAnswers J env history qid 0 J.neighbors.length s.net.clock
        net := s'.net } ∧ s'.net.Settled) := by
  have hpos : 0 < J.neighbors.length := List.length_pos_iff.mpr J.neighbors_ne
  obtain ⟨result, s', hask, hrec⟩ := askFirstPacks_received env history hq h64.le
    (Nat.zero_le (J.neighbors.length - 1)) (by omega) (by omega) (s := s.reset) hs
    (by rw [State.reset, List.length_map, hlen])
  have hlast : J.neighbors.length - 1 - 0 + 1 = J.neighbors.length := by omega
  rw [hlast] at hrec
  refine ⟨result, s', hask, ⟨_, hrec⟩, ?_⟩
  rintro rfl
  refine ⟨?_, hrec.settled hs⟩
  have hnil : s.reset.inputBeliefStates.drop (packAnswers J env history qid 0
      J.neighbors.length s.reset.net.clock).length = [] := by
    rw [List.drop_eq_nil_iff]
    simp [State.reset, hlen]
  have hin := hrec.inputs_eq
  rw [hnil, List.append_nil] at hin
  rw [hrec.frame, hin]
  rfl

end

end StreamingJoiner

end Dmcs
