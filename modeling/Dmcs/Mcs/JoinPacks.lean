import Dmcs.Mcs.AskNeighbors

/-!
# Joining pack by pack (`first_join`, `next_join`)

For each neighbour the answers to the queries of one request are packs of belief states, up to the
first empty one (`PacksServed`).  The joiner then goes through all vectors of pack numbers, the
first neighbour turning fastest (`Odometer.colex`): `Carry` describes it while it looks for the next
vector, with the neighbours in front exhausted.  `joinRun_of_packs` says that in the end it has
tried every combination of what the neighbours sent once and returned every successful one once, as
it does when it asks for everything (`joinRun_of_lists`).

Both are about fewer than 64 neighbours: `ask_first_packs` does not wait for 64.

## The invariant of the loop

Between two rounds the joiner holds one pack of each neighbour, and `packCount` says which.  `Ready`
is this state, for a vector of pack numbers.  A round asks one neighbour for its next pack.  If it
has one, the vector goes up at this place.  If it has none, the joiner moves to the next neighbour
and, before it joins again, asks the neighbours in front for their first packs: `Carry` is the state
in between, as in a counter that carries a digit.

The induction is on the list of the vectors that are still to come, which `Orbit` makes of
`succLow`.  `Joined` describes what a call leaves behind: the results that are ready to be handed
out, and these vectors.
-/

namespace Dmcs

open Odometer Paging QueryID

variable {bso : BeliefStateOffset}

namespace StreamingJoiner

variable {J : JoinerConfig} {env : Environment bso} {history : Finset ℕ} {qid : Qid}
  {Ps : List (Packs (NewBeliefState bso.width))} {Ls : List (List (NewBeliefState bso.width))}

/-- The neighbours answer the queries of a request with these packs: pack `c` for the range that
`next_join` computes for it.  The pack numbers fit a `size_t`. -/
structure PacksServed (J : JoinerConfig) (env : Environment bso) (history : Finset ℕ)
    (Ps : List (Packs (NewBeliefState bso.width))) : Prop where
  length : Ps.length = J.neighbors.length
  count_lt : ∀ P ∈ Ps, P.count < 2 ^ 64
  answer : ∀ i P, Ps[i]? = some P → ∀ c ≤ P.count, ∀ t qid,
    answerOf J env history qid t i (packRange J.packSize c).1 (packRange J.packSize c).2 = P.pack c

/-- The neighbours answer the queries of a request for everything with these lists. -/
structure ListsServed (J : JoinerConfig) (env : Environment bso) (history : Finset ℕ)
    (Ls : List (List (NewBeliefState bso.width))) : Prop where
  length : Ls.length = J.neighbors.length
  answer : ∀ i L, Ls[i]? = some L → ∀ t qid, answerOf J env history qid t i 0 0 = L

/-- The states a join of the packs with these numbers gives. -/
def joinedAt (Ps : List (Packs (NewBeliefState bso.width))) (ds : List ℕ) :
    List (NewBeliefState bso.width) :=
  (product (packsAt ds Ps)).filterMap joinOne

/-! ## One join -/

lemma combinations_eq {packs : List (List (NewBeliefState bso.width))}
    (h : ∀ p ∈ packs, p ≠ []) : combinations packs = product packs := by
  have hends : ∀ e ∈ packs.map List.length, 0 < e := by
    intro e he
    obtain ⟨p, hp, rfl⟩ := List.mem_map.mp he
    exact List.length_pos_iff.mpr (h p hp)
  rw [combinations, visited_next hends (length_tuples _).le, map_pick_tuples]

/-- `do_join` without pending results: the first result is returned, the others are kept. -/
lemma joinAndReturn_eq {s : State bso} (h : ∀ p ∈ s.inputBeliefStates, p ≠ [])
    (hres : s.joinedResults = []) :
    joinAndReturn qid s =
      .ok (((product s.inputBeliefStates).filterMap joinOne).head?.map (fun bs => ⟨some bs, qid⟩),
        { s with
          nextNeighbor := 0
          askingNext := false
          joinedResults := ((product s.inputBeliefStates).filterMap joinOne).tail.map
            (fun bs => ⟨some bs, qid⟩)
          tried := s.tried ++ product s.inputBeliefStates }) := by
  rw [joinAndReturn, joinPacks, doJoin_eq h, combinations_eq h, hres]
  cases (product s.inputBeliefStates).filterMap joinOne <;> rfl

/-! ## One round -/

/-- Every pack number is below the number of packs. -/
def Valid (Ps : List (Packs (NewBeliefState bso.width))) (ds : List ℕ) : Prop :=
  List.Forall₂ (fun d P => d < P.count) ds Ps

lemma valid_of_mem_colex {ds : List ℕ} (h : ds ∈ colex (Ps.map Packs.count)) : Valid Ps ds := by
  induction Ps generalizing ds with
  | nil =>
      simp only [List.map_nil, colex, List.mem_singleton] at h
      rw [h]
      exact List.Forall₂.nil
  | cons P Ps ih =>
      simp only [List.map_cons, colex, List.mem_flatMap, List.mem_map, List.mem_range] at h
      obtain ⟨ds, hds, d, hd, rfl⟩ := h
      exact List.Forall₂.cons hd (ih hds)

lemma packsAt_ne_nil {ds : List ℕ} (h : Valid Ps ds) : ∀ c ∈ packsAt ds Ps, c ≠ [] := by
  induction h with
  | nil => simp [packsAt]
  | @cons d P ds Ps hd _ ih =>
      intro c hc
      rw [packsAt, List.zipWith_cons_cons, List.mem_cons] at hc
      rcases hc with rfl | hc
      · exact P.ne_nil d hd
      · exact ih c hc

/-- The neighbours in `pre` are exhausted; the others are at the packs `post`. -/
structure Carry (Ps : List (Packs (NewBeliefState bso.width))) (pre post : List ℕ)
    (s : State bso) : Prop where
  nextNeighbor : s.nextNeighbor = pre.length
  askingNext : s.askingNext = decide (0 < pre.length)
  packCount : s.packCount = pre ++ post
  valid : Valid (Ps.drop pre.length) post
  inputs : s.inputBeliefStates =
    List.replicate pre.length [] ++ packsAt post (Ps.drop pre.length)
  net : s.net.Settled

/-- The packs `ds` are at hand. -/
structure Ready (Ps : List (Packs (NewBeliefState bso.width))) (ds : List ℕ) (s : State bso) :
    Prop where
  packCount : s.packCount = ds
  inputs : s.inputBeliefStates = packsAt ds Ps
  net : s.net.Settled

/-- The range for the first pack is the one that `ask_first_packs` asks for. -/
lemma packRange_zero (hp : 1 ≤ J.packSize) : packRange J.packSize 0 = firstRange J := by
  have hpos : J.packSize > 0 := hp
  rw [packRange, firstRange, if_pos hpos, Nat.zero_mul, Nat.zero_add, Nat.one_mul,
    Nat.mod_eq_of_lt J.packSize_lt]
  rfl

/-- The first packs of the first neighbours. -/
lemma PacksServed.packAnswers_eq (h : PacksServed J env history Ps) (hp : 1 ≤ J.packSize) {m : ℕ}
    (hm : m ≤ J.neighbors.length) (t : ℕ) :
    packAnswers J env history qid 0 m t = packsAt (List.replicate m 0) (Ps.take m) := by
  have hlen := h.length
  refine List.ext_getElem? (fun i => ?_)
  by_cases hi : i < m
  · have hget := List.getElem?_eq_getElem (by omega : i < Ps.length)
    have hanswer := h.answer i _ hget 0 (Nat.zero_le _) (t + i) qid
    rw [packRange_zero hp] at hanswer
    simp only [packAnswers, packsAt, List.getElem?_map, List.getElem?_zipWith,
      List.getElem?_range hi, Option.map_some, List.getElem?_replicate, if_pos hi,
      List.getElem?_take, hget, Nat.zero_add, hanswer]
  · simp only [packAnswers, packsAt]
    rw [List.getElem?_eq_none (by simp; omega), List.getElem?_eq_none (by simp; omega)]

variable (history) in
/-- The round asks neighbour `pre.length` for its next pack. -/
lemma Carry.ask (hserved : PacksServed J env history Ps) (hq : Plain qid) {pre post : List ℕ}
    {d : ℕ} {P : Packs (NewBeliefState bso.width)} {Ps' : List (Packs (NewBeliefState bso.width))}
    (hP : Ps.drop pre.length = P :: Ps') {s : State bso} (h : Carry Ps pre (d :: post) s) :
    pre.length < J.neighbors.length ∧ (s.packCount.getD s.nextNeighbor 0 + 1) % 2 ^ 64 = d + 1 ∧
      ∃ net : Network bso, net.Settled ∧
        askNeighborAndReceive J env history qid s.nextNeighbor (packRange J.packSize (d + 1)).1
          (packRange J.packSize (d + 1)).2
          { s with packCount := s.packCount.set s.nextNeighbor (d + 1) } =
            .ok (!(P.pack (d + 1)).isEmpty, { s with
              packCount := pre ++ (d + 1) :: post
              inputBeliefStates := List.replicate pre.length [] ++
                P.pack (d + 1) :: packsAt post Ps'
              net := net }) := by
  have hget : Ps[pre.length]? = some P := by
    have h0 := congrArg (fun l => l[0]?) hP
    simpa only [List.getElem?_drop, Nat.add_zero, List.getElem?_cons_zero] using h0
  obtain ⟨hlt, -⟩ := List.getElem?_eq_some_iff.mp hget
  have hlt' : pre.length < J.neighbors.length := hserved.length ▸ hlt
  have hd : d < P.count := by
    have hvalid := h.valid
    rw [hP] at hvalid
    exact (List.forall₂_cons.mp hvalid).1
  have hcount := hserved.count_lt P (List.mem_of_getElem? hget)
  refine ⟨hlt', ?_, ?_⟩
  · rw [h.packCount, h.nextNeighbor]
    simp only [List.getD, le_refl, List.getElem?_append_right, Nat.sub_self,
      List.getElem?_cons_zero, Option.getD_some]
    exact Nat.mod_eq_of_lt (by omega)
  · obtain ⟨net, hnet, heq⟩ := askNeighborAndReceive_eq env history hq hlt'
      (packRange J.packSize (d + 1)).1 (packRange J.packSize (d + 1)).2
      (s := { s with packCount := s.packCount.set s.nextNeighbor (d + 1) }) h.net
    refine ⟨net, hnet, ?_⟩
    rw [h.nextNeighbor] at heq ⊢
    rw [heq, hserved.answer _ P hget (d + 1) hd, h.packCount, h.inputs, hP]
    simp [packsAt]

variable (history) in
/-- A neighbour that is exhausted is passed over. -/
lemma nextRound_exhausted (hserved : PacksServed J env history Ps) (hq : Plain qid)
    {pre post : List ℕ} {d : ℕ} {P : Packs (NewBeliefState bso.width)}
    {Ps' : List (Packs (NewBeliefState bso.width))} (hP : Ps.drop pre.length = P :: Ps')
    {s : State bso} (h : Carry Ps pre (d :: post) s) (hempty : P.pack (d + 1) = []) :
    ∃ s', nextRound J env history qid s = .ok (none, s') ∧ Carry Ps (pre ++ [d + 1]) post s' ∧
      s'.joinedResults = s.joinedResults ∧ s'.tried = s.tried := by
  obtain ⟨hlt, hdigit, net, hnet, hask⟩ := h.ask history hserved hq hP
  have hlast : s.nextNeighbor ≠ J.neighbors.length := by
    rw [h.nextNeighbor]
    omega
  rw [nextRound, if_neg hlast]
  simp only [hdigit, hask, hempty, List.isEmpty_nil, Bool.not_true]
  refine ⟨_, rfl, ?_, rfl, rfl⟩
  have hdrop : Ps.drop (pre.length + 1) = Ps' := by
    rw [← List.drop_drop, hP]
    rfl
  have hvalid := h.valid
  rw [hP] at hvalid
  refine ⟨by simp [h.nextNeighbor], by simp, by simp, ?_, ?_, hnet⟩
  · rw [List.length_append, List.length_singleton, hdrop]
    exact (List.forall₂_cons.mp hvalid).2
  · rw [List.length_append, List.length_singleton, hdrop, List.replicate_succ', List.append_assoc]
    rfl

variable (history) in
/-- Asking the neighbours in front for their first packs. -/
lemma askEarlier_eq (h64 : J.neighbors.length < 64) (hserved : PacksServed J env history Ps)
    (hp : 1 ≤ J.packSize) (hne : ∀ P ∈ Ps, 0 < P.count) (hq : Plain qid) {j : ℕ}
    (hj : j < J.neighbors.length) (packs : List (List (NewBeliefState bso.width)))
    (pre post : List ℕ) {s : State bso} (hnext : s.nextNeighbor = j)
    (hasking : s.askingNext = decide (0 < j)) (hpre : pre.length = j)
    (hcount : s.packCount = pre ++ post)
    (hinputs : s.inputBeliefStates = List.replicate j [] ++ packs)
    (hpacks : j + packs.length = J.neighbors.length) (hnet : s.net.Settled) :
    ∃ net : Network bso, net.Settled ∧ askEarlier J env history qid s = .ok { s with
      packCount := List.replicate j 0 ++ post
      inputBeliefStates := packsAt (List.replicate j 0) (Ps.take j) ++ packs
      net := net } := by
  by_cases hj0 : j = 0
  · subst hj0
    refine ⟨s.net, hnet, ?_⟩
    have hpre' : pre = [] := List.length_eq_zero_iff.mp hpre
    rw [askEarlier, if_neg (by simp [hasking])]
    subst hpre'
    simp only [List.replicate_zero, List.nil_append, packsAt,
      List.zipWith_nil_left] at hinputs hcount ⊢
    rw [← hinputs, ← hcount]
  · obtain ⟨result, s', hask, hrec⟩ := askFirstPacks_received env history hq h64.le
      (Nat.zero_le (j - 1)) (by omega) (by omega) hnet
      (by rw [hinputs, List.length_append, List.length_replicate, hpacks])
    have hj1 : j - 1 - 0 + 1 = j := by omega
    rw [hj1, hserved.packAnswers_eq hp (by omega)] at hrec
    have hlen := hserved.length
    have hvalid : Valid (Ps.take j) (List.replicate j 0) := by
      refine List.forall₂_iff_get.mpr ⟨by simp; omega, fun i hi hi' => ?_⟩
      simp only [List.get_eq_getElem, List.getElem_replicate, List.getElem_take]
      exact hne _ (List.getElem_mem _)
    have hresult : result = true := hrec.result_iff.mpr (packsAt_ne_nil hvalid)
    subst hresult
    refine ⟨s'.net, hrec.settled hnet, ?_⟩
    have hlength : (packsAt (List.replicate j 0) (Ps.take j)).length = j := by
      simp only [packsAt, List.length_zipWith, List.length_replicate, List.length_take]
      omega
    have hs' : s' = { s with
        inputBeliefStates := packsAt (List.replicate j 0) (Ps.take j) ++ packs
        net := s'.net } := by
      rw [hrec.frame, hrec.inputs_eq, hlength, hinputs]
      simp
    have hj' : s.nextNeighbor ≠ 0 := by omega
    rw [askEarlier, if_pos (by rw [hasking]; simp; omega), if_neg hj', hnext, hask, hs']
    simp only [hnext, hcount]
    rw [← hpre, List.drop_left]

variable (history) in
/-- A neighbour with a further pack: the neighbours in front start over, and the packs are
joined. -/
lemma nextRound_ready (h64 : J.neighbors.length < 64) (hserved : PacksServed J env history Ps)
    (hp : 1 ≤ J.packSize) (hne : ∀ P ∈ Ps, 0 < P.count) (hq : Plain qid) {pre post : List ℕ}
    {d : ℕ} {P : Packs (NewBeliefState bso.width)} {Ps' : List (Packs (NewBeliefState bso.width))}
    (hP : Ps.drop pre.length = P :: Ps') {s : State bso} (h : Carry Ps pre (d :: post) s)
    (hpack : P.pack (d + 1) ≠ []) :
    ∃ s₁, nextRound J env history qid s = joinAndReturn qid s₁ ∧
      Ready Ps (List.replicate pre.length 0 ++ (d + 1) :: post) s₁ ∧
      s₁.joinedResults = s.joinedResults ∧ s₁.tried = s.tried := by
  obtain ⟨hlt, hdigit, net, hnet, hask⟩ := h.ask history hserved hq hP
  have hlast : s.nextNeighbor ≠ J.neighbors.length := by
    rw [h.nextNeighbor]
    omega
  have hfound : (!(P.pack (d + 1)).isEmpty) = true := by
    simpa using hpack
  have hvalid := h.valid
  rw [hP] at hvalid
  have hpost : post.length = Ps'.length := (List.forall₂_cons.mp hvalid).2.length_eq
  have hlen := hserved.length
  have hdroplen := congrArg List.length hP
  rw [List.length_drop, List.length_cons] at hdroplen
  obtain ⟨net', hnet', hearlier⟩ := askEarlier_eq history h64 hserved hp hne hq hlt
    (P.pack (d + 1) :: packsAt post Ps') pre ((d + 1) :: post)
    (s := { s with
      packCount := pre ++ (d + 1) :: post
      inputBeliefStates := List.replicate pre.length [] ++ P.pack (d + 1) :: packsAt post Ps'
      net := net })
    h.nextNeighbor h.askingNext rfl rfl rfl
    (by simp only [List.length_cons, packsAt, List.length_zipWith]; omega) hnet
  rw [nextRound, if_neg hlast]
  simp only [hdigit, hask, hfound, hearlier]
  refine ⟨_, rfl, ⟨rfl, ?_, hnet'⟩, rfl, rfl⟩
  -- the packs in front and the packs from here on are the packs of all neighbours
  have hsplit : Ps = Ps.take pre.length ++ P :: Ps' := by
    rw [← hP, List.take_append_drop]
  conv_rhs => rw [hsplit]
  rw [packsAt, packsAt, packsAt, List.zipWith_append (by simp; omega)]
  rfl

/-! ## The loop -/

/-- What `next_join` does after a round. -/
def continueLoop (J : JoinerConfig) (env : Environment bso) (history : Finset ℕ) (qid : Qid)
    (fuel : ℕ) : Except Fault (Option (ReturnedBeliefState bso) × State bso) →
      Except Fault (ReturnedBeliefState bso × State bso)
  | .error f => .error f
  | .ok (some rbs, s) => .ok (rbs, s)
  | .ok (none, s) => nextLoop J env history qid fuel s

lemma nextLoop_succ (fuel : ℕ) (s : State bso) :
    nextLoop J env history qid (fuel + 1) s =
      continueLoop J env history qid fuel (nextRound J env history qid s) := by
  rw [nextLoop]
  cases nextRound J env history qid s with
  | error f => rfl
  | ok r =>
      obtain ⟨rbs, s⟩ := r
      cases rbs <;> rfl

/-- More fuel does not change a result. -/
lemma nextLoop_mono {fuel fuel' : ℕ} (hle : fuel ≤ fuel') {s : State bso}
    {r : ReturnedBeliefState bso × State bso}
    (h : nextLoop J env history qid fuel s = .ok r) :
    nextLoop J env history qid fuel' s = .ok r := by
  induction fuel generalizing fuel' s with
  | zero => cases h
  | succ fuel ih =>
      obtain ⟨fuel', rfl⟩ : ∃ k, fuel' = k + 1 := ⟨fuel' - 1, by omega⟩
      rw [nextLoop_succ] at h ⊢
      cases hround : nextRound J env history qid s with
      | error f => rw [hround] at h; cases h
      | ok r' =>
          obtain ⟨rbs, s'⟩ := r'
          rw [hround] at h
          cases rbs with
          | none => exact ih (by omega) h
          | some rbs => exact h

variable (history) in
/-- The loop finds the next vector of pack numbers, or ends. -/
lemma nextLoop_scan (h64 : J.neighbors.length < 64) (hserved : PacksServed J env history Ps)
    (hp : 1 ≤ J.packSize) (hne : ∀ P ∈ Ps, 0 < P.count) (hq : Plain qid) (post : List ℕ) :
    ∀ (pre : List ℕ) (s : State bso), pre.length + post.length = Ps.length →
      Carry Ps pre post s →
        match succLow ((Ps.drop pre.length).map Packs.count) post with
        | none => ∃ fuel s', nextLoop J env history qid fuel s = .ok (⟨none, qid⟩, s') ∧
            s'.tried = s.tried
        | some post' => ∃ k s₁, (∀ fuel, nextLoop J env history qid (fuel + k) s =
              continueLoop J env history qid fuel (joinAndReturn qid s₁)) ∧
            Ready Ps (List.replicate pre.length 0 ++ post') s₁ ∧
            s₁.joinedResults = s.joinedResults ∧ s₁.tried = s.tried := by
  have hlen := hserved.length
  -- induction on the neighbors behind the one that is asked; each exhausted one is set back to its
  -- first pack
  induction post with
  | nil =>
      intro pre s hlength h
      have hnil : Ps.drop pre.length = [] := List.drop_eq_nil_iff.mpr (by simp at hlength; omega)
      rw [hnil]
      refine ⟨1, s.reset, ?_, rfl⟩
      have hlast : s.nextNeighbor = J.neighbors.length := by
        rw [h.nextNeighbor, ← hlen]
        simpa using hlength
      rw [nextLoop_succ, nextRound, if_pos hlast]
      rfl
  | cons d post ih =>
      intro pre s hlength h
      rw [List.length_cons] at hlength
      obtain ⟨P, Ps', hP⟩ : ∃ P Ps', Ps.drop pre.length = P :: Ps' :=
        List.exists_cons_of_length_pos (by rw [List.length_drop]; omega)
      have hPs' : Ps.drop (pre.length + 1) = Ps' := by
        rw [← List.drop_drop, hP]
        rfl
      have hvalid := h.valid
      rw [hP] at hvalid
      have hnext := P.succ_lt_count_iff (List.forall₂_cons.mp hvalid).1
      rw [hP, List.map_cons, succLow]
      -- the next pack of this neighbor has something, or the loop goes on to the next neighbor
      by_cases hd : d + 1 < P.count
      · rw [if_pos hd]
        obtain ⟨s₁, hround, hready, hres, htried⟩ := nextRound_ready history h64 hserved hp
          hne hq hP h (hnext.mp hd)
        exact ⟨1, s₁, fun fuel => by rw [nextLoop_succ, hround], hready, hres, htried⟩
      · rw [if_neg hd]
        have hempty : P.pack (d + 1) = [] := not_not.mp (mt hnext.mpr hd)
        obtain ⟨s', hround, hcarry, hres, htried⟩ := nextRound_exhausted history hserved
          hq hP h hempty
        have hscan := ih (pre ++ [d + 1]) s' (by simp; omega) hcarry
        rw [List.length_append, List.length_singleton, hPs'] at hscan
        cases hsucc : succLow (Ps'.map Packs.count) post with
        | none =>
            rw [hsucc] at hscan
            obtain ⟨fuel, s'', hloop, htried'⟩ := hscan
            refine ⟨fuel + 1, s'', ?_, htried'.trans htried⟩
            rw [nextLoop_succ, hround]
            exact hloop
        | some post' =>
            rw [hsucc] at hscan
            obtain ⟨k, s₁, hloop, hready, hres', htried'⟩ := hscan
            refine ⟨k + 1, s₁, fun fuel => ?_, ?_, hres'.trans hres, htried'.trans htried⟩
            · rw [← Nat.add_assoc, nextLoop_succ, hround]
              exact hloop fuel
            · rw [List.replicate_succ', List.append_assoc] at hready
              exact hready

/-- The packs `ds` have been joined, those of `l` are still to come; `results` are the states that
are ready to be returned. -/
structure Joined (Ps : List (Packs (NewBeliefState bso.width))) (ds : List ℕ)
    (l : List (List ℕ)) (results : List (NewBeliefState bso.width)) (s : State bso) : Prop where
  orbit : Orbit (succLow (Ps.map Packs.count)) (ds :: l)
  valid : ∀ ds' ∈ ds :: l, Valid Ps ds'
  carry : Carry Ps [] ds s
  results_eq : s.joinedResults.map ReturnedBeliefState.beliefState = results.map some

variable (qid) in
/-- After a join the joiner returns a state, or has to go on. -/
lemma Ready.joined {ds : List ℕ} {l : List (List ℕ)} {s : State bso}
    (horbit : Orbit (succLow (Ps.map Packs.count)) (ds :: l))
    (hvalid : ∀ ds' ∈ ds :: l, Valid Ps ds') (h : Ready Ps ds s) (hres : s.joinedResults = []) :
    ∃ s', joinAndReturn qid s =
        .ok ((joinedAt Ps ds).head?.map (fun bs => ⟨some bs, qid⟩), s') ∧
      Joined Ps ds l (joinedAt Ps ds).tail s' ∧
      s'.tried = s.tried ++ product (packsAt ds Ps) := by
  have hne : ∀ p ∈ s.inputBeliefStates, p ≠ [] := by
    rw [h.inputs]
    exact packsAt_ne_nil (hvalid ds (by simp))
  refine ⟨_, joinAndReturn_eq hne hres |>.trans (by rw [h.inputs]; rfl), ?_, rfl⟩
  refine ⟨horbit, hvalid, ⟨rfl, rfl, h.packCount, hvalid ds (by simp), rfl, h.net⟩, ?_⟩
  rw [List.map_map]
  rfl

variable (history) in
/-- `next_join` without pending results: it returns the next state the remaining packs give, or
`NULL` when they give none. -/
lemma nextLoop_joined (h64 : J.neighbors.length < 64) (hserved : PacksServed J env history Ps)
    (hp : 1 ≤ J.packSize) (hne : ∀ P ∈ Ps, 0 < P.count) (hq : Plain qid) (l : List (List ℕ)) :
    ∀ (ds : List ℕ) (s : State bso), Joined Ps ds l [] s →
      ∃ fuel rbs s', nextLoop J env history qid fuel s = .ok (rbs, s') ∧
        ((rbs.beliefState = none ∧ l.flatMap (joinedAt Ps) = [] ∧
            s'.tried = s.tried ++ l.flatMap (fun ds => product (packsAt ds Ps))) ∨
          ∃ bs results ds' l', rbs.beliefState = some bs ∧ l'.length < l.length ∧
            l.flatMap (joinedAt Ps) =
              bs :: results ++ l'.flatMap (joinedAt Ps) ∧
            Joined Ps ds' l' results s' ∧
            s'.tried ++ l'.flatMap (fun ds => product (packsAt ds Ps)) =
              s.tried ++ l.flatMap (fun ds => product (packsAt ds Ps))) := by
  have hlen := hserved.length
  induction l with
  | nil =>
      intro ds s h
      have hscan := nextLoop_scan history h64 hserved hp hne hq ds [] s
        (by simpa using (h.valid ds (by simp)).length_eq) h.carry
      have hnext : succLow (Ps.map Packs.count) ds = none := h.orbit.1
      rw [List.length_nil, List.drop_zero, hnext] at hscan
      obtain ⟨fuel, s', hloop, htried⟩ := hscan
      exact ⟨fuel, _, s', hloop, Or.inl ⟨rfl, rfl, by simpa using htried⟩⟩
  | cons ds' l ih =>
      intro ds s h
      have hscan := nextLoop_scan history h64 hserved hp hne hq ds [] s
        (by simpa using (h.valid ds (by simp)).length_eq) h.carry
      have hnext : succLow (Ps.map Packs.count) ds = some ds' := h.orbit.1
      rw [List.length_nil, List.drop_zero, hnext] at hscan
      obtain ⟨k, s₁, hloop, hready, hres, htried⟩ := hscan
      rw [List.replicate_zero, List.nil_append] at hready
      have hres' : s.joinedResults = [] := by simpa using h.results_eq
      obtain ⟨s₂, hjoin, hjoined, htried₂⟩ := hready.joined qid h.orbit.2
        (fun d hd => h.valid d (List.mem_cons_of_mem _ hd)) (hres.trans hres')
      cases hat : joinedAt Ps ds' with
      | nil =>
          rw [hat] at hjoin hjoined
          obtain ⟨fuel, rbs, s', hloop', hcase⟩ := ih ds' s₂ hjoined
          refine ⟨fuel + k, rbs, s', by rw [hloop, hjoin]; exact hloop', ?_⟩
          rcases hcase with ⟨h1, h2, h3⟩ | ⟨bs, results, ds'', l', h1, h2, h3, h4, h5⟩
          · exact Or.inl ⟨h1, by simp [hat, h2], by simp [h3, htried₂, htried]⟩
          · refine Or.inr ⟨bs, results, ds'', l', h1, by simp; omega, by simp [hat, h3], h4, ?_⟩
            rw [h5, htried₂, htried]
            simp
      | cons bs results =>
          rw [hat] at hjoin hjoined
          refine ⟨0 + k, _, s₂, by rw [hloop, hjoin]; rfl, Or.inr ⟨bs, results, ds', l, rfl,
            by simp, by simp [hat], hjoined, ?_⟩⟩
          rw [htried₂, htried]
          simp

variable (history) in
/-- Calling `next_join` until it returns `NULL` gives the states that are ready and those of the
remaining packs. -/
lemma drain_joined (h64 : J.neighbors.length < 64) (hserved : PacksServed J env history Ps)
    (hp : 1 ≤ J.packSize) (hne : ∀ P ∈ Ps, 0 < P.count) {qids : ℕ → Qid}
    (hq : ∀ i, Plain (qids i)) (n : ℕ) :
    ∀ (l : List (List ℕ)) (ds : List ℕ) (results : List (NewBeliefState bso.width)) (i : ℕ)
      (s : State bso), l.length = n → Joined Ps ds l results s →
        ∃ N, ∀ fuel ≥ N, ∀ calls ≥ N, ∃ s', drain J env history qids fuel calls i s =
          .ok (results ++ l.flatMap (joinedAt Ps), s') ∧
            s'.tried = s.tried ++ l.flatMap (fun ds => product (packsAt ds Ps)) := by
  induction n using Nat.strong_induction_on with
  | _ n ih =>
  intro l ds results
  induction results with
  | nil =>
      intro i s hl h
      have hres : s.joinedResults = [] := by simpa using h.results_eq
      obtain ⟨fuel, rbs, s', hloop, hcase⟩ := nextLoop_joined history h64 hserved hp hne
        (hq i) l ds s h
      have hnext : ∀ fuel' ≥ fuel, nextJoin J env history (qids i) fuel' s = .ok (rbs, s') := by
        intro fuel' hle
        rw [nextJoin, hres]
        simp only
        rw [if_neg (by omega)]
        exact nextLoop_mono hle hloop
      rcases hcase with ⟨h1, h2, h3⟩ | ⟨bs, results, ds', l', h1, h2, h3, h4, h5⟩
      · refine ⟨fuel + 1, fun fuel' hf calls hc => ⟨s', ?_, h3⟩⟩
        obtain ⟨calls, rfl⟩ : ∃ k, calls = k + 1 := ⟨calls - 1, by omega⟩
        rw [drain, hnext fuel' (by omega)]
        simp only [h1, h2, List.nil_append]
      · obtain ⟨N, hN⟩ := ih l'.length (by omega) l' ds' results (i + 1) s' rfl h4
        refine ⟨max N fuel + 1, fun fuel' hf calls hc => ?_⟩
        obtain ⟨calls, rfl⟩ : ∃ k, calls = k + 1 := ⟨calls - 1, by omega⟩
        obtain ⟨s'', hdrain, htried⟩ := hN fuel' (by omega) calls (by omega)
        refine ⟨s'', ?_, by rw [htried, h5]⟩
        rw [drain, hnext fuel' (by omega)]
        simp only [h1, hdrain, h3]
        rfl
  | cons bs results ihres =>
      intro i s hl h
      have hmap := h.results_eq
      cases hjr : s.joinedResults with
      | nil => simp [hjr] at hmap
      | cons rbs rest =>
          rw [hjr, List.map_cons, List.map_cons, List.cons.injEq] at hmap
          have h' : Joined Ps ds l results { s with joinedResults := rest } :=
            ⟨h.orbit, h.valid, ⟨h.carry.nextNeighbor, h.carry.askingNext, h.carry.packCount,
              h.carry.valid, h.carry.inputs, h.carry.net⟩, hmap.2⟩
          obtain ⟨N, hN⟩ := ihres (i + 1) _ hl h'
          refine ⟨N + 1, fun fuel hf calls hc => ?_⟩
          obtain ⟨calls, rfl⟩ : ∃ k, calls = k + 1 := ⟨calls - 1, by omega⟩
          obtain ⟨s'', hdrain, htried⟩ := hN fuel (by omega) calls (by omega)
          refine ⟨s'', ?_, htried⟩
          rw [drain, nextJoin, hjr]
          simp only [hmap.1, hdrain]
          rfl

/-! ## Whole runs -/

/-- A settled joiner of the right size. -/
structure Idle (J : JoinerConfig) (s : State bso) : Prop where
  net : s.net.Settled
  inputs : s.inputBeliefStates.length = J.neighbors.length
  packCount : s.packCount.length = J.neighbors.length

lemma idle_init (J : JoinerConfig) : Idle J (State.init J : State bso) :=
  ⟨⟨rfl, rfl, by simp [State.init]⟩, by simp [State.init], by simp [State.init]⟩

/-- A neighbour without a state: the first call returns `NULL`. -/
lemma firstJoin_null (h64 : J.neighbors.length < 64) (hq : Plain qid) {s : State bso}
    (h : Idle J s)
    (hempty : [] ∈ packAnswers J env history qid 0 J.neighbors.length s.net.clock) (fuel : ℕ) :
    ∃ s', firstJoin J env history qid fuel s = .ok (⟨none, qid⟩, s') ∧ s'.tried = s.tried := by
  obtain ⟨result, s', hask, ⟨_, hrec⟩, -⟩ := askFirstPacks_all env history hq h64 h.net h.inputs
  have hresult : result = false := by
    rw [← Bool.not_eq_true, hrec.result_iff]
    exact fun hall => hall [] hempty rfl
  subst hresult
  refine ⟨s'.reset, by rw [firstJoin, hask], ?_⟩
  rw [hrec.frame]
  rfl

/-- So the run ends with the first call. -/
lemma joinRun_null (h64 : J.neighbors.length < 64) {qids : ℕ → Qid} (hq : Plain (qids 0))
    {s : State bso} (hs : Idle J s)
    (hempty : [] ∈ packAnswers J env history (qids 0) 0 J.neighbors.length s.net.clock)
    (fuel : ℕ) :
    ∃ s', joinRun J env history qids fuel s = .ok ([], s') ∧ s'.tried = s.tried := by
  obtain ⟨s', hfirst, htried⟩ := firstJoin_null h64 hq hs hempty fuel
  exact ⟨s', by rw [joinRun, hfirst], htried⟩

/-- A neighbour whose first pack is empty. -/
lemma PacksServed.nil_mem_packAnswers (h : PacksServed J env history Ps) (hp : 1 ≤ J.packSize)
    {P : Packs (NewBeliefState bso.width)} (hP : P ∈ Ps) (hempty : P.pack 0 = []) (t : ℕ) :
    [] ∈ packAnswers J env history qid 0 J.neighbors.length t := by
  obtain ⟨i, hi⟩ := List.getElem?_of_mem hP
  obtain ⟨hlt, -⟩ := List.getElem?_eq_some_iff.mp hi
  rw [h.length] at hlt
  refine List.mem_map.mpr ⟨i, List.mem_range.mpr hlt, ?_⟩
  rw [Nat.zero_add, ← packRange_zero hp, h.answer i P hi 0 (Nat.zero_le _), hempty]

variable (history) in
/-- With packs, the states of all vectors of pack numbers are returned. -/
lemma joinRun_colex (h64 : J.neighbors.length < 64) (hserved : PacksServed J env history Ps)
    (hp : 1 ≤ J.packSize) (hne : ∀ P ∈ Ps, 0 < P.count) {qids : ℕ → Qid}
    (hq : ∀ i, Plain (qids i)) {s : State bso} (hs : Idle J s) :
    ∃ N, ∀ fuel ≥ N, ∃ s', joinRun J env history qids fuel s =
      .ok ((colex (Ps.map Packs.count)).flatMap (joinedAt Ps), s') ∧
        s'.tried = s.tried ++ (colex (Ps.map Packs.count)).flatMap
          (fun ds => product (packsAt ds Ps)) := by
  have hlen := hserved.length
  have hpos : ∀ m ∈ Ps.map Packs.count, 0 < m := by
    intro m hm
    obtain ⟨P, hP, rfl⟩ := List.mem_map.mp hm
    exact hne P hP
  have hmem := fun ds (hds : ds ∈ colex (Ps.map Packs.count)) => valid_of_mem_colex hds
  have horbit := orbit_colex hpos
  have hhead := colex_head hpos
  cases hcolex : colex (Ps.map Packs.count) with
  | nil => simp [hcolex] at hhead
  | cons ds l =>
      rw [hcolex, List.head?_cons, Option.some.injEq, List.length_map, hlen] at hhead
      rw [hcolex] at horbit hmem
      obtain ⟨result, s₁, hask, ⟨_, hrec⟩, htrue⟩ :=
        askFirstPacks_all env history (hq 0) h64 hs.net hs.inputs
      have hanswers : packAnswers J env history (qids 0) 0 J.neighbors.length s.net.clock =
          packsAt ds Ps := by
        rw [hserved.packAnswers_eq hp (Nat.le_refl _), hhead, ← hlen, List.take_length]
      rw [hanswers] at hrec htrue
      have hresult : result = true := hrec.result_iff.mpr (packsAt_ne_nil (hmem ds (by simp)))
      subst hresult
      obtain ⟨hs₁, hnet⟩ := htrue rfl
      have hready : Ready Ps ds s₁ := by
        refine ⟨?_, ?_, hnet⟩
        · rw [hs₁]
          simp only [State.reset, List.map_const', hs.packCount]
          exact hhead.symm
        · rw [hs₁]
      obtain ⟨s₂, hjoin, hjoined, htried⟩ := hready.joined (qids 0) horbit hmem
        (by rw [hs₁]; rfl)
      have htried₁ : s₁.tried = s.tried := by rw [hs₁]; rfl
      cases hat : joinedAt Ps ds with
      | nil =>
          -- the first join gives nothing: `first_join` goes on with `next_join`
          rw [hat] at hjoin hjoined
          obtain ⟨N, hN⟩ := drain_joined history h64 hserved hp hne hq _ l ds [] 0 s₂ rfl hjoined
          refine ⟨N, fun fuel hfuel => ?_⟩
          obtain ⟨s', hdrain, htried'⟩ := hN fuel hfuel (fuel + 1) (by omega)
          refine ⟨s', ?_, by rw [htried', htried, htried₁]; simp⟩
          have hrun : joinRun J env history qids fuel s =
              drain J env history qids fuel (fuel + 1) 0 s₂ := by
            rw [joinRun, drain, firstJoin, hask]
            simp only [hjoin, List.head?_nil, Option.map_none, if_pos (by omega : J.packSize > 0)]
          rw [hrun, hdrain]
          simp [hat]
      | cons bs results =>
          rw [hat] at hjoin hjoined
          obtain ⟨N, hN⟩ := drain_joined history h64 hserved hp hne hq _ l ds results 1 s₂ rfl
            hjoined
          refine ⟨N, fun fuel hfuel => ?_⟩
          obtain ⟨s', hdrain, htried'⟩ := hN fuel hfuel fuel hfuel
          refine ⟨s', ?_, by rw [htried', htried, htried₁]; simp⟩
          rw [joinRun, firstJoin, hask]
          simp only [hjoin, List.head?_cons, Option.map_some, hdrain]
          simp [hat, Except.map]

/-- The joins of all packs are the joins of what is read. -/
lemma flatMap_joinedAt_perm (Ps : List (Packs (NewBeliefState bso.width))) :
    ((colex (Ps.map Packs.count)).flatMap (joinedAt Ps)).Perm
      ((product (Ps.map Packs.all)).filterMap joinOne) := by
  have hflat : (colex (Ps.map Packs.count)).flatMap (joinedAt Ps) =
      ((colex (Ps.map Packs.count)).flatMap (fun ds => product (packsAt ds Ps))).filterMap
        joinOne := by
    rw [List.filterMap_flatMap]
    rfl
  rw [hflat]
  exact (product_packs_perm Ps).filterMap joinOne

variable (history) in
/-- Pack by pack: the run ends, has tried every combination of what the neighbours sent once, and
has returned the successful ones. -/
theorem joinRun_of_packs (h64 : J.neighbors.length < 64) (hserved : PacksServed J env history Ps)
    (hp : 1 ≤ J.packSize) {qids : ℕ → Qid} (hq : ∀ i, Plain (qids i)) {s : State bso}
    (hs : Idle J s) :
    ∃ N, ∀ fuel ≥ N, ∃ results tried s', joinRun J env history qids fuel s = .ok (results, s') ∧
      results.Perm ((product (Ps.map Packs.all)).filterMap joinOne) ∧
      s'.tried = s.tried ++ tried ∧ tried.Perm (product (Ps.map Packs.all)) := by
  by_cases hne : ∀ P ∈ Ps, 0 < P.count
  · obtain ⟨N, hN⟩ := joinRun_colex history h64 hserved hp hne hq hs
    refine ⟨N, fun fuel hfuel => ?_⟩
    obtain ⟨s', hrun, htried⟩ := hN fuel hfuel
    exact ⟨_, _, s', hrun, flatMap_joinedAt_perm Ps, htried, product_packs_perm Ps⟩
  · push Not at hne
    obtain ⟨P, hP, hcount⟩ := hne
    have hzero := Nat.le_zero.mp hcount
    have hfirst : P.pack 0 = [] := hzero ▸ P.eq_nil
    have hall : P.all = [] := by
      rw [Packs.all, hzero]
      rfl
    have hproduct : product (Ps.map Packs.all) = [] :=
      product_eq_nil_of_mem (List.mem_map.mpr ⟨P, hP, hall⟩)
    refine ⟨0, fun fuel _ => ?_⟩
    obtain ⟨s', hrun, htried⟩ :=
      joinRun_null h64 (hq 0) hs (hserved.nil_mem_packAnswers hp hP hfirst _) fuel
    refine ⟨[], [], s', hrun, ?_, by rw [htried, List.append_nil], ?_⟩
    · rw [hproduct]
      exact List.Perm.refl _
    · rw [hproduct]

variable (env history) in
/-- Without packs, `next_join` only hands out what is ready. -/
lemma drain_of_zero (hp : J.packSize = 0) (qids : ℕ → Qid)
    (results : List (NewBeliefState bso.width)) :
    ∀ (i fuel calls : ℕ) (s : State bso), results.length < calls →
      s.joinedResults.map ReturnedBeliefState.beliefState = results.map some →
        ∃ s', drain J env history qids fuel calls i s = .ok (results, s') ∧ s'.tried = s.tried := by
  induction results with
  | nil =>
      intro i fuel calls s hcalls hres
      obtain ⟨calls, rfl⟩ : ∃ k, calls = k + 1 := ⟨calls - 1, by omega⟩
      have hjr : s.joinedResults = [] := by simpa using hres
      refine ⟨s, ?_, rfl⟩
      rw [drain, nextJoin, hjr]
      simp only [if_pos hp]
  | cons bs results ih =>
      intro i fuel calls s hcalls hres
      obtain ⟨calls, rfl⟩ : ∃ k, calls = k + 1 := ⟨calls - 1, by omega⟩
      cases hjr : s.joinedResults with
      | nil => simp [hjr] at hres
      | cons rbs rest =>
          rw [hjr, List.map_cons, List.map_cons, List.cons.injEq] at hres
          obtain ⟨s', hdrain, htried⟩ := ih (i + 1) fuel calls { s with joinedResults := rest }
            (by simpa using hcalls) hres.2
          refine ⟨s', ?_, htried⟩
          rw [drain, nextJoin, hjr]
          simp only [hres.1, hdrain]
          rfl

lemma ListsServed.packAnswers_eq (h : ListsServed J env history Ls) (hp : J.packSize = 0) (t : ℕ) :
    packAnswers J env history qid 0 J.neighbors.length t = Ls := by
  have hlen := h.length
  refine List.ext_getElem? (fun i => ?_)
  by_cases hi : i < J.neighbors.length
  · have hget := List.getElem?_eq_getElem (by omega : i < Ls.length)
    have hrange : firstRange J = (0, 0) := if_neg (by omega)
    simp only [packAnswers, List.getElem?_map, List.getElem?_range hi, Option.map_some, hget,
      hrange, Nat.zero_add, h.answer i _ hget]
  · simp only [packAnswers]
    rw [List.getElem?_eq_none (by simp; omega), List.getElem?_eq_none (by omega)]

variable (history) in
/-- Without packs, everything is asked for and joined at once. -/
theorem joinRun_of_lists (h64 : J.neighbors.length < 64) (hserved : ListsServed J env history Ls)
    (hp : J.packSize = 0) {qids : ℕ → Qid} (hq : ∀ i, Plain (qids i)) {s : State bso}
    (hs : Idle J s) :
    ∃ N, ∀ fuel ≥ N, ∃ s', joinRun J env history qids fuel s =
      .ok ((product Ls).filterMap joinOne, s') ∧ s'.tried = s.tried ++ product Ls := by
  have hanswers : packAnswers J env history (qids 0) 0 J.neighbors.length s.net.clock = Ls :=
    hserved.packAnswers_eq hp s.net.clock
  by_cases hempty : [] ∈ Ls
  · refine ⟨0, fun fuel _ => ?_⟩
    obtain ⟨s', hrun, htried⟩ := joinRun_null h64 (hq 0) hs (hanswers ▸ hempty) fuel
    rw [product_eq_nil_of_mem hempty]
    exact ⟨s', hrun, by rw [htried, List.append_nil]⟩
  · have hne : ∀ L ∈ Ls, L ≠ [] := fun L hL hnil => hempty (hnil ▸ hL)
    obtain ⟨result, s₁, hask, ⟨_, hrec⟩, htrue⟩ :=
      askFirstPacks_all env history (hq 0) h64 hs.net hs.inputs
    rw [hanswers] at hrec htrue
    have hresult : result = true := hrec.result_iff.mpr hne
    subst hresult
    obtain ⟨hs₁, hnet⟩ := htrue rfl
    have hin : s₁.inputBeliefStates = Ls := by rw [hs₁]
    have htried : s₁.tried = s.tried := by rw [hs₁]; rfl
    obtain ⟨s₂, hjoin, hres₂, htried₂⟩ : ∃ s₂, joinAndReturn (qids 0) s₁ =
          .ok (((product Ls).filterMap joinOne).head?.map (fun bs => ⟨some bs, qids 0⟩), s₂) ∧
        s₂.joinedResults.map ReturnedBeliefState.beliefState =
          ((product Ls).filterMap joinOne).tail.map some ∧
        s₂.tried = s.tried ++ product Ls := by
      rw [joinAndReturn_eq (by rw [hin]; exact hne) (by rw [hs₁]; rfl), hin, htried]
      exact ⟨_, rfl, by rw [List.map_map]; rfl, rfl⟩
    refine ⟨((product Ls).filterMap joinOne).length, fun fuel hfuel => ?_⟩
    rw [joinRun, firstJoin, hask]
    cases hat : (product Ls).filterMap joinOne with
    | nil =>
        rw [hat] at hjoin
        refine ⟨s₂, ?_, htried₂⟩
        simp only [hjoin, List.head?_nil, Option.map_none, if_neg (by omega : ¬ J.packSize > 0)]
    | cons bs results =>
        rw [hat] at hjoin hfuel hres₂
        obtain ⟨s', hdrain, htried'⟩ := drain_of_zero env history hp qids results 1 fuel fuel s₂
          (by rw [List.length_cons] at hfuel; omega) hres₂
        refine ⟨s', ?_, htried'.trans htried₂⟩
        simp only [hjoin, List.head?_cons, Option.map_some, hdrain]
        rfl

end StreamingJoiner

end Dmcs
