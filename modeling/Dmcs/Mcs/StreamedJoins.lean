import Dmcs.Mcs.StreamedRequest

/-!
# What the joiners hand out

Over neighbours that answer the queries of a request with the packs of fixed, non-empty lists, or
with the whole lists, the streaming joiner hands out the joins of one state of each list, pack by
pack (`starts_handedOut`), and whenever it is left it is at rest.

## At rest

`process_request` may stop asking at any time, when the range it serves is used up.  So it is not
enough to know what a whole run of the joiner hands out: after every call the joiner has to be in a
state from which the next request can start (`Idle`).

`handedOut` lists what is handed out, in the order of the calls: the joins of the packs at hand, for
one vector of pack numbers after the other.  Up to the order these are all joins (`handedOut_perm`).
The induction is on what is still to be handed out, with one lemma for results that are ready and
one for packs that are still to come.
-/

namespace Dmcs

open Odometer Paging QueryID StreamingJoiner JoinIsolation

variable {bso : BeliefStateOffset}

namespace StreamingJoiner

/-- The states the joiner hands out, in order. -/
def handedOut (p : ℕ) (Ls : List (List (NewBeliefState bso.width))) :
    List (NewBeliefState bso.width) :=
  if hp : p = 0 then (product Ls).filterMap joinOne
  else
    let Ps := Ls.map (Packs.ofList p (Nat.one_le_iff_ne_zero.mpr hp))
    (colex (Ps.map Packs.count)).flatMap (joinedAt Ps)

variable {J : JoinerConfig} {env : Environment bso} {history : Finset ℕ} {qid : Qid}
  {Ps : List (Packs (NewBeliefState bso.width))} {Ls : List (List (NewBeliefState bso.width))}
  {s : State bso}

/-! ## The joiner comes to rest -/

variable (env history) in
lemma askEarlier_length (h64 : J.neighbors.length < 64) (hq : Plain qid) (h : Open J s)
    (hlen : s.packCount.length = J.neighbors.length) {s' : State bso}
    (hask : askEarlier J env history qid s = .ok s') :
    s'.packCount.length = J.neighbors.length := by
  have hle := h.nextNeighbor
  rw [askEarlier] at hask
  split at hask
  · split at hask
    · cases hask
    · next hpos =>
        obtain ⟨result, s₁, heq, hrec⟩ := askFirstPacks_received env history hq h64.le
          (Nat.zero_le (s.nextNeighbor - 1)) (by omega) (by omega) h.net h.length
        rw [heq] at hask
        cases result with
        | false => cases hask
        | true =>
            cases hask
            simp only [List.length_append, List.length_replicate, List.length_drop]
            rw [hrec.frame]
            simp only
            omega
  · cases hask
    exact hlen

lemma joinAndReturn_length {rbs : Option (ReturnedBeliefState bso)} {s' : State bso}
    (hjoin : joinAndReturn qid s = .ok (rbs, s')) : s'.packCount = s.packCount := by
  rw [joinAndReturn, joinPacks] at hjoin
  cases hdo : doJoin s.inputBeliefStates with
  | none =>
      rw [hdo] at hjoin
      cases hjoin
  | some results =>
      rw [hdo] at hjoin
      simp only at hjoin
      split at hjoin
      · rw [popResult] at hjoin
        split at hjoin
        · cases hjoin
        · next heq =>
            split at heq
            · cases heq
            · cases heq
              cases hjoin
              rfl
      · cases hjoin
        rfl

variable (env history) in
lemma nextRound_length (h64 : J.neighbors.length < 64) (hq : Plain qid) (h : Open J s)
    (hlen : s.packCount.length = J.neighbors.length)
    {rbs : Option (ReturnedBeliefState bso)} {s' : State bso}
    (hround : nextRound J env history qid s = .ok (rbs, s')) :
    s'.packCount.length = J.neighbors.length := by
  have hle := h.nextNeighbor
  by_cases hlast : s.nextNeighbor = J.neighbors.length
  · rw [nextRound, if_pos hlast] at hround
    cases hround
    simpa [State.reset] using hlen
  · rw [nextRound, if_neg hlast] at hround
    obtain ⟨net, hnet, hask⟩ := askNeighborAndReceive_eq env history hq
      (by omega : s.nextNeighbor < J.neighbors.length)
      (packRange J.packSize ((s.packCount.getD s.nextNeighbor 0 + 1) % 2 ^ 64)).1
      (packRange J.packSize ((s.packCount.getD s.nextNeighbor 0 + 1) % 2 ^ 64)).2
      (s := { s with
        packCount := s.packCount.set s.nextNeighbor
          ((s.packCount.getD s.nextNeighbor 0 + 1) % 2 ^ 64) })
      h.net
    simp only [hask] at hround
    generalize answerOf J env history qid _ _ _ _ = models at hround
    cases models with
    | nil =>
        cases hround
        simpa using hlen
    | cons bs models =>
        have hopen : Open J { s with
            packCount := s.packCount.set s.nextNeighbor
              ((s.packCount.getD s.nextNeighbor 0 + 1) % 2 ^ 64)
            inputBeliefStates := s.inputBeliefStates.set s.nextNeighbor (bs :: models)
            net := net } := by
          refine ⟨hnet, by simpa using h.length, h.nextNeighbor, h.askingNext, fun i hi => ?_⟩
          simp only [List.getElem?_set]
          by_cases hi' : s.nextNeighbor = i
          · rw [if_pos hi']
            split <;> simp
          · rw [if_neg hi']
            exact h.later i hi
        simp only [List.isEmpty_cons, Bool.not_false] at hround
        split at hround
        · cases hround
        · next s₁ hearlier =>
            rw [joinAndReturn_length hround]
            exact askEarlier_length env history h64 hq hopen (by simpa using hlen) hearlier

/-- After a call from within the loop the joiner is at rest. -/
lemma idle_of_nextLoop (h64 : J.neighbors.length < 64) (hq : Plain qid) (fuel : ℕ) :
    ∀ {s : State bso}, Open J s → s.packCount.length = J.neighbors.length →
      ∀ {rbs : ReturnedBeliefState bso} {s' : State bso},
        nextLoop J env history qid fuel s = .ok (rbs, s') → Idle J s' := by
  induction fuel with
  | zero =>
      intro s _ _ rbs s' hloop
      cases hloop
  | succ fuel ih =>
      intro s h hlen rbs s' hloop
      have hround := safe_nextRound env history h64 hq h
      rw [nextLoop] at hloop
      cases hr : nextRound J env history qid s with
      | error f =>
          rw [hr] at hloop
          cases hloop
      | ok r =>
          obtain ⟨rbs', s₁⟩ := r
          have hlen₁ := nextRound_length env history h64 hq h hlen hr
          rw [hr] at hloop hround
          cases rbs' with
          | none => exact ih hround hlen₁ hloop
          | some rbs' =>
              cases hloop
              exact ⟨hround.net, hround.length, hlen₁⟩

/-- Joined packs: the joiner is in the loop of `next_join`, and at rest. -/
lemma Joined.isOpen {ds : List ℕ} {l : List (List ℕ)} {results : List (NewBeliefState bso.width)}
    (hserved : Ps.length = J.neighbors.length) (h : Joined Ps ds l results s) :
    Open J s ∧ s.packCount.length = J.neighbors.length := by
  have hvalid := h.valid ds List.mem_cons_self
  have hlen : ds.length = J.neighbors.length := hvalid.length_eq.trans hserved
  have hinputs : s.inputBeliefStates = packsAt ds Ps := by
    rw [h.carry.inputs]
    rfl
  refine ⟨⟨h.carry.net, ?_, ?_, h.carry.askingNext.trans ?_, fun i _ hi => ?_⟩, ?_⟩
  · rw [hinputs, packsAt, List.length_zipWith, hlen, hserved, Nat.min_self]
  · rw [h.carry.nextNeighbor]
    exact Nat.zero_le _
  · rw [h.carry.nextNeighbor]
  · rw [hinputs] at hi
    exact packsAt_ne_nil hvalid [] (List.mem_of_getElem? hi) rfl
  · rw [h.carry.packCount]
    exact hlen

/-! ## What is handed out -/

/-- Packs: the states that are ready, and those of the packs still to come. -/
lemma Joined.delivers (h64 : J.neighbors.length < 64) (hserved : PacksServed J env history Ps)
    (hp : 1 ≤ J.packSize) (hne : ∀ P ∈ Ps, 0 < P.count) (n : ℕ) :
    ∀ (l : List (List ℕ)) (ds : List ℕ) (results : List (NewBeliefState bso.width))
      (s : State bso), l.length = n → Joined Ps ds l results s →
        (streamingJoiner J env).Delivers history (Idle J)
          (results ++ l.flatMap (joinedAt Ps)) s := by
  -- outer induction on the vectors still to come, inner one on the states that are ready
  induction n using Nat.strong_induction_on with
  | _ n ih =>
  intro l ds results
  induction results with
  | nil =>
      intro s hl h
      obtain ⟨hopen, hlen⟩ := h.isOpen hserved.length
      have hidle : Idle J s := ⟨hopen.net, hopen.length, hlen⟩
      have hres : s.joinedResults = [] := by simpa using h.results_eq
      have hcall : ∀ {qid : Qid} {fuel : ℕ} {rbs : ReturnedBeliefState bso} {s' : State bso},
          nextLoop J env history qid fuel s = .ok (rbs, s') →
            (streamingJoiner J env).Returns
              (fun fuel => (streamingJoiner J env).nextJoin history qid fuel s)
              rbs.beliefState s' := by
        intro qid fuel rbs s' hloop
        refine ⟨fuel, rbs.qid, fun fuel' hle => ?_⟩
        show nextJoin J env history qid fuel' s = _
        rw [nextJoin, hres]
        simp only
        rw [if_neg (by omega)]
        exact nextLoop_mono hle hloop
      -- nothing is ready: the call goes on in the loop, up to a vector that joins to something or
      -- to the end
      cases hflat : l.flatMap (joinedAt Ps) with
      | nil =>
          refine ⟨hidle, fun qid hq => ?_⟩
          obtain ⟨fuel, rbs, s', hloop, ⟨h1, -, -⟩ | ⟨bs, results, ds', l', -, -, h3, -⟩⟩ :=
            nextLoop_joined history h64 hserved hp hne hq l ds s h
          · exact ⟨s', h1 ▸ hcall hloop, idle_of_nextLoop h64 hq fuel hopen hlen hloop⟩
          · rw [hflat] at h3
            cases h3
      | cons bs rest =>
          refine ⟨hidle, fun qid hq => ?_⟩
          obtain ⟨fuel, rbs, s', hloop, ⟨-, h2, -⟩ | ⟨bs', results, ds', l', h1, h2, h3, h4, -⟩⟩ :=
            nextLoop_joined history h64 hserved hp hne hq l ds s h
          · rw [hflat] at h2
            cases h2
          · rw [hflat, List.cons_append, List.cons.injEq] at h3
            refine ⟨s', ?_, ?_⟩
            · rw [h3.1, ← h1]
              exact hcall hloop
            · rw [h3.2]
              exact ih l'.length (by omega) l' ds' results s' rfl h4
  | cons bs results ihres =>
      intro s hl h
      obtain ⟨hopen, hlen⟩ := h.isOpen hserved.length
      refine ⟨⟨hopen.net, hopen.length, hlen⟩, fun qid _ => ?_⟩
      have hmap := h.results_eq
      -- a state is ready, and the call only takes it
      cases hjr : s.joinedResults with
      | nil => simp [hjr] at hmap
      | cons rbs rest =>
          rw [hjr, List.map_cons, List.map_cons, List.cons.injEq] at hmap
          have h' : Joined Ps ds l results { s with joinedResults := rest } :=
            ⟨h.orbit, h.valid, ⟨h.carry.nextNeighbor, h.carry.askingNext, h.carry.packCount,
              h.carry.valid, h.carry.inputs, h.carry.net⟩, hmap.2⟩
          refine ⟨{ s with joinedResults := rest }, ⟨0, rbs.qid, fun fuel _ => ?_⟩, ihres _ hl h'⟩
          show nextJoin J env history qid fuel s = _
          rw [nextJoin, hjr, ← hmap.1]
          rfl

/-- Without packs: the states that are ready. -/
lemma delivers_of_zero (hp : J.packSize = 0) (results : List (NewBeliefState bso.width)) :
    ∀ (s : State bso), Idle J s →
      s.joinedResults.map ReturnedBeliefState.beliefState = results.map some →
        (streamingJoiner J env).Delivers history (Idle J) results s := by
  induction results with
  | nil =>
      intro s hs hres
      have hjr : s.joinedResults = [] := by simpa using hres
      refine ⟨hs, fun qid _ => ⟨s, ⟨0, qid, fun fuel _ => ?_⟩, hs⟩⟩
      show nextJoin J env history qid fuel s = _
      rw [nextJoin, hjr]
      simp only [if_pos hp]
      rfl
  | cons bs results ih =>
      intro s hs hres
      refine ⟨hs, fun qid _ => ?_⟩
      cases hjr : s.joinedResults with
      | nil => simp [hjr] at hres
      | cons rbs rest =>
          rw [hjr, List.map_cons, List.map_cons, List.cons.injEq] at hres
          refine ⟨{ s with joinedResults := rest }, ⟨0, rbs.qid, fun fuel _ => ?_⟩,
            ih _ ⟨hs.net, hs.inputs, hs.packCount⟩ hres.2⟩
          show nextJoin J env history qid fuel s = _
          rw [nextJoin, hjr, ← hres.1]
          rfl

/-- The first call returns the first state, or goes on like `next_join`. -/
lemma starts_of_calls {B : BaseJoiner bso} {atRest : B.State → Prop}
    {inputs : List (NewBeliefState bso.width)} {s : B.State}
    (h : ∀ qid, Plain qid → ∃ s₂,
      (∃ bs results qid', inputs = bs :: results ∧ B.Delivers history atRest results s₂ ∧
        ∀ fuel, B.firstJoin history qid fuel s = .ok (⟨some bs, qid'⟩, s₂)) ∨
      (B.Delivers history atRest inputs s₂ ∧
        ∀ fuel, B.firstJoin history qid fuel s = B.nextJoin history qid fuel s₂)) :
    B.Starts history atRest inputs s := by
  cases inputs with
  | nil =>
      intro qid hq
      obtain ⟨s₂, ⟨bs, results, qid', hnil, -⟩ | ⟨hdelivers, hcall⟩⟩ := h qid hq
      · cases hnil
      · simp only [BaseJoiner.Returns, hcall]
        exact hdelivers.2 qid hq
  | cons input inputs =>
      intro qid hq
      obtain ⟨s₂, ⟨bs, results, qid', hcons, hdelivers, hcall⟩ | ⟨hdelivers, hcall⟩⟩ := h qid hq
      · obtain ⟨rfl, rfl⟩ := List.cons.inj hcons
        exact ⟨s₂, ⟨0, qid', fun fuel _ => hcall fuel⟩, hdelivers⟩
      · simp only [BaseJoiner.Returns, hcall]
        exact hdelivers.2 qid hq

variable (env history) in
/-- The first call without packs. -/
lemma starts_of_zero (h64 : J.neighbors.length < 64) (hserved : ListsServed J env history Ls)
    (hp : J.packSize = 0) (hne : ∀ L ∈ Ls, L ≠ []) (hs : Idle J s) :
    (streamingJoiner J env).Starts history (Idle J) ((product Ls).filterMap joinOne) s := by
  refine starts_of_calls (fun qid hq => ?_)
  obtain ⟨result, s₁, hask, ⟨_, hrec⟩, htrue⟩ :=
    askFirstPacks_all env history hq h64 hs.net hs.inputs
  rw [hserved.packAnswers_eq hp] at hrec htrue
  have hresult : result = true := hrec.result_iff.mpr hne
  subst hresult
  obtain ⟨hs₁, hnet⟩ := htrue rfl
  have hin : s₁.inputBeliefStates = Ls := by rw [hs₁]
  obtain ⟨s₂, hjoin, hres₂, hidle⟩ : ∃ s₂, joinAndReturn qid s₁ =
        .ok (((product Ls).filterMap joinOne).head?.map (fun bs => ⟨some bs, qid⟩), s₂) ∧
      s₂.joinedResults.map ReturnedBeliefState.beliefState =
        ((product Ls).filterMap joinOne).tail.map some ∧ Idle J s₂ := by
    rw [joinAndReturn_eq (by rw [hin]; exact hne) (by rw [hs₁]; rfl), hin]
    refine ⟨_, rfl, by rw [List.map_map]; rfl, hnet, hserved.length, ?_⟩
    rw [hs₁]
    simpa [State.reset] using hs.packCount
  have hfirst : ∀ fuel, (streamingJoiner J env).firstJoin history qid fuel s =
      firstJoin J env history qid fuel s := fun _ => rfl
  refine ⟨s₂, ?_⟩
  cases hat : (product Ls).filterMap joinOne with
  | nil =>
      rw [hat] at hjoin hres₂
      have hdelivers : (streamingJoiner J env).Delivers history (Idle J) [] s₂ :=
        delivers_of_zero hp [] s₂ hidle hres₂
      refine Or.inr ⟨hdelivers, fun fuel => ?_⟩
      have hjr : s₂.joinedResults = [] := by simpa using hres₂
      rw [hfirst, firstJoin, hask]
      simp only [hjoin, List.head?_nil, Option.map_none, if_neg (by omega : ¬ J.packSize > 0)]
      show _ = nextJoin J env history qid fuel s₂
      rw [nextJoin, hjr]
      simp only [if_pos hp]
  | cons bs results =>
      rw [hat] at hjoin hres₂
      refine Or.inl ⟨bs, results, qid, rfl, delivers_of_zero hp results s₂ hidle hres₂, ?_⟩
      intro fuel
      rw [hfirst, firstJoin, hask]
      simp only [hjoin, List.head?_cons, Option.map_some]
      rfl

variable (env history) in
/-- The first call with packs. -/
lemma starts_of_packs (h64 : J.neighbors.length < 64) (hserved : PacksServed J env history Ps)
    (hp : 1 ≤ J.packSize) (hne : ∀ P ∈ Ps, 0 < P.count) (hs : Idle J s) :
    (streamingJoiner J env).Starts history (Idle J)
      ((colex (Ps.map Packs.count)).flatMap (joinedAt Ps)) s := by
  have hlen := hserved.length
  have hpos : ∀ m ∈ Ps.map Packs.count, 0 < m := by
    intro m hm
    obtain ⟨P, hP, rfl⟩ := List.mem_map.mp hm
    exact hne P hP
  have hmem := fun ds (hds : ds ∈ colex (Ps.map Packs.count)) => valid_of_mem_colex hds
  have horbit := orbit_colex hpos
  have hhead := colex_head hpos
  refine starts_of_calls (fun qid hq => ?_)
  cases hcolex : colex (Ps.map Packs.count) with
  | nil => simp [hcolex] at hhead
  | cons ds l =>
      rw [hcolex, List.head?_cons, Option.some.injEq, List.length_map, hlen] at hhead
      rw [hcolex] at horbit hmem
      obtain ⟨result, s₁, hask, ⟨_, hrec⟩, htrue⟩ :=
        askFirstPacks_all env history hq h64 hs.net hs.inputs
      have hanswers : packAnswers J env history qid 0 J.neighbors.length s.net.clock =
          packsAt ds Ps := by
        rw [hserved.packAnswers_eq hp (Nat.le_refl _), hhead, ← hlen, List.take_length]
      rw [hanswers] at hrec htrue
      have hresult : result = true :=
        hrec.result_iff.mpr (packsAt_ne_nil (hmem ds List.mem_cons_self))
      subst hresult
      obtain ⟨hs₁, hnet⟩ := htrue rfl
      have hready : Ready Ps ds s₁ := by
        refine ⟨?_, ?_, hnet⟩
        · rw [hs₁]
          simp only [State.reset, List.map_const', hs.packCount]
          exact hhead.symm
        · rw [hs₁]
      obtain ⟨s₂, hjoin, hjoined, -⟩ := hready.joined qid horbit hmem (by rw [hs₁]; rfl)
      have hdelivers : (streamingJoiner J env).Delivers history (Idle J)
          ((joinedAt Ps ds).tail ++ l.flatMap (joinedAt Ps)) s₂ :=
        hjoined.delivers h64 hserved hp hne _ l ds _ s₂ rfl
      have hfirst : ∀ fuel, (streamingJoiner J env).firstJoin history qid fuel s =
          firstJoin J env history qid fuel s := fun _ => rfl
      refine ⟨s₂, ?_⟩
      rw [List.flatMap_cons]
      -- where the first packs join to nothing, the first call already goes on in the loop
      cases hat : joinedAt Ps ds with
      | nil =>
          rw [hat] at hjoin hdelivers
          refine Or.inr ⟨hdelivers, fun fuel => ?_⟩
          rw [hfirst, firstJoin, hask]
          simp only [hjoin, List.head?_nil, Option.map_none, if_pos (by omega : J.packSize > 0)]
          rfl
      | cons bs results =>
          rw [hat] at hjoin hdelivers
          refine Or.inl ⟨bs, _, qid, rfl, hdelivers, fun fuel => ?_⟩
          rw [hfirst, firstJoin, hask]
          simp only [hjoin, List.head?_cons, Option.map_some]
          rfl

/-- Neighbours that answer the queries of a request with pages of fixed lists.  The queries are good
requests: the ranges of the packs do not come near the largest `size_t`. -/
structure PagesServed (J : JoinerConfig) (env : Environment bso) (history : Finset ℕ)
    (Ls : List (List (NewBeliefState bso.width))) : Prop where
  length : Ls.length = J.neighbors.length
  room : ∀ L ∈ Ls, L.length + 2 * J.packSize < 2 ^ 64
  answer : ∀ i L, Ls[i]? = some L → ∀ t qid k1 k2, Admissible k1 k2 → k2 + 1 < 2 ^ 64 →
    answerOf J env history qid t i k1 k2 = page k1 k2 L

lemma PagesServed.listsServed (h : PagesServed J env history Ls) : ListsServed J env history Ls :=
  ⟨h.length, fun i L hL t qid => by
    rw [h.answer i L hL t qid 0 0 admissible_all (by norm_num), page_zero]⟩

lemma PagesServed.packsServed (h : PagesServed J env history Ls) (hp : 1 ≤ J.packSize) :
    PacksServed J env history (Ls.map (Packs.ofList J.packSize hp)) := by
  have hcover := fun L => length_le_noPacks_mul (α := NewBeliefState bso.width) hp L
  refine ⟨by rw [List.length_map, h.length], fun P hP => ?_, fun i P hP c hc t qid => ?_⟩
  · obtain ⟨L, hL, rfl⟩ := List.mem_map.mp hP
    have hroom := h.room L hL
    have hmul : noPacks J.packSize L * 1 ≤ noPacks J.packSize L * J.packSize :=
      Nat.mul_le_mul_left _ hp
    show noPacks J.packSize L < 2 ^ 64
    have := (hcover L).2
    omega
  · rw [List.getElem?_map] at hP
    obtain ⟨L, hL, rfl⟩ := Option.map_eq_some_iff.mp hP
    have hroom := h.room L (List.mem_of_getElem? hL)
    have hle : c * J.packSize ≤ noPacks J.packSize L * J.packSize := Nat.mul_le_mul_right _ hc
    have hmul : (c + 1) * J.packSize = c * J.packSize + J.packSize := by
      rw [Nat.add_mul, Nat.one_mul]
    have hlast := (hcover L).2
    have hrange : packRange J.packSize c = (c * J.packSize + 1, (c + 1) * J.packSize) := by
      rw [packRange, Nat.mod_eq_of_lt (by omega), Nat.mod_eq_of_lt (by omega)]
    rw [hrange]
    exact h.answer i L hL t qid _ _ (Or.inr ⟨by omega, by omega⟩) (by omega)

/-- From a joiner at rest the joins of the neighbours' lists are handed out. -/
theorem PagesServed.starts_handedOut (h : PagesServed J env history Ls)
    (h64 : J.neighbors.length < 64) (hne : ∀ L ∈ Ls, L ≠ []) (hs : Idle J s) :
    (streamingJoiner J env).Starts history (Idle J) (handedOut J.packSize Ls) s := by
  unfold handedOut
  split
  · next hp => exact starts_of_zero env history h64 h.listsServed hp hne hs
  · next hp =>
      have hp' := Nat.one_le_iff_ne_zero.mpr hp
      refine starts_of_packs env history h64 (h.packsServed hp') hp' (fun P hP => ?_) hs
      obtain ⟨L, hL, rfl⟩ := List.mem_map.mp hP
      exact Packs.count_ofList_pos hp' (hne L hL)

/-- Pack by pack or at once, the same joins are handed out. -/
lemma handedOut_perm (p : ℕ) (Ls : List (List (NewBeliefState bso.width))) :
    (handedOut p Ls).Perm ((product Ls).filterMap joinOne) := by
  rw [handedOut]
  split
  · exact List.Perm.refl _
  · next hp =>
      have hperm := flatMap_joinedAt_perm
        (Ls.map (Packs.ofList p (Nat.one_le_iff_ne_zero.mpr hp)))
      rwa [Packs.map_all_ofList] at hperm

end StreamingJoiner

/-- The joiner of a leaf hands out the empty state. -/
lemma starts_leafJoiner (history : Finset ℕ) (s : (leafJoiner bso).State) :
    (leafJoiner bso).Starts history (fun _ => True) [NewBeliefState.empty bso.width] s := by
  intro qid _
  refine ⟨s, ⟨0, qid, fun _ _ => rfl⟩, trivial, fun qid _ => ⟨s, ⟨0, qid, fun _ _ => rfl⟩, trivial⟩⟩

end Dmcs
