import Dmcs.Mcs.System

/-!
# Answers over the joiners

`Answers` takes the inputs of a normal context to be the joins of its neighbours' answers.  In the
code `process_request` pulls them out of a joiner, which asks the neighbours, waits for their
answers in whatever order these arrive, and joins what it has read.  `JoinedAnswers` is that system
without packs.

As long as every context that can be reached has fewer than 64 neighbours, the two say the same
(`joinedAnswers_iff`).  For 64 neighbours the mask of `ask_first_packs` is `0`, so nothing is waited
for.

## The argument

For fewer than 64 neighbours there is a joiner that hands out the joins of any given answers
(`placedJoiner`, over an environment that sends them), and every joiner that hands out something
hands out these joins: its run without packs is determined by `joinRun_of_lists`.  So the two
definitions have the same derivations, and the equivalence is by induction on them, in both
directions.

In a system of fewer than 64 contexts no context has too many neighbours
(`fewNeighbors_of_noBlocks_lt`).
-/

namespace Dmcs

open NewBeliefState StreamingJoiner

variable {bso : BeliefStateOffset}

namespace System

variable (sys : System bso)

/-- `HandsOut c history answers inputs`: with neighbours that answer a query for everything with
`answers`, the joiner of `c` hands out `inputs`, then `NULL`. -/
inductive HandsOut (c : ℕ) (history : Finset ℕ) (answers : ℕ → List (NewBeliefState bso.width)) :
    List (NewBeliefState bso.width) → Prop
  /-- the `LeafJoiner` -/
  | leaf (hleaf : sys.neighborIds c = []) :
      HandsOut c history answers [NewBeliefState.empty bso.width]
  /-- the `StreamingJoiner`, with any order of arrival, between two requests -/
  | streaming {J : JoinerConfig} {env : Environment bso} {qids : ℕ → Qid}
      {s : StreamingJoiner.State bso}
      {inputs : List (NewBeliefState bso.width)} (hpackSize : J.packSize = 0)
      (hneighbors : J.neighbors.map Neighbor.neighborId = sys.neighborIds c)
      (hserved : ListsServed J env history ((sys.neighborIds c).map answers))
      (hqids : ∀ i, QueryID.Plain (qids i)) (hidle : Idle J s)
      (hrun : ∃ N, ∀ fuel ≥ N, ∃ s', joinRun J env history qids fuel s = .ok (inputs, s')) :
      HandsOut c history answers inputs

/-- `JoinedAnswers history parent c sent`: a request for everything with this history, sent by
`parent` to context `c`, is answered by the states `sent`, which are computed from what the joiner
of `c` hands out. -/
inductive JoinedAnswers : Finset ℕ → ℕ → ℕ → List (NewBeliefState bso.width) → Prop
  /-- the normal context, with the answers of its neighbours -/
  | normal {history : Finset ℕ} {parent c : ℕ} {sent inputs : List (NewBeliefState bso.width)}
      {cache : CachePosition} (hc : c ∉ history) (answers : ℕ → List (NewBeliefState bso.width))
      (hanswers : ∀ d ∈ sys.neighborIds c, JoinedAnswers (insert c history) c d (answers d))
      (hinputs : sys.HandsOut c (insert c history) answers inputs)
      (hsent : (sys.normalContext c).processRequest .init (sys.normalRequest c parent inputs) =
        some (sent, cache)) :
      JoinedAnswers history parent c sent
  /-- the cycle breaker -/
  | breaker {history : Finset ℕ} {parent c : ℕ} {sent : List (NewBeliefState bso.width)}
      {cache : CachePosition} (hc : c ∈ history)
      (hsent : (sys.cycleBreaker c).serve .init (sys.breakerRequest c parent) =
        some (sent.map some ++ [none], cache)) :
      JoinedAnswers history parent c sent

/-- Every context that can be reached has fewer than 64 neighbours. -/
def FewNeighbors (r : ℕ) : Prop := ∀ c, sys.Reaches r c → (sys.neighborIds c).length < 64

lemma length_neighborIds_le (c : ℕ) : (sys.neighborIds c).length ≤ bso.noBlocks := by
  have hsub : (sys.neighborIds c).toFinset ⊆ Finset.range bso.noBlocks := by
    intro d hd
    exact Finset.mem_range.mpr (mem_neighborIds.mp (List.mem_toFinset.mp hd)).2.lt
  have hcard := Finset.card_le_card hsub
  rwa [List.toFinset_card_of_nodup (nodup_neighborIds sys c), Finset.card_range] at hcard

lemma fewNeighbors_of_noBlocks_lt (h : bso.noBlocks < 64) (r : ℕ) : sys.FewNeighbors r :=
  fun c _ => (sys.length_neighborIds_le c).trans_lt h

/-! ## A joiner for every context -/

/-- The neighbours of a context, with their places in the list as offsets. -/
def placedNeighbors (c : ℕ) : List Neighbor :=
  (sys.neighborIds c).zipIdx.map (fun p => ⟨p.1, p.2⟩)

variable (c : ℕ)

lemma neighborIds_placedNeighbors :
    (sys.placedNeighbors c).map Neighbor.neighborId = sys.neighborIds c := by
  rw [placedNeighbors, List.map_map]
  exact List.zipIdx_map_fst 0 _

lemma offsets_placedNeighbors :
    (sys.placedNeighbors c).map Neighbor.neighborOffset =
      List.range (sys.neighborIds c).length := by
  rw [placedNeighbors, List.map_map, List.range_eq_range']
  exact List.zipIdx_map_snd 0 _

/-- A joiner that asks the neighbours of a context for packs of this size. -/
def placedJoiner (packSize : ℕ) (hsize : packSize < 2 ^ 64) (hne : sys.neighborIds c ≠ [])
    (hfew : (sys.neighborIds c).length ≤ 2 ^ 10) : JoinerConfig where
  packSize := packSize
  packSize_lt := hsize
  neighbors := sys.placedNeighbors c
  joinerOffset := 0
  neighbors_ne := by
    intro hnil
    have hids := sys.neighborIds_placedNeighbors c
    rw [hnil] at hids
    exact hne hids.symm
  offsets_nodup := by
    rw [offsets_placedNeighbors]
    exact List.nodup_range
  neighborOffset_lt := by
    intro nb hnb
    have hmem := List.mem_map_of_mem (f := Neighbor.neighborOffset) hnb
    rw [offsets_placedNeighbors, List.mem_range] at hmem
    omega
  joinerOffset_lt := by decide

/-- Neighbours that answer with these lists, one after the other. -/
def wholeEnvironment (answers : ℕ → List (NewBeliefState bso.width)) : Environment bso where
  answer := fun _ nb _ => answers nb.neighborId
  arrive := fun _ ls => ls.flatten
  interleaving := interleaving_flatten

variable {sys c} {history : Finset ℕ} {parent d : ℕ} {sent inputs : List (NewBeliefState bso.width)}
  {answers : ℕ → List (NewBeliefState bso.width)}

/-! ## What is handed out -/

lemma FewNeighbors.of_mem (h : sys.FewNeighbors c) (hd : d ∈ sys.neighborIds c) :
    sys.FewNeighbors d :=
  fun _ hde => h _ (.head (mem_neighborIds.mp hd).2 hde)

/-- With fewer than 64 neighbours a joiner hands out the joins of the answers. -/
lemma HandsOut.eq_joinedInputs (hfew : sys.FewNeighbors c)
    (h : sys.HandsOut c history answers inputs) :
    inputs = joinedInputs ((sys.neighborIds c).map answers) := by
  cases h with
  | leaf hleaf => rw [hleaf, List.map_nil, joinedInputs, if_pos rfl]
  | @streaming J env qids s _ hpackSize hneighbors hserved hqids hidle hrun =>
      have h64 : J.neighbors.length < 64 := by
        have hlen := congrArg List.length hneighbors
        rw [List.length_map] at hlen
        exact hlen ▸ hfew c .refl
      obtain ⟨N, hN⟩ := hrun
      obtain ⟨N', hN'⟩ := joinRun_eq_joinedInputs h64 hserved hpackSize hqids hidle
      obtain ⟨s', hs'⟩ := hN (max N N') (le_max_left _ _)
      obtain ⟨s'', hs''⟩ := hN' (max N N') (le_max_right _ _)
      have hsame := hs'.symm.trans hs''
      exact (Prod.mk.inj (Except.ok.inj hsame)).1

/-- A joiner hands them out. -/
lemma handsOut_joinedInputs (hfew : sys.FewNeighbors c)
    (answers : ℕ → List (NewBeliefState bso.width)) :
    sys.HandsOut c history answers (joinedInputs ((sys.neighborIds c).map answers)) := by
  by_cases hleaf : sys.neighborIds c = []
  · have hinputs : joinedInputs ((sys.neighborIds c).map answers) =
        [NewBeliefState.empty bso.width] := by
      rw [hleaf, List.map_nil, joinedInputs, if_pos rfl]
    rw [hinputs]
    exact .leaf hleaf
  · have hlt := hfew c .refl
    set J := sys.placedJoiner c 0 (by norm_num) hleaf (by omega) with hJ
    have hneighbors : J.neighbors.map Neighbor.neighborId = sys.neighborIds c :=
      sys.neighborIds_placedNeighbors c
    have hlen : J.neighbors.length = (sys.neighborIds c).length := by
      rw [← hneighbors, List.length_map]
    have hserved : ListsServed J (wholeEnvironment answers) history
        ((sys.neighborIds c).map answers) := by
      refine ⟨by rw [List.length_map, hlen], fun i L hL t qid => ?_⟩
      rw [List.getElem?_map] at hL
      obtain ⟨d, hd, rfl⟩ := Option.map_eq_some_iff.mp hL
      obtain ⟨hi, -⟩ := List.getElem?_eq_some_iff.mp hd
      rw [← hneighbors, List.getElem?_map, List.getElem?_eq_getElem (hlen ▸ hi), Option.map_some,
        Option.some.injEq] at hd
      rw [answerOf, JoinerConfig.neighbor, List.getD_eq_getElem _ _ (hlen ▸ hi)]
      exact congrArg answers hd
    have hqids : ∀ i : ℕ, QueryID.Plain ((fun _ => QueryID.queryId 0 0) i) :=
      fun _ => QueryID.plain_queryId (by norm_num) (by norm_num)
    exact .streaming rfl hneighbors hserved hqids (idle_init J)
      (joinRun_eq_joinedInputs (by omega) hserved rfl hqids (idle_init J))

/-- **The joiners compute the joins.**  Where every context that can be reached has fewer than 64
neighbours, requests are answered as if the inputs were the joins of whole answers. -/
theorem joinedAnswers_iff (hfew : sys.FewNeighbors c) :
    sys.JoinedAnswers history parent c sent ↔ sys.Answers history parent c sent := by
  constructor
  · intro h
    induction h with
    | normal hc answers _ hinputs hsent ih =>
        rw [hinputs.eq_joinedInputs hfew] at hsent
        exact .normal hc answers (fun d hd => ih d hd (hfew.of_mem hd)) hsent
    | breaker hc hsent => exact .breaker hc hsent
  · intro h
    induction h with
    | normal hc answers _ hsent ih =>
        exact .normal hc answers (fun d hd => ih d hd (hfew.of_mem hd))
          (handsOut_joinedInputs hfew answers) hsent
    | breaker hc hsent => exact .breaker hc hsent

end System

end Dmcs
