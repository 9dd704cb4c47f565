import Dmcs.Lib.Interleaving
import Dmcs.Lib.Packs
import Dmcs.Mcs.Join
import Dmcs.Network.RequestDispatcher

/-!
# The streaming joiner (`StreamingJoiner`, `BaseJoiner`)

The joiner of a context asks the neighbours for their belief states, `pack_size` at a time, and
hands out the states that combine one state of each neighbour.  `first_join` asks every neighbour
for its first pack; `next_join` goes on pack by pack: it asks the neighbours one after the other
for their next pack, and when a neighbour is exhausted it moves to the following one and asks the
neighbours before it for their first packs again.

All answers arrive in one queue, `JOIN_IN_MQ`.  Each query is answered by its states and an end
marker, in this order; an `Environment` chooses the states and interleaves the answers of different
queries at will.  A message is in `pending` until the joiner next reads its queue and in `joinIn`
until it is read; since a queue is first-in first-out, the order in `joinIn` is the order of
arrival.

## What is modelled

The functions follow `StreamingJoiner.cpp`.  A failing assertion is a `Fault` that names it, and
ends the run.  The range of a pack is computed on `size_t` (`packRange`), and the mask of the
neighbours that have answered is a word of 64 bits.  The loops take fuel; the theorems about whole
runs say that enough of it never runs out.

`tried` and `conclusions` record the combinations that were tried and the end markers that were
read.  No function of the joiner looks at them.
-/

namespace Dmcs

open Odometer Paging QueryID

variable {bso : BeliefStateOffset}

/-- `ReturnedBeliefState`: a belief state, or the end marker, with the id of its query. -/
structure ReturnedBeliefState (bso : BeliefStateOffset) where
  beliefState : Option (NewBeliefState bso.width)
  qid : Qid
  deriving DecidableEq

namespace StreamingJoiner

/-- What a joiner is built from.  Queue offsets are handed out once each, and offsets fit their
fields in a query id. -/
structure JoinerConfig where
  packSize : ℕ
  packSize_lt : packSize < 2 ^ 64
  neighbors : List Neighbor
  joinerOffset : ℕ
  neighbors_ne : neighbors ≠ []
  offsets_nodup : (neighbors.map Neighbor.neighborOffset).Nodup
  neighborOffset_lt : ∀ nb ∈ neighbors, nb.neighborOffset < 2 ^ 10
  joinerOffset_lt : joinerOffset < 2 ^ 6

namespace JoinerConfig

/-- `(*neighbors)[neighbor_index]`. -/
def neighbor (J : JoinerConfig) (i : ℕ) : Neighbor := J.neighbors.getD i ⟨0, 0⟩

/-- `(*offset2index)[noff]`; an offset that is not in the map reads as `0`. -/
def offset2index (J : JoinerConfig) (noff : ℕ) : ℕ :=
  let offsets := J.neighbors.map Neighbor.neighborOffset
  if noff ∈ offsets then offsets.idxOf noff else 0

/-- The id under which neighbour `i` is asked. -/
def forwardQid (J : JoinerConfig) (qid : Qid) (i : ℕ) : Qid :=
  QueryID.forwardQid qid (J.neighbor i).neighborId (J.neighbor i).neighborOffset J.joinerOffset

end JoinerConfig

/-- Why the joiner does not return: an assertion fails, it waits for ever, or the loop of
`next_join` is given up. -/
inductive Fault
  /-- `assert (from_neighbor <= to_neighbor && to_neighbor < neighbors->size())` -/
  | neighborRange
  /-- `assert (stripped_qid == forward_qid)` -/
  | strippedQid
  /-- `assert (noff == offset)` -/
  | neighborOffset
  /-- `assert (it != id2offset.end())` in `unregisterIdOffset` -/
  | notRegistered
  /-- `assert (bsv->begin() != bsv->end())` in `do_join` -/
  | emptyPack
  /-- `assert (next_neighbor > 0)` -/
  | nextNeighbor
  /-- `assert (ret == true)` in `next_join` -/
  | firstPacks
  /-- `front()` of an empty list of results -/
  | noResult
  /-- nothing is left to arrive -/
  | blocked
  | fuel
  deriving DecidableEq

/-- The joiner's side of the network.  `conclusions` is not in the code: it records, for each end
marker read, the query the joiner was called with and the id of the marker. -/
structure Network (bso : BeliefStateOffset) where
  joinIn : List (ReturnedBeliefState bso)
  pending : List (List (ReturnedBeliefState bso))
  registered : List Qid
  clock : ℕ
  conclusions : List (Qid × Qid)

/-- The members of `BaseJoiner` and `StreamingJoiner`, and the network.  `tried`, the combinations
tried so far, is not in the code. -/
structure State (bso : BeliefStateOffset) where
  inputBeliefStates : List (List (NewBeliefState bso.width))
  joinedResults : List (ReturnedBeliefState bso)
  nextNeighbor : ℕ
  askingNext : Bool
  packCount : List ℕ
  tried : List (List (NewBeliefState bso.width))
  net : Network bso

/-- How the neighbours and the network behave: what a query asked at a time is answered, and in
which order the answers arrive. -/
structure Environment (bso : BeliefStateOffset) where
  answer : ℕ → Neighbor → ForwardMessage → List (NewBeliefState bso.width)
  arrive : ℕ → List (List (ReturnedBeliefState bso)) → List (ReturnedBeliefState bso)
  interleaving : ∀ t ls, Interleaving ls (arrive t ls)

/-- The answers may arrive one after the other. -/
lemma interleaving_flatten (_ : ℕ) (ls : List (List (ReturnedBeliefState bso))) :
    Interleaving ls ls.flatten :=
  Interleaving.flatten ls

/-- The state of a new joiner in a silent network. -/
def State.init (J : JoinerConfig) : State bso :=
  ⟨List.replicate J.neighbors.length [], [], 0, false, List.replicate J.neighbors.length 0, [],
    ⟨[], [], [], 0, []⟩⟩

/-- `reset`. -/
def State.reset (s : State bso) : State bso :=
  { s with
    inputBeliefStates := s.inputBeliefStates.map (fun _ => [])
    joinedResults := []
    nextNeighbor := 0
    askingNext := false
    packCount := s.packCount.map (fun _ => 0) }

/-- The answer to a query: its states, then the end marker. -/
def answerStream (qid : Qid) (models : List (NewBeliefState bso.width)) :
    List (ReturnedBeliefState bso) :=
  models.map (fun bs => ⟨some bs, qid⟩) ++ [⟨none, qid⟩]

/-- `registerIdOffset` and sending the query: its answer is on the way. -/
def Network.ask (net : Network bso) (qid : Qid) (models : List (NewBeliefState bso.width)) :
    Network bso :=
  { net with
    registered := net.registered.insert qid
    pending := net.pending ++ [answerStream qid models]
    clock := net.clock + 1 }

/-- What is unread and what is on the way arrives. -/
def Network.await (env : Environment bso) (net : Network bso) : Network bso :=
  { net with
    joinIn := env.arrive net.clock (net.joinIn :: net.pending)
    pending := []
    clock := net.clock + 1 }

/-- After reading an end marker: it is unregistered, and `rest` is left in the queue. -/
def Network.conclude (net : Network bso) (qid marker : Qid)
    (rest : List (ReturnedBeliefState bso)) : Network bso :=
  { net with
    joinIn := rest
    registered := net.registered.erase marker
    conclusions := net.conclusions ++ [(qid, marker)] }

/-- Reading an end marker, with the assertion of `unregisterIdOffset`. -/
def Network.endMarker (net : Network bso) (qid marker : Qid)
    (rest : List (ReturnedBeliefState bso)) : Except Fault (Network bso) :=
  if marker ∈ net.registered then .ok (net.conclude qid marker rest) else .error .notRegistered

variable (J : JoinerConfig) (env : Environment bso) (history : Finset ℕ) (qid : Qid)

/-- `ask_neighbor`. -/
def askNeighbor (i k1 k2 : ℕ) (s : State bso) : State bso :=
  let message : ForwardMessage := ⟨J.forwardQid qid i, history, k1, k2⟩
  { s with
    inputBeliefStates := s.inputBeliefStates.set i []
    net := s.net.ask message.qid (env.answer s.net.clock (J.neighbor i) message) }

/-- The loop of `ask_neighbor_and_receive`: read until the first end marker. -/
def receiveNeighbor (i : ℕ) : List (ReturnedBeliefState bso) → ℕ → State bso →
    Except Fault (Bool × State bso)
  | [], _, _ => .error .blocked
  | rbs :: rest, countModelsRead, s =>
      match rbs.beliefState with
      | some bs =>
          if (J.neighbor i).neighborOffset ≠ neighborOffsetFromQid rbs.qid then
            .error .neighborOffset
          else
            receiveNeighbor i rest (countModelsRead + 1)
              { s with inputBeliefStates := s.inputBeliefStates.modify i (· ++ [bs]) }
      | none =>
          match s.net.endMarker qid rbs.qid rest with
          | .error f => .error f
          | .ok net => .ok (countModelsRead != 0, { s with net := net })

/-- `ask_neighbor_and_receive`. -/
def askNeighborAndReceive (i k1 k2 : ℕ) (s : State bso) : Except Fault (Bool × State bso) :=
  let s := askNeighbor J env history qid i k1 k2 s
  let net := s.net.await env
  receiveNeighbor J qid i net.joinIn 0 { s with net := net }

/-- `all_neighbors_returned`.  A shift of a `std::size_t` by 64 is undefined in C++; the processor
takes the count modulo 64. -/
def allNeighborsReturned (fromNeighbor toNeighbor : ℕ) : BitVec 64 :=
  (1#64 <<< ((toNeighbor - fromNeighbor + 1) % 64) - 1#64) <<< fromNeighbor

/-- The loop of `ask_first_packs`: read until all neighbours are marked, or one has no state. -/
def receiveFirstPacks (allReturned : BitVec 64) : List (ReturnedBeliefState bso) → BitVec 64 →
    List ℕ → State bso → Except Fault (Bool × State bso)
  | [], marking, _, s =>
      if marking = allReturned then .ok (true, { s with net := { s.net with joinIn := [] } })
      else .error .blocked
  | rbs :: rest, marking, countModelsRead, s =>
      if marking = allReturned then
        .ok (true, { s with net := { s.net with joinIn := rbs :: rest } })
      else
        let i := J.offset2index (neighborOffsetFromQid rbs.qid)
        match rbs.beliefState with
        | some bs =>
            if strippedQid rbs.qid ≠ qid then .error .strippedQid
            else
              receiveFirstPacks allReturned rest marking (countModelsRead.modify i (· + 1))
                { s with inputBeliefStates := s.inputBeliefStates.modify i (· ++ [bs]) }
        | none =>
            match s.net.endMarker qid rbs.qid rest with
            | .error f => .error f
            | .ok net =>
                if countModelsRead.getD i 0 = 0 then .ok (false, { s with net := net })
                else
                  receiveFirstPacks allReturned rest (marking ||| 1#64 <<< i) countModelsRead
                    { s with net := net }

/-- The queries `ask_first_packs` sends before it reads. -/
def askPacks (fromNeighbor toNeighbor : ℕ) (s : State bso) : State bso :=
  let k := if J.packSize > 0 then (1, J.packSize) else (0, 0)
  (List.range' fromNeighbor (toNeighbor - fromNeighbor + 1)).foldl
    (fun s i => askNeighbor J env history qid i k.1 k.2 s) s

/-- `ask_first_packs`. -/
def askFirstPacks (fromNeighbor toNeighbor : ℕ) (s : State bso) :
    Except Fault (Bool × State bso) :=
  if ¬ (fromNeighbor ≤ toNeighbor ∧ toNeighbor < J.neighbors.length) then .error .neighborRange
  else
    let s := askPacks J env history qid fromNeighbor toNeighbor s
    let net := s.net.await env
    receiveFirstPacks J qid (allNeighborsReturned fromNeighbor toNeighbor) net.joinIn 0
      (List.replicate (toNeighbor + 1) 0) { s with net := net }

/-- The combinations the loop of `join` goes through. -/
def combinations (packs : List (List (NewBeliefState bso.width))) :
    List (List (NewBeliefState bso.width)) :=
  let ends := packs.map List.length
  (visited (next ends) ends.prod (List.replicate ends.length 0)).map (pick packs)

/-- `do_join` on the packs at hand; returns whether a combination was successful. -/
def joinPacks (s : State bso) : Except Fault (Bool × State bso) :=
  match doJoin s.inputBeliefStates with
  | none => .error .emptyPack
  | some results =>
      .ok (!results.isEmpty, { s with
        joinedResults := s.joinedResults ++ results.map (fun bs => ⟨some bs, qid⟩)
        tried := s.tried ++ combinations s.inputBeliefStates })

/-- `joined_results.front()` and `pop_front()`. -/
def popResult (s : State bso) : Except Fault (ReturnedBeliefState bso × State bso) :=
  match s.joinedResults with
  | [] => .error .noResult
  | rbs :: rest => .ok (rbs, { s with joinedResults := rest })

/-- The part of `next_join` that asks for the first packs before `next_neighbor`. -/
def askEarlier (s : State bso) : Except Fault (State bso) :=
  if s.askingNext then
    if s.nextNeighbor = 0 then .error .nextNeighbor
    else
      match askFirstPacks J env history qid 0 (s.nextNeighbor - 1) s with
      | .error f => .error f
      | .ok (false, _) => .error .firstPacks
      | .ok (true, s) =>
          .ok { s with
            packCount := List.replicate s.nextNeighbor 0 ++ s.packCount.drop s.nextNeighbor }
  else .ok s

/-- `do_join` and what follows it in `first_join` and `next_join`: start over with the first
neighbour, and return a result if there is one. -/
def joinAndReturn (s : State bso) : Except Fault (Option (ReturnedBeliefState bso) × State bso) :=
  match joinPacks qid s with
  | .error f => .error f
  | .ok (succeeded, s) =>
      let s := { s with nextNeighbor := 0, askingNext := false }
      if succeeded then
        match popResult s with
        | .error f => .error f
        | .ok (rbs, s) => .ok (some rbs, s)
      else .ok (none, s)

/-- `k_one` and `k_two` of `next_join`, for pack number `pc` of packs of size `p`, on `size_t`. -/
def packRange (p pc : ℕ) : ℕ × ℕ := ((pc * p + 1) % 2 ^ 64, ((pc + 1) * p) % 2 ^ 64)

/-- The body of the loop of `next_join`: returns, or goes on. -/
def nextRound (s : State bso) : Except Fault (Option (ReturnedBeliefState bso) × State bso) :=
  if s.nextNeighbor = J.neighbors.length then .ok (some ⟨none, qid⟩, s.reset)
  else
    let pc := (s.packCount.getD s.nextNeighbor 0 + 1) % 2 ^ 64
    let k := packRange J.packSize pc
    match askNeighborAndReceive J env history qid s.nextNeighbor k.1 k.2
        { s with packCount := s.packCount.set s.nextNeighbor pc } with
    | .error f => .error f
    | .ok (false, s) =>
        .ok (none, { s with nextNeighbor := s.nextNeighbor + 1, askingNext := true })
    | .ok (true, s) =>
        match askEarlier J env history qid s with
        | .error f => .error f
        | .ok s => joinAndReturn qid s

/-- The loop of `next_join`. -/
def nextLoop : ℕ → State bso → Except Fault (ReturnedBeliefState bso × State bso)
  | 0, _ => .error .fuel
  | fuel + 1, s =>
      match nextRound J env history qid s with
      | .error f => .error f
      | .ok (some rbs, s) => .ok (rbs, s)
      | .ok (none, s) => nextLoop fuel s

/-- `next_join`. -/
def nextJoin (fuel : ℕ) (s : State bso) : Except Fault (ReturnedBeliefState bso × State bso) :=
  match s.joinedResults with
  | rbs :: rest => .ok (rbs, { s with joinedResults := rest })
  | [] =>
      if J.packSize = 0 then .ok (⟨none, qid⟩, s)
      else nextLoop J env history qid fuel s

/-- `first_join`. -/
def firstJoin (fuel : ℕ) (s : State bso) : Except Fault (ReturnedBeliefState bso × State bso) :=
  match askFirstPacks J env history qid 0 (J.neighbors.length - 1) s.reset with
  | .error f => .error f
  | .ok (false, s) => .ok (⟨none, qid⟩, s.reset)
  | .ok (true, s) =>
      match joinAndReturn qid s with
      | .error f => .error f
      | .ok (some rbs, s) => .ok (rbs, s)
      | .ok (none, s) =>
          if J.packSize > 0 then nextJoin J env history qid fuel s
          else .ok (⟨none, qid⟩, s)

/-- Calling `next_join` until it returns `NULL`, with the ids `qids i, qids (i + 1), …`. -/
def drain (qids : ℕ → Qid) (fuel : ℕ) :
    ℕ → ℕ → State bso → Except Fault (List (NewBeliefState bso.width) × State bso)
  | 0, _, _ => .error .fuel
  | calls + 1, i, s =>
      match nextJoin J env history (qids i) fuel s with
      | .error f => .error f
      | .ok (rbs, s) =>
          match rbs.beliefState with
          | none => .ok ([], s)
          | some bs => (drain qids fuel calls (i + 1) s).map (fun r => (bs :: r.1, r.2))

/-- Calling `first_join` once and then `next_join` until one of them returns `NULL`. -/
def joinRun (qids : ℕ → Qid) (fuel : ℕ) (s : State bso) :
    Except Fault (List (NewBeliefState bso.width) × State bso) :=
  match firstJoin J env history (qids 0) fuel s with
  | .error f => .error f
  | .ok (rbs, s) =>
      match rbs.beliefState with
      | none => .ok ([], s)
      | some bs => (drain J env history qids fuel fuel 1 s).map (fun r => (bs :: r.1, r.2))

end StreamingJoiner

end Dmcs
