import Mathlib.Data.Finset.Card
import Mathlib.Data.Finset.Insert
import Mathlib.Logic.Function.Basic
import Dmcs.Lib.TransitionSystem
import Dmcs.Mcs.QueryID

/-!
# Cycle detection by history (`RequestDispatcher`)

A request carries the set of contexts it has passed.  The dispatcher of a daemon gives a request to
the normal context of its receiver if the receiver is not in the history, and to its cycle breaker
otherwise.  The normal context adds its own id and its joiner asks the neighbours with the extended
history; the cycle breaker has no joiner.

`Step` is the traffic of requests in a system of any topology: clients, connections, dispatchers,
normal contexts and cycle breakers take turns in any order.  A request remembers the requests that
caused it (`trail`), which the code does not; it serves to state that chains of requests are short.

## The invariant

Every step of a chain of requests adds a context to the history that was not in it, since a normal
context processes only requests whose history it is not in, and a cycle breaker sends none on.  So
the history names exactly as many contexts of the system as requests caused the request
(`Request.Inv`), and a chain is no longer than the number of contexts plus one.  The induction is on
the run, with one lemma for the dispatcher and one for the start of a request.
-/

namespace Dmcs

open QueryID

/-- `ForwardMessage`. -/
structure ForwardMessage where
  qid : Qid
  history : Finset ℕ
  k1 : ℕ
  k2 : ℕ
  deriving DecidableEq

/-- `NewNeighbor`: the id of a neighbour and the offset of its queues. -/
structure Neighbor where
  neighborId : ℕ
  neighborOffset : ℕ
  deriving DecidableEq

namespace RequestDispatcher

/-- The contexts of a system with their neighbours and joiner offsets. -/
structure Topology where
  ctxIds : Finset ℕ
  neighbors : ℕ → List Neighbor
  joinerOffset : ℕ → ℕ

/-- A message together with the requests that caused it, oldest first, each with the context that
processed it. -/
structure Request where
  msg : ForwardMessage
  trail : List (ℕ × ForwardMessage)
  deriving DecidableEq

/-- Where requests are: in `NEIGHBOR_OUT_MQ`s and connections, in `REQUEST_DISPATCHER_MQ`s, in the
`REQUEST_MQ` and the `CYCLE_BREAKER_MQ` of each context, and in process by a normal context, with
the history it forwards.  `failed` is the assertion of `NormalContext::startup`. -/
structure State where
  outgoing : List Request
  dispatching : List Request
  requestQueue : ℕ → List Request
  cycleQueue : ℕ → List Request
  processing : ℕ → Option (Request × Finset ℕ)
  failed : Bool

/-- No request has been made. -/
def State.init : State := ⟨[], [], fun _ => [], fun _ => [], fun _ => none, false⟩

/-- `RequestDispatcher::startup` for one request: `get_offset` needs a registered receiver. -/
def dispatch (T : Topology) (s : State) (r : Request) : Option State :=
  let receiver := receiverFromQid r.msg.qid
  if receiver ∉ T.ctxIds then none
  else
    let toContext := Function.update s.requestQueue receiver (s.requestQueue receiver ++ [r])
    let toBreaker := Function.update s.cycleQueue receiver (s.cycleQueue receiver ++ [r])
    if isShutdown r.msg.qid then some { s with requestQueue := toContext, cycleQueue := toBreaker }
    else if receiver ∉ r.msg.history then some { s with requestQueue := toContext }
    else some { s with cycleQueue := toBreaker }

/-- `NormalContext::startup` for one message: a shutdown is not processed; a request must not have
the context in its history. -/
def start (s : State) (c : ℕ) (r : Request) : State :=
  if isShutdown r.msg.qid then s
  else if c ∈ r.msg.history then { s with failed := true }
  else { s with processing := Function.update s.processing c (some (r, insert c r.msg.history)) }

/-- `ask_neighbor`: the request sent on to a neighbour. -/
def askNeighbor (T : Topology) (c : ℕ) (r : Request) (history : Finset ℕ) (nb : Neighbor)
    (queryOrder k1 k2 : ℕ) : Request :=
  ⟨⟨forwardQid (queryId c queryOrder) nb.neighborId nb.neighborOffset (T.joinerOffset c), history,
    k1, k2⟩, r.trail ++ [(c, r.msg)]⟩

/-- What happens to requests. -/
inductive Step (T : Topology) : State → State → Prop
  /-- A client whose history names no context makes a request. -/
  | client {s : State} (msg : ForwardMessage) (h : ∀ c ∈ T.ctxIds, c ∉ msg.history) :
      Step T s { s with outgoing := ⟨msg, []⟩ :: s.outgoing }
  /-- A connection delivers a request to the dispatcher of a daemon. -/
  | deliver {s : State} {r : Request} (h : r ∈ s.outgoing) :
      Step T s { s with outgoing := s.outgoing.erase r, dispatching := s.dispatching ++ [r] }
  /-- The dispatcher takes a request from its queue. -/
  | dispatch {s s' : State} {r : Request} (h : r ∈ s.dispatching)
      (hs' : dispatch T { s with dispatching := s.dispatching.erase r } r = some s') : Step T s s'
  /-- A normal context that is idle takes the next message from its queue. -/
  | start {s : State} {c : ℕ} {r : Request} {rest : List Request} (hidle : s.processing c = none)
      (h : s.requestQueue c = r :: rest) :
      Step T s (start { s with requestQueue := Function.update s.requestQueue c rest } c r)
  /-- The joiner of a normal context asks a neighbour. -/
  | forward {s : State} {c : ℕ} {r : Request} {history : Finset ℕ}
      (h : s.processing c = some (r, history)) {nb : Neighbor} (hnb : nb ∈ T.neighbors c)
      (queryOrder k1 k2 : ℕ) :
      Step T s { s with outgoing := askNeighbor T c r history nb queryOrder k1 k2 :: s.outgoing }
  /-- A normal context has answered. -/
  | finish {s : State} {c : ℕ} :
      Step T s { s with processing := Function.update s.processing c none }
  /-- A cycle breaker takes the next message from its queue and answers it by guessing. -/
  | breakCycle {s : State} {c : ℕ} {r : Request} {rest : List Request}
      (h : s.cycleQueue c = r :: rest) :
      Step T s { s with cycleQueue := Function.update s.cycleQueue c rest }

/-- The request is somewhere in the system. -/
inductive State.Occurs (s : State) (r : Request) : Prop
  | outgoing (h : r ∈ s.outgoing)
  | dispatching (h : r ∈ s.dispatching)
  | requestQueue (c : ℕ) (h : r ∈ s.requestQueue c)
  | cycleQueue (c : ℕ) (h : r ∈ s.cycleQueue c)
  | processing (c : ℕ) (history : Finset ℕ) (h : s.processing c = some (r, history))

/-- Where a request that a step brings into the system comes from: from a client, or from a normal
context that processes another request and passes on that request's history and its own id. -/
inductive Origin (T : Topology) (s : State) (r : Request) : Prop
  | client (h : ∀ c ∈ T.ctxIds, c ∉ r.msg.history) (htrail : r.trail = [])
  | forwarded (c : ℕ) (r₀ : Request) (history : Finset ℕ) (h : s.processing c = some (r₀, history))
      (hhist : r.msg.history = insert c r₀.msg.history)
      (htrail : r.trail = r₀.trail ++ [(c, r₀.msg)])

/-! ## The invariant -/

/-- The history of a request names exactly as many contexts as requests caused it; these were all
processed by contexts not in their history. -/
structure Request.Inv (T : Topology) (r : Request) : Prop where
  card_eq : (r.msg.history ∩ T.ctxIds).card = r.trail.length
  trail_fresh : ∀ p ∈ r.trail, p.1 ∉ p.2.history

/-- The invariant of the traffic. -/
structure State.Inv (T : Topology) (s : State) : Prop where
  outgoing : ∀ r ∈ s.outgoing, r.Inv T
  dispatching : ∀ r ∈ s.dispatching, r.Inv T
  requestQueue : ∀ c, ∀ r ∈ s.requestQueue c, r.Inv T ∧ c ∈ T.ctxIds ∧
    (isShutdown r.msg.qid = false → c ∉ r.msg.history)
  cycleQueue : ∀ c, ∀ r ∈ s.cycleQueue c, r.Inv T
  processing : ∀ c r history, s.processing c = some (r, history) → r.Inv T ∧ c ∈ T.ctxIds ∧
    c ∉ r.msg.history ∧ history = insert c r.msg.history
  not_failed : s.failed = false

section Invariant

variable {T : Topology} {s s' : State}

lemma Request.Inv.client {msg : ForwardMessage} (h : ∀ c ∈ T.ctxIds, c ∉ msg.history) :
    Request.Inv T ⟨msg, []⟩ := by
  refine ⟨?_, by simp⟩
  rw [List.length_nil, Finset.card_eq_zero, ← Finset.disjoint_iff_inter_eq_empty,
    Finset.disjoint_right]
  exact h

/-- A forwarded request has passed one context more. -/
lemma Request.Inv.askNeighbor {r : Request} (hr : r.Inv T) {c : ℕ} (hc : c ∈ T.ctxIds)
    (hnot : c ∉ r.msg.history) (nb : Neighbor) (queryOrder k1 k2 : ℕ) :
    (RequestDispatcher.askNeighbor T c r (insert c r.msg.history) nb queryOrder k1 k2).Inv T := by
  refine ⟨?_, ?_⟩
  · have hfresh : c ∉ r.msg.history ∩ T.ctxIds := fun h => hnot (Finset.mem_inter.mp h).1
    simp only [RequestDispatcher.askNeighbor, List.length_append, List.length_singleton]
    rw [Finset.insert_inter_of_mem hc, Finset.card_insert_of_notMem hfresh, hr.card_eq]
  · intro p hp
    rcases List.mem_append.mp hp with hp | hp
    · exact hr.trail_fresh p hp
    · rw [List.mem_singleton] at hp
      subst hp
      exact hnot

lemma mem_update_append {f : ℕ → List Request} {c d : ℕ} {r r' : Request}
    (h : r' ∈ Function.update f c (f c ++ [r]) d) : r' = r ∨ r' ∈ f d := by
  by_cases hd : d = c
  · subst hd
    rw [Function.update_self] at h
    rcases List.mem_append.mp h with h | h
    · exact Or.inr h
    · exact Or.inl (List.mem_singleton.mp h)
  · rw [Function.update_of_ne hd] at h
    exact Or.inr h

lemma mem_update_tail {f : ℕ → List Request} {c d : ℕ} {r r' : Request} {rest : List Request}
    (hf : f c = r :: rest) (h : r' ∈ Function.update f c rest d) : r' ∈ f d := by
  by_cases hd : d = c
  · subst hd
    rw [Function.update_self] at h
    rw [hf]
    exact List.mem_cons_of_mem _ h
  · rwa [Function.update_of_ne hd] at h

lemma State.Inv.init : State.Inv T State.init := by
  refine ⟨?_, ?_, ?_, ?_, ?_, rfl⟩ <;> simp [State.init]

/-- What the dispatcher puts into a queue. -/
lemma State.Inv.dispatch (hs : s.Inv T) {r : Request} (hr : r.Inv T)
    (h : RequestDispatcher.dispatch T s r = some s') : s'.Inv T := by
  rw [RequestDispatcher.dispatch] at h
  set receiver := receiverFromQid r.msg.qid with hrec
  by_cases hreg : receiver ∉ T.ctxIds
  · simp [hreg] at h
  · have hrequest : (isShutdown r.msg.qid = false → receiver ∉ r.msg.history) →
        ∀ c, ∀ r' ∈ Function.update s.requestQueue receiver (s.requestQueue receiver ++ [r]) c,
          r'.Inv T ∧ c ∈ T.ctxIds ∧ (isShutdown r'.msg.qid = false → c ∉ r'.msg.history) := by
      intro hhist c r' hr'
      by_cases hc : c = receiver
      · subst hc
        rcases mem_update_append hr' with rfl | hr'
        · exact ⟨hr, not_not.mp hreg, hhist⟩
        · exact hs.requestQueue _ r' hr'
      · rw [Function.update_of_ne hc] at hr'
        exact hs.requestQueue c r' hr'
    have hcycle : ∀ c, ∀ r' ∈ Function.update s.cycleQueue receiver
        (s.cycleQueue receiver ++ [r]) c, r'.Inv T := by
      intro c r' hr'
      rcases mem_update_append hr' with rfl | hr'
      · exact hr
      · exact hs.cycleQueue c r' hr'
    simp only [hreg, if_false] at h
    split at h
    · rename_i hshut
      obtain rfl := Option.some_injective _ h
      exact { hs with
        requestQueue := hrequest (fun hno => by simp [hno] at hshut)
        cycleQueue := hcycle }
    · split at h
      · rename_i hhist
        obtain rfl := Option.some_injective _ h
        exact { hs with requestQueue := hrequest (fun _ => hhist) }
      · obtain rfl := Option.some_injective _ h
        exact { hs with cycleQueue := hcycle }

/-- Starting a request does not fail, and extends its history. -/
lemma State.Inv.start (hs : s.Inv T) {c : ℕ} {r : Request} (hr : r.Inv T) (hc : c ∈ T.ctxIds)
    (hnot : isShutdown r.msg.qid = false → c ∉ r.msg.history) :
    (RequestDispatcher.start s c r).Inv T := by
  rw [RequestDispatcher.start]
  split
  · exact hs
  · rename_i hshut
    rw [Bool.not_eq_true] at hshut
    rw [if_neg (hnot hshut)]
    refine { hs with processing := fun d r' history h => ?_ }
    by_cases hd : d = c
    · subst hd
      simp only [Function.update_self, Option.some.injEq, Prod.mk.injEq] at h
      obtain ⟨rfl, rfl⟩ := h
      exact ⟨hr, hc, hnot hshut, rfl⟩
    · simp only [Function.update_of_ne hd] at h
      exact hs.processing d r' history h

/-- Every step keeps the invariant. -/
lemma State.Inv.step (hs : s.Inv T) (h : Step T s s') : s'.Inv T := by
  cases h with
  | client msg hmsg =>
      refine { hs with outgoing := fun r hr => ?_ }
      rcases List.mem_cons.mp hr with rfl | hr
      · exact Request.Inv.client hmsg
      · exact hs.outgoing r hr
  | @deliver r hr =>
      refine { hs with
        outgoing := fun r' hr' => hs.outgoing r' (List.mem_of_mem_erase hr')
        dispatching := fun r' hr' => ?_ }
      rcases List.mem_append.mp hr' with hr' | hr'
      · exact hs.dispatching r' hr'
      · rw [List.mem_singleton] at hr'
        exact hr' ▸ hs.outgoing r hr
  | @dispatch _ r hr hs' =>
      refine State.Inv.dispatch ?_ (hs.dispatching r hr) hs'
      exact { hs with dispatching := fun r' hr' => hs.dispatching r' (List.mem_of_mem_erase hr') }
  | @start c r rest hidle hq =>
      obtain ⟨hr, hc, hnot⟩ := hs.requestQueue c r (by rw [hq]; exact List.mem_cons_self ..)
      refine State.Inv.start ?_ hr hc hnot
      exact { hs with
        requestQueue := fun d r' hr' => hs.requestQueue d r' (mem_update_tail hq hr') }
  | @forward c r history hp nb hnb queryOrder k1 k2 =>
      refine { hs with outgoing := fun r' hr' => ?_ }
      rcases List.mem_cons.mp hr' with rfl | hr'
      · obtain ⟨hr, hc, hnot, rfl⟩ := hs.processing c r history hp
        exact hr.askNeighbor hc hnot nb queryOrder k1 k2
      · exact hs.outgoing r' hr'
  | @finish c =>
      refine { hs with processing := fun d r history hp => ?_ }
      by_cases hd : d = c
      · subst hd
        simp at hp
      · simp only [Function.update_of_ne hd] at hp
        exact hs.processing d r history hp
  | @breakCycle c r rest hq =>
      exact { hs with cycleQueue := fun d r' hr' => hs.cycleQueue d r' (mem_update_tail hq hr') }

lemma State.Inv.occurs (hs : s.Inv T) {r : Request} (h : s.Occurs r) : r.Inv T := by
  cases h with
  | outgoing h => exact hs.outgoing r h
  | dispatching h => exact hs.dispatching r h
  | requestQueue c h => exact (hs.requestQueue c r h).1
  | cycleQueue c h => exact hs.cycleQueue c r h
  | processing c history h => exact (hs.processing c r history h).1

/-- A chain of requests is not longer than the number of contexts, plus one. -/
lemma Request.Inv.length_le {r : Request} (hr : r.Inv T) :
    r.trail.length + 1 ≤ T.ctxIds.card + 1 := by
  rw [← hr.card_eq]
  exact Nat.succ_le_succ (Finset.card_le_card Finset.inter_subset_right)

/-- A request that occurs in `s'` occurs in `s` unless `P`, if that is so for each place a request
can be at. -/
lemma State.Occurs.of_places {r : Request} {P : Prop} (hr : s'.Occurs r)
    (hout : r ∈ s'.outgoing → P ∨ r ∈ s.outgoing)
    (hdisp : r ∈ s'.dispatching → P ∨ r ∈ s.dispatching)
    (hrequest : ∀ c, r ∈ s'.requestQueue c → P ∨ r ∈ s.requestQueue c)
    (hcycle : ∀ c, r ∈ s'.cycleQueue c → P ∨ r ∈ s.cycleQueue c)
    (hproc : ∀ c history, s'.processing c = some (r, history) →
      P ∨ s.processing c = some (r, history)) : P ∨ s.Occurs r := by
  cases hr with
  | outgoing h => exact (hout h).imp_right .outgoing
  | dispatching h => exact (hdisp h).imp_right .dispatching
  | requestQueue c h => exact (hrequest c h).imp_right (.requestQueue c)
  | cycleQueue c h => exact (hcycle c h).imp_right (.cycleQueue c)
  | processing c history h => exact (hproc c history h).imp_right (.processing c history)

/-- The dispatcher moves a request, and makes none. -/
lemma occurs_dispatch {r r' : Request} (h : RequestDispatcher.dispatch T s r = some s')
    (hr' : s'.Occurs r') : r' = r ∨ s.Occurs r' := by
  rw [RequestDispatcher.dispatch] at h
  split at h
  · simp at h
  · split at h
    · obtain rfl := Option.some_injective _ h
      exact hr'.of_places Or.inr Or.inr (fun _ => mem_update_append) (fun _ => mem_update_append)
        (fun _ _ => Or.inr)
    · split at h
      · obtain rfl := Option.some_injective _ h
        exact hr'.of_places Or.inr Or.inr (fun _ => mem_update_append) (fun _ => Or.inr)
          (fun _ _ => Or.inr)
      · obtain rfl := Option.some_injective _ h
        exact hr'.of_places Or.inr Or.inr (fun _ => Or.inr) (fun _ => mem_update_append)
          (fun _ _ => Or.inr)

/-- Starting a request makes none. -/
lemma occurs_start {c : ℕ} {r r' : Request} (hr' : (RequestDispatcher.start s c r).Occurs r') :
    r' = r ∨ s.Occurs r' := by
  rw [RequestDispatcher.start] at hr'
  split at hr'
  · exact Or.inr hr'
  · split at hr'
    · exact hr'.of_places Or.inr Or.inr (fun _ => Or.inr) (fun _ => Or.inr) (fun _ _ => Or.inr)
    · refine hr'.of_places Or.inr Or.inr (fun _ => Or.inr) (fun _ => Or.inr) ?_
      intro d history h
      by_cases hd : d = c
      · subst hd
        simp only [Function.update_self, Option.some.injEq, Prod.mk.injEq] at h
        exact Or.inl h.1.symm
      · simp only [Function.update_of_ne hd] at h
        exact Or.inr h

/-- A request that is new after a step comes from a client or from the joiner of a normal
context. -/
lemma Step.origin (hs : s.Inv T) (h : Step T s s') {r : Request} (hr : s'.Occurs r) :
    Origin T s r ∨ s.Occurs r := by
  cases h with
  | client msg hmsg =>
      refine hr.of_places ?_ Or.inr (fun _ => Or.inr) (fun _ => Or.inr) (fun _ _ => Or.inr)
      intro h
      rcases List.mem_cons.mp h with rfl | h
      · exact Or.inl (.client hmsg rfl)
      · exact Or.inr h
  | @deliver r₀ hr₀ =>
      have hmoved : r = r₀ ∨ s.Occurs r := by
        refine hr.of_places (fun h => Or.inr (List.mem_of_mem_erase h)) ?_ (fun _ => Or.inr)
          (fun _ => Or.inr) (fun _ _ => Or.inr)
        intro h
        rcases List.mem_append.mp h with h | h
        · exact Or.inr h
        · exact Or.inl (List.mem_singleton.mp h)
      rcases hmoved with rfl | hr
      · exact Or.inr (.outgoing hr₀)
      · exact Or.inr hr
  | @dispatch _ r₀ hr₀ hs' =>
      rcases occurs_dispatch hs' hr with rfl | hr
      · exact Or.inr (.dispatching hr₀)
      · exact hr.of_places Or.inr (fun h => Or.inr (List.mem_of_mem_erase h)) (fun _ => Or.inr)
          (fun _ => Or.inr) (fun _ _ => Or.inr)
  | @start c r₀ rest hidle hq =>
      rcases occurs_start hr with rfl | hr
      · exact Or.inr (.requestQueue c (by rw [hq]; exact List.mem_cons_self ..))
      · exact hr.of_places Or.inr Or.inr (fun _ h => Or.inr (mem_update_tail hq h))
          (fun _ => Or.inr) (fun _ _ => Or.inr)
  | @forward c r₀ history hp nb hnb queryOrder k1 k2 =>
      refine hr.of_places ?_ Or.inr (fun _ => Or.inr) (fun _ => Or.inr) (fun _ _ => Or.inr)
      intro h
      rcases List.mem_cons.mp h with rfl | h
      · obtain ⟨-, -, -, hhist⟩ := hs.processing c r₀ history hp
        exact Or.inl (.forwarded c r₀ history hp hhist rfl)
      · exact Or.inr h
  | @finish c =>
      refine hr.of_places Or.inr Or.inr (fun _ => Or.inr) (fun _ => Or.inr) ?_
      intro d history h
      by_cases hd : d = c
      · subst hd
        simp at h
      · simp only [Function.update_of_ne hd] at h
        exact Or.inr h
  | @breakCycle c r₀ rest hq =>
      exact hr.of_places Or.inr Or.inr (fun _ => Or.inr)
        (fun _ h => Or.inr (mem_update_tail hq h)) (fun _ _ => Or.inr)

end Invariant

/-- In every state reached in a system of any topology: no assertion on the history has failed; a
request waiting for a normal context does not have it in its history; a request that a step adds
comes from a client, or from a normal context with the history of the request it processes and its
own id, so that a cycle breaker adds none; the causes of a request were processed by contexts that
were not in their history; and a chain of requests is at most as long as there are contexts, plus
one. -/
theorem run_history (T : Topology) (s : State)
    (hrun : Relation.ReflTransGen (Step T) State.init s) :
    s.failed = false ∧
    (∀ c, ∀ r ∈ s.requestQueue c, isShutdown r.msg.qid = false → c ∉ r.msg.history) ∧
    (∀ s', Step T s s' → ∀ r, s'.Occurs r → s.Occurs r ∨ Origin T s r) ∧
    (∀ r, s.Occurs r → ∀ p ∈ r.trail, p.1 ∉ p.2.history) ∧
    ∀ r, s.Occurs r → r.trail.length + 1 ≤ T.ctxIds.card + 1 := by
  have hs : s.Inv T := TransitionSystem.invariant_of_step State.Inv.init
    (fun _ _ hs h => hs.step h) hrun
  refine ⟨hs.not_failed, fun c r hr => (hs.requestQueue c r hr).2.2, ?_,
    fun r hr => (hs.occurs hr).trail_fresh, fun r hr => (hs.occurs hr).length_le⟩
  intro s' h r hr
  exact (h.origin hs hr).symm

/-- One context that is its own neighbour. -/
def selfLoop : Topology := ⟨{0}, fun _ => [⟨0, 0⟩], fun _ => 0⟩

/-- A client's request to context `0`. -/
def clientRequest : Request := ⟨⟨forwardQid (queryId 1023 1) 0 0 0, ∅, 0, 0⟩, []⟩

/-- The request of a client reaches the normal context, and the request that context sends to
itself is in the system with a chain of length two. -/
theorem run_history_selfLoop :
    ∃ s : State, Relation.ReflTransGen (Step selfLoop) State.init s ∧ s.failed = false ∧
      ∃ r, s.Occurs r ∧ r.msg.history = {0} ∧ r.trail.length + 1 ≤ 2 := by
  let s₁ : State := { State.init with outgoing := [clientRequest] }
  let s₂ : State := { State.init with dispatching := [clientRequest] }
  let s₃ : State := { State.init with
    requestQueue := Function.update (fun _ => []) 0 [clientRequest] }
  let s₄ : State := { s₃ with
    requestQueue := Function.update s₃.requestQueue 0 []
    processing := Function.update (fun _ => none) 0 (some (clientRequest, insert 0 ∅)) }
  let r := askNeighbor selfLoop 0 clientRequest (insert 0 ∅) ⟨0, 0⟩ 1 0 0
  let s₅ : State := { s₄ with outgoing := [r] }
  have h₁ : Step selfLoop State.init s₁ := Step.client clientRequest.msg (by simp [clientRequest])
  have h₂ : Step selfLoop s₁ s₂ := Step.deliver (r := clientRequest) (List.mem_singleton.mpr rfl)
  have h₃ : Step selfLoop s₂ s₃ :=
    Step.dispatch (r := clientRequest) (List.mem_singleton.mpr rfl) rfl
  have h₄ : Step selfLoop s₃ s₄ := Step.start (c := 0) (r := clientRequest) rfl rfl
  have h₅ : Step selfLoop s₄ s₅ :=
    Step.forward (c := 0) rfl (show ⟨0, 0⟩ ∈ selfLoop.neighbors 0 by simp [selfLoop]) 1 0 0
  have hrun : Relation.ReflTransGen (Step selfLoop) State.init s₅ :=
    ((((Relation.ReflTransGen.single h₁).tail h₂).tail h₃).tail h₄).tail h₅
  obtain ⟨hfailed, -, -, -, hlength⟩ := run_history selfLoop s₅ hrun
  have hr : s₅.Occurs r := .outgoing (List.mem_singleton.mpr rfl)
  exact ⟨s₅, hrun, hfailed, r, hr, rfl, hlength r hr⟩

end RequestDispatcher

end Dmcs
