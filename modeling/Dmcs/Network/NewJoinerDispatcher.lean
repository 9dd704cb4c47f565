import Mathlib.Algebra.BigOperators.Fin
import Mathlib.Algebra.BigOperators.Group.Finset.Piecewise
import Dmcs.Mcs.StreamingJoiner

/-!
# Routing answers to joiners (`NewNeighborThread`, `NewJoinerDispatcher`)

The thread of each neighbour reads batches of answers from its connection.  For a batch it first
puts a notification, with its own offset and the size of the batch, on the one
`JOINER_DISPATCHER_MQ`, and then the belief states one by one on its own `NEIGHBOR_IN_MQ`.  The
dispatcher takes a notification, takes that many belief states from that neighbour, and sends each
on to the `JOIN_IN_MQ` that the query id names.  All queues have the same bounded capacity.

The counts match in every interleaving (`State.Inv.counts`), so nothing is lost or mixed up on the
way.  The query id names the joiner that asked only as far as the six bits of its field go, so that
a server with query orders of 24 bits tells `64` joiners apart (`delivers_iff_offsets_lt`).

The bits of a query order from `2 ^ 24` on would be read as part of the offset; `joinerOffset_iff`
says for any two numbers whether the joiner is read back, and `delivers_iff_fits` what follows for
the answers.

## The invariant

For every neighbour the answers keep their order on their way: what joiners were sent, what the
dispatcher has in hand, what is in the queue, what the thread has taken from the connection, and
what is not read yet make up the batches (`State.Inv.order`).  What the dispatcher still has to
receive from a neighbour, and what stands in notifications, is as much as is announced and not yet
received (`counts`), so the dispatcher never waits for a belief state that does not come, and never
takes one that belongs to another batch.

Every step makes `State.work` smaller, so every run ends.  A state from which no step is possible
has nothing under way, and then the order says that everything was delivered.
-/

namespace Dmcs

open QueryID

variable {bso : BeliefStateOffset}

namespace NewJoinerDispatcher

/-- A call of `ask_neighbor`: the context and the order of the query id, the neighbour asked and
the offset of the joiner that asks. -/
structure Ask where
  ctxId : ℕ
  queryOrder : ℕ
  neighborId : ℕ
  neighborOffset : ℕ
  joinerOffset : ℕ

/-- The id of the request. -/
def Ask.qid (ask : Ask) : Qid :=
  forwardQid (queryId ask.ctxId ask.queryOrder) ask.neighborId ask.neighborOffset ask.joinerOffset

/-- The offset fits its field, and the query order does not reach into it with other bits. -/
def Ask.Fits (ask : Ask) : Prop :=
  ask.joinerOffset < 2 ^ 6 ∧
    ∀ k < 6, ask.queryOrder.testBit (24 + k) = true → ask.joinerOffset.testBit k = true

/-- An answer, with the request it answers, whose id it repeats. -/
structure Reply (bso : BeliefStateOffset) where
  rbs : ReturnedBeliefState bso
  ask : Ask
  qid_eq : rbs.qid = ask.qid

/-- Neighbours and what is read from their connections, the offsets registered for joiners, and the
capacity of queues.  The joiners that ask are registered. -/
structure System (bso : BeliefStateOffset) where
  queueSize : ℕ
  queueSize_pos : 0 < queueSize
  noNeighbors : ℕ
  joiners : Finset ℕ
  batches : Fin noNeighbors → List (List (Reply bso))
  joinerOffset_mem : ∀ i, ∀ batch ∈ batches i, ∀ reply ∈ batch, reply.ask.joinerOffset ∈ joiners

/-- `NewNeighborThread::handle_read_message`: the notification of a batch is sent next, or the rest
of its belief states; after the last it waits for the next message. -/
inductive NeighborThread (bso : BeliefStateOffset) where
  | notifying (batch : List (Reply bso))
  | sending (rest : List (Reply bso))

/-- `startup`: waiting for a notification, with a number of belief states left to receive from a
neighbour, or with a belief state in hand. -/
inductive Dispatcher (n : ℕ) (bso : BeliefStateOffset) where
  | waiting
  | receiving (i : Fin n) (left : ℕ)
  | forwarding (i : Fin n) (left : ℕ) (reply : Reply bso)

/-- A belief state put on a `JOIN_IN_MQ`, and the neighbour it came from. -/
structure Delivery (n : ℕ) (bso : BeliefStateOffset) where
  joiner : ℕ
  neighbor : Fin n
  reply : Reply bso

/-- What the neighbours still send, the threads, the queues, and all that was put on the queues of
joiners, in this order. -/
structure State (n : ℕ) (bso : BeliefStateOffset) where
  unread : Fin n → List (List (Reply bso))
  threads : Fin n → NeighborThread bso
  joinerDispatcherMQ : List (Fin n × ℕ)
  neighborInMQ : Fin n → List (Reply bso)
  dispatcher : Dispatcher n bso
  joinInMQ : ℕ → List (Reply bso)
  log : List (Delivery n bso)

/-- Nothing was read yet. -/
def State.init (S : System bso) : State S.noNeighbors bso :=
  ⟨S.batches, fun _ => .sending [], [], fun _ => [], .waiting, fun _ => [], []⟩

/-- The steps of the neighbour threads, of the dispatcher and of the joiners.  Sending waits for
room in the queue. -/
inductive Step (S : System bso) : State S.noNeighbors bso → State S.noNeighbors bso → Prop
  /-- A thread reads a `BackwardMessage`. -/
  | read {s : State S.noNeighbors bso} {i : Fin S.noNeighbors} {batch : List (Reply bso)}
      {rest : List (List (Reply bso))} (hthread : s.threads i = .sending [])
      (h : s.unread i = batch :: rest) :
      Step S s { s with
        unread := Function.update s.unread i rest
        threads := Function.update s.threads i (.notifying batch) }
  /-- It notifies the dispatcher. -/
  | notify {s : State S.noNeighbors bso} {i : Fin S.noNeighbors} {batch : List (Reply bso)}
      (hthread : s.threads i = .notifying batch)
      (hroom : s.joinerDispatcherMQ.length < S.queueSize) :
      Step S s { s with
        threads := Function.update s.threads i (.sending batch)
        joinerDispatcherMQ := s.joinerDispatcherMQ ++ [(i, batch.length)] }
  /-- It puts a belief state on its queue. -/
  | put {s : State S.noNeighbors bso} {i : Fin S.noNeighbors} {reply : Reply bso}
      {rest : List (Reply bso)} (hthread : s.threads i = .sending (reply :: rest))
      (hroom : (s.neighborInMQ i).length < S.queueSize) :
      Step S s { s with
        threads := Function.update s.threads i (.sending rest)
        neighborInMQ := Function.update s.neighborInMQ i (s.neighborInMQ i ++ [reply]) }
  /-- The dispatcher takes a notification. -/
  | take {s : State S.noNeighbors bso} {i : Fin S.noNeighbors} {left : ℕ}
      {rest : List (Fin S.noNeighbors × ℕ)} (hdispatcher : s.dispatcher = .waiting)
      (h : s.joinerDispatcherMQ = (i, left) :: rest) :
      Step S s { s with joinerDispatcherMQ := rest, dispatcher := .receiving i left }
  /-- It takes a belief state. -/
  | receive {s : State S.noNeighbors bso} {i : Fin S.noNeighbors} {left : ℕ} {reply : Reply bso}
      {rest : List (Reply bso)} (hdispatcher : s.dispatcher = .receiving i (left + 1))
      (h : s.neighborInMQ i = reply :: rest) :
      Step S s { s with
        neighborInMQ := Function.update s.neighborInMQ i rest
        dispatcher := .forwarding i left reply }
  /-- It sends the belief state on; an assertion holds that the offset is registered. -/
  | forward {s : State S.noNeighbors bso} {i : Fin S.noNeighbors} {left j : ℕ} {reply : Reply bso}
      (hdispatcher : s.dispatcher = .forwarding i left reply)
      (hj : j = joinerOffsetFromQid reply.rbs.qid) (hregistered : j ∈ S.joiners)
      (hroom : (s.joinInMQ j).length < S.queueSize) :
      Step S s { s with
        dispatcher := .receiving i left
        joinInMQ := Function.update s.joinInMQ j (s.joinInMQ j ++ [reply])
        log := s.log ++ [⟨j, i, reply⟩] }
  /-- It is through with a notification. -/
  | endBatch {s : State S.noNeighbors bso} {i : Fin S.noNeighbors}
      (hdispatcher : s.dispatcher = .receiving i 0) : Step S s { s with dispatcher := .waiting }
  /-- A joiner takes a belief state. -/
  | join {s : State S.noNeighbors bso} {j : ℕ} {reply : Reply bso} {rest : List (Reply bso)}
      (hregistered : j ∈ S.joiners) (h : s.joinInMQ j = reply :: rest) :
      Step S s { s with joinInMQ := Function.update s.joinInMQ j rest }

/-- What joiner `j` was sent of neighbour `i`. -/
def State.delivered {n : ℕ} (s : State n bso) (i : Fin n) (j : ℕ) : List (Reply bso) :=
  (s.log.filter (fun d => d.neighbor = i ∧ d.joiner = j)).map Delivery.reply

/-- What neighbour `i` answers to joiner `j`. -/
def System.answers (S : System bso) (i : Fin S.noNeighbors) (j : ℕ) : List (Reply bso) :=
  (S.batches i).flatten.filter (fun reply => reply.ask.joinerOffset = j)

/-- In every interleaving, the queue of a joiner gets the answers of each neighbour to its requests
and nothing else, in the order in which they were read, until all have come; and every run ends. -/
structure System.Delivers (S : System bso) : Prop where
  inOrder : ∀ s, Relation.ReflTransGen (Step S) (State.init S) s →
    ∀ i j, s.delivered i j <+: S.answers i j
  complete : ∀ s, Relation.ReflTransGen (Step S) (State.init S) s → (∀ s', ¬ Step S s s') →
    ∀ i j, s.delivered i j = S.answers i j
  ends : ∀ run : ℕ → State S.noNeighbors bso, run 0 = State.init S →
    ¬ ∀ n, Step S (run n) (run (n + 1))

/-! ## The offset in the query id -/

/-- The joiner that asked is read back exactly if its offset fits. -/
lemma joinerOffset_iff (ask : Ask) :
    joinerOffsetFromQid ask.qid = ask.joinerOffset ↔ ask.Fits := by
  have hbit := testBit_joinerOffset_forward ask.ctxId ask.queryOrder ask.neighborId
    ask.neighborOffset ask.joinerOffset
  constructor
  · intro h
    unfold Ask.qid at h
    rw [h] at hbit
    refine ⟨?_, fun k hk horder => ?_⟩
    · apply Nat.lt_pow_two_of_testBit
      intro k hk
      rw [hbit k, decide_eq_false (by omega), Bool.false_and]
    · rw [hbit k, decide_eq_true hk, horder]
      rfl
  · rintro ⟨hlt, horder⟩
    refine Nat.eq_of_testBit_eq (fun k => ?_)
    unfold Ask.qid
    rw [hbit k]
    by_cases hk : k < 6
    · rw [decide_eq_true hk, Bool.true_and]
      cases hq : ask.queryOrder.testBit (24 + k) with
      | false => rfl
      | true =>
          rw [horder k hk hq]
          rfl
    · have hhigh : ask.joinerOffset.testBit k = false :=
        Nat.testBit_lt_two_pow (lt_of_lt_of_le hlt (Nat.pow_le_pow_right (by omega) (by omega)))
      rw [decide_eq_false hk, hhigh]
      rfl

/-! ## The invariant -/

/-- What a thread has read and not put on its queue. -/
def NeighborThread.rest : NeighborThread bso → List (Reply bso)
  | .notifying batch => batch
  | .sending rest => rest

/-- The part of it whose notification was sent. -/
def NeighborThread.announced : NeighborThread bso → List (Reply bso)
  | .notifying _ => []
  | .sending rest => rest

section Dispatcher

variable {n : ℕ}

/-- The belief state of neighbour `i` in the hand of the dispatcher. -/
def Dispatcher.inHand (i : Fin n) : Dispatcher n bso → List (Reply bso)
  | .forwarding k _ reply => if k = i then [reply] else []
  | _ => []

/-- The number of belief states the dispatcher has left to receive from neighbour `i`. -/
def Dispatcher.left (i : Fin n) : Dispatcher n bso → ℕ
  | .waiting => 0
  | .receiving k left => if k = i then left else 0
  | .forwarding k left _ => if k = i then left else 0

/-- The number of belief states of neighbour `i` in notifications. -/
def notified (i : Fin n) (queue : List (Fin n × ℕ)) : ℕ :=
  ((queue.filter (fun nji => nji.1 = i)).map Prod.snd).sum

/-- What came of neighbour `i`, in the order of its way: what joiners were sent, what the dispatcher
holds, what is in the queue, what the thread has read, what it has not. -/
def State.ofNeighbor (s : State n bso) (i : Fin n) : List (Reply bso) :=
  (s.log.filter (fun d => d.neighbor = i)).map Delivery.reply ++ s.dispatcher.inHand i ++
    s.neighborInMQ i ++ (s.threads i).rest ++ (s.unread i).flatten

end Dispatcher

/-- The invariant: the answers of a neighbour keep their order on their way; they were sent where
their query ids say; and as many are expected from a neighbour as were announced and are not yet
received. -/
structure State.Inv (S : System bso) (s : State S.noNeighbors bso) : Prop where
  order : ∀ i, s.ofNeighbor i = (S.batches i).flatten
  target : ∀ d ∈ s.log, d.joiner = joinerOffsetFromQid d.reply.rbs.qid
  counts : ∀ i, s.dispatcher.left i + notified i s.joinerDispatcherMQ =
    (s.neighborInMQ i).length + (s.threads i).announced.length

section Invariant

variable {S : System bso} {s s' : State S.noNeighbors bso}

lemma State.Inv.init : State.Inv S (State.init S) := by
  refine ⟨fun i => ?_, ?_, fun i => rfl⟩
  · simp [State.ofNeighbor, State.init, Dispatcher.inHand, NeighborThread.rest]
  · intro d hd
    cases hd

/-- No step changes what came of a neighbour. -/
lemma ofNeighbor_step (h : Step S s s') (k : Fin S.noNeighbors) :
    s'.ofNeighbor k = s.ofNeighbor k := by
  unfold State.ofNeighbor
  cases h with
  | @read i batch rest hthread h =>
      by_cases hk : k = i
      · subst hk
        simp [h, hthread, NeighborThread.rest]
      · simp [Function.update_of_ne hk]
  | @notify i batch hthread hroom =>
      by_cases hk : k = i
      · subst hk
        simp [hthread, NeighborThread.rest]
      · simp [Function.update_of_ne hk]
  | @put i reply rest hthread hroom =>
      by_cases hk : k = i
      · subst hk
        simp [hthread, NeighborThread.rest]
      · simp [Function.update_of_ne hk]
  | take hdispatcher h => simp [hdispatcher, Dispatcher.inHand]
  | @receive i left reply rest hdispatcher h =>
      by_cases hk : k = i
      · subst hk
        simp [hdispatcher, h, Dispatcher.inHand]
      · simp [hdispatcher, Dispatcher.inHand, Function.update_of_ne hk, Ne.symm hk]
  | @forward i left j reply hdispatcher =>
      by_cases hk : k = i
      · subst hk
        simp [hdispatcher, Dispatcher.inHand]
      · simp [hdispatcher, Dispatcher.inHand, Ne.symm hk]
  | endBatch hdispatcher => simp [hdispatcher, Dispatcher.inHand]
  | join => rfl

lemma target_step (hs : ∀ d ∈ s.log, d.joiner = joinerOffsetFromQid d.reply.rbs.qid)
    (h : Step S s s') : ∀ d ∈ s'.log, d.joiner = joinerOffsetFromQid d.reply.rbs.qid := by
  cases h with
  | forward hdispatcher hj =>
      intro d hd
      rcases List.mem_append.mp hd with hd | hd
      · exact hs d hd
      · rw [List.mem_singleton] at hd
        rw [hd]
        exact hj
  | _ => exact hs

/-- A step changes both sides of the count alike. -/
lemma counts_step (h : Step S s s') (k : Fin S.noNeighbors)
    (hs : s.dispatcher.left k + notified k s.joinerDispatcherMQ =
      (s.neighborInMQ k).length + (s.threads k).announced.length) :
    s'.dispatcher.left k + notified k s'.joinerDispatcherMQ =
      (s'.neighborInMQ k).length + (s'.threads k).announced.length := by
  cases h with
  | @read i batch rest hthread h =>
      by_cases hk : k = i
      · subst hk
        simpa [hthread, NeighborThread.announced] using hs
      · simpa [Function.update_of_ne hk] using hs
  | @notify i batch hthread hroom =>
      by_cases hk : k = i
      · subst hk
        simp [hthread, NeighborThread.announced, notified] at hs ⊢
        omega
      · simpa [Function.update_of_ne hk, notified, Ne.symm hk] using hs
  | @put i reply rest hthread hroom =>
      by_cases hk : k = i
      · subst hk
        simp [hthread, NeighborThread.announced] at hs ⊢
        omega
      · simpa [Function.update_of_ne hk] using hs
  | @take i left rest hdispatcher h =>
      by_cases hk : k = i
      · subst hk
        simpa [hdispatcher, h, Dispatcher.left, notified] using hs
      · simpa [hdispatcher, h, Dispatcher.left, notified, Ne.symm hk] using hs
  | @receive i left reply rest hdispatcher h =>
      by_cases hk : k = i
      · subst hk
        simp [hdispatcher, h, Dispatcher.left] at hs ⊢
        omega
      · simpa [hdispatcher, Dispatcher.left, Function.update_of_ne hk, Ne.symm hk] using hs
  | forward hdispatcher => simpa [hdispatcher, Dispatcher.left] using hs
  | endBatch hdispatcher => simpa [hdispatcher, Dispatcher.left] using hs
  | join => exact hs

lemma State.Inv.run (h : Relation.ReflTransGen (Step S) (State.init S) s) : s.Inv S := by
  refine TransitionSystem.invariant_of_step State.Inv.init (fun s s' hs hstep => ?_) h
  exact ⟨fun k => (ofNeighbor_step hstep k).trans (hs.order k), target_step hs.target hstep,
    fun k => counts_step hstep k (hs.counts k)⟩

end Invariant

/-! ## Every run ends -/

section Measure

/-- The steps a thread has before it, where every belief state costs five on its whole way. -/
def NeighborThread.work : NeighborThread bso → ℕ
  | .notifying batch => 5 * batch.length + 3
  | .sending rest => 5 * rest.length

/-- The work in batches not read. -/
def unreadWork (batches : List (List (Reply bso))) : ℕ :=
  (batches.map (fun batch => 5 * batch.length + 4)).sum

/-- The work of the dispatcher on its notification. -/
def Dispatcher.work {n : ℕ} : Dispatcher n bso → ℕ
  | .waiting => 0
  | .receiving _ _ => 1
  | .forwarding _ _ _ => 4

/-- The work left. -/
def State.work (S : System bso) (s : State S.noNeighbors bso) : ℕ :=
  ∑ i, unreadWork (s.unread i) + ∑ i, (s.threads i).work + ∑ i, 4 * (s.neighborInMQ i).length +
    2 * s.joinerDispatcherMQ.length + s.dispatcher.work + ∑ j ∈ S.joiners, (s.joinInMQ j).length

/-- A sum after one of its terms was replaced. -/
lemma sum_update_add {ι α : Type*} [DecidableEq ι] {t : Finset ι} {i : ι} (hi : i ∈ t)
    (w : α → ℕ) (f : ι → α) (a : α) :
    ∑ k ∈ t, w (Function.update f i a k) + w (f i) = ∑ k ∈ t, w (f k) + w a := by
  rw [← Finset.add_sum_erase t _ hi, ← Finset.add_sum_erase t (fun k => w (f k)) hi,
    Function.update_self]
  have hrest : ∑ k ∈ t.erase i, w (Function.update f i a k) = ∑ k ∈ t.erase i, w (f k) := by
    refine Finset.sum_congr rfl (fun k hk => ?_)
    rw [Function.update_of_ne (Finset.ne_of_mem_erase hk)]
  rw [hrest]
  omega

variable {S : System bso} {s s' : State S.noNeighbors bso}

lemma work_step (h : Step S s s') : s'.work S < s.work S := by
  unfold State.work
  cases h with
  | @read i batch rest hthread h =>
      have hunread := sum_update_add (Finset.mem_univ i) unreadWork s.unread rest
      have hthreads := sum_update_add (Finset.mem_univ i) NeighborThread.work s.threads
        (.notifying batch)
      simp only [h, hthread, unreadWork, NeighborThread.work, List.map_cons, List.sum_cons,
        List.length_nil] at hunread hthreads ⊢
      omega
  | @notify i batch hthread hroom =>
      have hthreads := sum_update_add (Finset.mem_univ i) NeighborThread.work s.threads
        (.sending batch)
      simp only [hthread, NeighborThread.work, List.length_append, List.length_singleton]
        at hthreads ⊢
      omega
  | @put i reply rest hthread hroom =>
      have hthreads := sum_update_add (Finset.mem_univ i) NeighborThread.work s.threads
        (.sending rest)
      have hqueue := sum_update_add (Finset.mem_univ i) (fun q => 4 * List.length q)
        s.neighborInMQ (s.neighborInMQ i ++ [reply])
      simp only [hthread, NeighborThread.work, List.length_cons, List.length_append,
        List.length_nil] at hthreads hqueue ⊢
      omega
  | take hdispatcher h =>
      simp only [hdispatcher, h, Dispatcher.work, List.length_cons]
      omega
  | @receive i left reply rest hdispatcher h =>
      have hqueue := sum_update_add (Finset.mem_univ i) (fun q => 4 * List.length q)
        s.neighborInMQ rest
      simp only [hdispatcher, h, Dispatcher.work, List.length_cons] at hqueue ⊢
      omega
  | @forward i left j reply hdispatcher hj hregistered hroom =>
      have hqueue := sum_update_add hregistered List.length s.joinInMQ (s.joinInMQ j ++ [reply])
      simp only [hdispatcher, Dispatcher.work, List.length_append, List.length_singleton]
        at hqueue ⊢
      omega
  | endBatch hdispatcher =>
      simp only [hdispatcher, Dispatcher.work]
      omega
  | @join j reply rest hregistered h =>
      have hqueue := sum_update_add hregistered List.length s.joinInMQ rest
      simp only [h, List.length_cons] at hqueue ⊢
      omega

end Measure

/-! ## What is delivered -/

section Delivery

variable {S : System bso} {s : State S.noNeighbors bso}

/-- All answers are for requests whose joiner offset is read back. -/
def System.Fits (S : System bso) : Prop :=
  ∀ i, ∀ batch ∈ S.batches i, ∀ reply ∈ batch, reply.ask.Fits

/-- A dispatcher that cannot move waits for a notification. -/
lemma waiting_of_stuck (hfits : S.Fits) (hs : s.Inv S) (hstuck : ∀ s', ¬ Step S s s') :
    s.dispatcher = .waiting := by
  cases hd : s.dispatcher with
  | waiting => rfl
  | receiving i left =>
      exfalso
      cases left with
      | zero => exact hstuck _ (.endBatch hd)
      | succ left =>
          cases hq : s.neighborInMQ i with
          | cons reply rest => exact hstuck _ (.receive hd hq)
          | nil =>
              have hcount := hs.counts i
              rw [hd, hq, Dispatcher.left, if_pos rfl, List.length_nil] at hcount
              cases ht : s.threads i with
              | notifying batch =>
                  rw [ht, NeighborThread.announced, List.length_nil] at hcount
                  omega
              | sending rest =>
                  rw [ht, NeighborThread.announced] at hcount
                  cases rest with
                  | nil =>
                      rw [List.length_nil] at hcount
                      omega
                  | cons reply rest =>
                      refine hstuck _ (.put ht ?_)
                      rw [hq]
                      exact S.queueSize_pos
  | forwarding i left reply =>
      exfalso
      -- the belief state in hand is one of those read
      have hmem : reply ∈ (S.batches i).flatten := by
        rw [← hs.order i]
        simp [State.ofNeighbor, hd, Dispatcher.inHand]
      obtain ⟨batch, hbatch, hreply⟩ := List.mem_flatten.mp hmem
      have hj : reply.ask.joinerOffset = joinerOffsetFromQid reply.rbs.qid := by
        rw [reply.qid_eq]
        exact ((joinerOffset_iff reply.ask).mpr (hfits i batch hbatch reply hreply)).symm
      have hregistered := S.joinerOffset_mem i batch hbatch reply hreply
      cases hq : s.joinInMQ reply.ask.joinerOffset with
      | cons first rest => exact hstuck _ (.join hregistered hq)
      | nil =>
          refine hstuck _ (.forward hd hj hregistered ?_)
          rw [hq]
          exact S.queueSize_pos

/-- Where nothing can move, nothing is under way. -/
lemma log_of_stuck (hfits : S.Fits) (hs : s.Inv S) (hstuck : ∀ s', ¬ Step S s s')
    (i : Fin S.noNeighbors) :
    (s.log.filter (fun d => d.neighbor = i)).map Delivery.reply = (S.batches i).flatten := by
  have hd := waiting_of_stuck hfits hs hstuck
  have hnotifications : s.joinerDispatcherMQ = [] := by
    cases hq : s.joinerDispatcherMQ with
    | nil => rfl
    | cons nji rest => exact absurd (Step.take hd hq) (hstuck _)
  have hcount := hs.counts i
  rw [hd, hnotifications, Dispatcher.left, notified, List.filter_nil, List.map_nil,
    List.sum_nil] at hcount
  have hqueue : s.neighborInMQ i = [] := List.eq_nil_of_length_eq_zero (by omega)
  have hthread : s.threads i = .sending [] := by
    cases ht : s.threads i with
    | notifying batch =>
        refine absurd (Step.notify ht ?_) (hstuck _)
        rw [hnotifications]
        exact S.queueSize_pos
    | sending rest =>
        rw [ht, NeighborThread.announced] at hcount
        rw [List.eq_nil_of_length_eq_zero (l := rest) (by omega)]
  have hunread : s.unread i = [] := by
    cases hu : s.unread i with
    | nil => rfl
    | cons batch rest => exact absurd (Step.read hthread hu) (hstuck _)
  have horder := hs.order i
  unfold State.ofNeighbor at horder
  rw [hd, hqueue, hthread, hunread] at horder
  simpa [Dispatcher.inHand, NeighborThread.rest] using horder

/-- What a joiner was sent of a neighbour, from what was sent of this neighbour at all. -/
lemma delivered_eq (hfits : S.Fits) (hs : s.Inv S) (i : Fin S.noNeighbors) (j : ℕ) :
    s.delivered i j = ((s.log.filter (fun d => d.neighbor = i)).map Delivery.reply).filter
      (fun reply => reply.ask.joinerOffset = j) := by
  rw [State.delivered, List.filter_map, List.filter_filter]
  refine congrArg (List.map Delivery.reply) (List.filter_congr (fun d hd => ?_))
  by_cases hi : d.neighbor = i
  · have hmem : d.reply ∈ (S.batches i).flatten := by
      rw [← hs.order i]
      unfold State.ofNeighbor
      have hlog : d.reply ∈ (s.log.filter (fun d => d.neighbor = i)).map Delivery.reply :=
        List.mem_map_of_mem (List.mem_filter.mpr ⟨hd, decide_eq_true hi⟩)
      exact List.mem_append_left _ (List.mem_append_left _ (List.mem_append_left _
        (List.mem_append_left _ hlog)))
    obtain ⟨batch, hbatch, hreply⟩ := List.mem_flatten.mp hmem
    have hj := (joinerOffset_iff d.reply.ask).mpr (hfits i batch hbatch d.reply hreply)
    rw [← d.reply.qid_eq, ← hs.target d hd] at hj
    simp [hi, hj]
  · simp [hi]

lemma delivers_of_fits (hfits : S.Fits) : S.Delivers := by
  refine ⟨fun s hrun i j => ?_, fun s hrun hstuck i j => ?_, fun run _ => ?_⟩
  · have hs := State.Inv.run hrun
    rw [delivered_eq hfits hs, System.answers, ← hs.order i]
    apply List.IsPrefix.filter
    simp only [State.ofNeighbor, List.append_assoc]
    exact List.prefix_append _ _
  · have hs := State.Inv.run hrun
    rw [delivered_eq hfits hs, log_of_stuck hfits hs hstuck, System.answers]
  · exact TransitionSystem.not_infinite_of_measure (State.work S)
      (fun _ _ => work_step) run

/-- An answer that is delivered to the joiner that asked was sent where its query id says. -/
lemma fits_of_delivers (h : S.Delivers) : S.Fits := by
  intro i batch hbatch reply hreply
  obtain ⟨s, hrun, hstuck⟩ := TransitionSystem.exists_stuck_of_measure (State.work S)
    (fun _ _ => work_step) (State.init S)
  have hs := State.Inv.run hrun
  have hmem : reply ∈ s.delivered i reply.ask.joinerOffset := by
    rw [h.complete s hrun hstuck, System.answers]
    exact List.mem_filter.mpr ⟨List.mem_flatten.mpr ⟨batch, hbatch, hreply⟩, decide_eq_true rfl⟩
  obtain ⟨d, hd, rfl⟩ := List.mem_map.mp hmem
  obtain ⟨hlog, hto⟩ := List.mem_filter.mp hd
  have htarget := hs.target d hlog
  rw [(of_decide_eq_true hto).2, d.reply.qid_eq] at htarget
  exact (joinerOffset_iff d.reply.ask).mp htarget.symm

end Delivery

/-- Answers reach the joiners that asked, each exactly once and in order, in every interleaving,
exactly if the offset of each asking joiner is read back from its query ids. -/
lemma delivers_iff_fits (S : System bso) : S.Delivers ↔ S.Fits :=
  ⟨fits_of_delivers, delivers_of_fits⟩

/-- A query order of 24 bits leaves the joiner field alone. -/
lemma fits_iff_of_queryOrder_lt {ask : Ask} (horder : ask.queryOrder < 2 ^ 24) :
    ask.Fits ↔ ask.joinerOffset < 2 ^ 6 := by
  refine ⟨fun h => h.1, fun h => ⟨h, fun k _ hbit => ?_⟩⟩
  have hlow : ask.queryOrder.testBit (24 + k) = false :=
    Nat.testBit_lt_two_pow (lt_of_lt_of_le horder (Nat.pow_le_pow_right (by omega) (by omega)))
  rw [hlow] at hbit
  cases hbit

/-- With query orders of 24 bits, answers reach the joiners that asked, each exactly once and in
order, in every interleaving, exactly if the offsets of these joiners have six bits.  An answer to
the joiner at offset 64 is sent to the one at offset 0. -/
theorem delivers_iff_offsets_lt (S : System bso)
    (horder : ∀ i, ∀ batch ∈ S.batches i, ∀ reply ∈ batch, reply.ask.queryOrder < 2 ^ 24) :
    S.Delivers ↔
      ∀ i, ∀ batch ∈ S.batches i, ∀ reply ∈ batch, reply.ask.joinerOffset < 2 ^ 6 := by
  rw [delivers_iff_fits]
  refine forall_congr' fun i => forall₄_congr fun batch hbatch reply hreply => ?_
  exact fits_iff_of_queryOrder_lt (horder i batch hbatch reply hreply)

/-- The first query of context `5`, which is joined with offset `0`, to its neighbour `i`. -/
def firstJoinerAsks (i : ℕ) : Ask := ⟨5, 1, i, i, 0⟩

/-- The last query of context `6`, which is joined with offset `63`, to its neighbour `i`. -/
def lastJoinerAsks (i : ℕ) : Ask := ⟨6, 2 ^ 24 - 1, i, i, 63⟩

/-- The answer `bs` to a request. -/
def replyTo (ask : Ask) (bs : Option (NewBeliefState bso.width)) : Reply bso :=
  ⟨⟨bs, ask.qid⟩, ask, rfl⟩

/-- The batches of neighbour `i`, the first of which has answers to both joiners. -/
def mixedBatches (bso : BeliefStateOffset) (i : ℕ) : List (List (Reply bso)) :=
  [[replyTo (firstJoinerAsks i) (some (NewBeliefState.empty _)), replyTo (lastJoinerAsks i) none],
    [replyTo (firstJoinerAsks i) none]]

lemma ask_of_mem_mixedBatches {i : ℕ} {batch : List (Reply bso)}
    (hbatch : batch ∈ mixedBatches bso i) {reply : Reply bso} (hreply : reply ∈ batch) :
    reply.ask = firstJoinerAsks i ∨ reply.ask = lastJoinerAsks i := by
  have hmem := List.mem_flatten.2 ⟨batch, hbatch, hreply⟩
  unfold mixedBatches at hmem
  simp only [List.flatten_cons, List.flatten_nil, List.append_nil, List.cons_append,
    List.nil_append, List.mem_cons, List.not_mem_nil, or_false] at hmem
  rcases hmem with rfl | rfl | rfl
  · exact Or.inl rfl
  · exact Or.inr rfl
  · exact Or.inl rfl

/-- Two neighbours answer the two joiners. -/
def twoJoiners (bso : BeliefStateOffset) : System bso where
  queueSize := 1
  queueSize_pos := Nat.one_pos
  noNeighbors := 2
  joiners := {0, 63}
  batches i := mixedBatches bso i
  joinerOffset_mem i batch hbatch reply hreply := by
    rcases ask_of_mem_mixedBatches hbatch hreply with hask | hask
    · rw [hask]
      exact Finset.mem_insert_self 0 {63}
    · rw [hask]
      exact Finset.mem_insert_of_mem (Finset.mem_singleton_self 63)

/-- The first and the last joiner that an id can name get their answers. -/
theorem delivers_iff_offsets_lt_twoJoiners : (twoJoiners (.ofSucc 0 1)).Delivers := by
  apply (delivers_iff_offsets_lt (twoJoiners (.ofSucc 0 1)) ?_).2
  · intro i batch hbatch reply hreply
    rcases ask_of_mem_mixedBatches hbatch hreply with hask | hask
    · rw [hask]
      norm_num [firstJoinerAsks]
    · rw [hask]
      norm_num [lastJoinerAsks]
  · intro i batch hbatch reply hreply
    rcases ask_of_mem_mixedBatches hbatch hreply with hask | hask
    · rw [hask]
      norm_num [firstJoinerAsks]
    · rw [hask]
      norm_num [lastJoinerAsks]

/-- The end marker for the first query of context `64`, whose joiner has offset `64`. -/
def lastJoiner : Ask := ⟨64, 1, 0, 0, 64⟩

/-- A server with `65` joiners and one neighbour, which answers the last joiner. -/
def manyJoiners (bso : BeliefStateOffset) : System bso where
  queueSize := 1
  queueSize_pos := Nat.one_pos
  noNeighbors := 1
  joiners := Finset.range 65
  batches _ := [[⟨⟨none, lastJoiner.qid⟩, lastJoiner, rfl⟩]]
  joinerOffset_mem i batch hbatch reply hreply := by
    rw [List.mem_singleton] at hbatch
    subst hbatch
    rw [List.mem_singleton] at hreply
    subst hreply
    exact Finset.mem_range.mpr (Nat.lt_succ_self 64)

/-- The answer does not reach the last joiner: its offset does not fit into six bits. -/
theorem manyJoiners_not_delivered : ¬ (manyJoiners (.ofSucc 0 1)).Delivers := by
  intro h
  have hfits := fits_of_delivers h (0 : Fin 1) _ (List.mem_singleton.mpr rfl) _
    (List.mem_singleton.mpr rfl)
  exact absurd hfits.1 (show ¬ 64 < 2 ^ 6 by decide)

end NewJoinerDispatcher

end Dmcs
