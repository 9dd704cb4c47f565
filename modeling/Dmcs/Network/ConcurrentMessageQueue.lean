import Mathlib.Data.List.Perm.Basic
import Mathlib.Data.Option.Basic
import Dmcs.Lib.TransitionSystem

/-!
# The bounded message queue (`ConcurrentMessageQueue`)

A queue of at most `n` blocks guarded by one mutex and one condition variable.  The code between
taking the lock, `cnd.wait` and releasing the lock runs as one step.  A thread that has to wait
joins `waiting`; `notify_one` moves an arbitrary waiting thread to `woken`, from where it resumes
with the test of its `while` loop.  Which thread is woken is part of the action.

Capacity and order hold in all runs.  That no wake-up is lost does not: senders and receivers wait
on the same condition variable, so that the notification meant for a receiver may wake a sender
which finds the queue full and goes back to sleep.  `WakesIntended` is the condition under which
this does not happen.

## Three statements

* **Capacity.**  Under the mutex a block is pushed only where there is room, and a thread that comes
  back from `cnd.wait` tests again.
* **Order.**  `pushed` and `received` record what went in and what came out; the blocks in the queue
  are those that were pushed and not yet received, in their order (`InOrder`).
* **Wake-ups.**  `enq` and `deq` count the threads inside a blocking call.  `Balanced` is the
  invariant under `WakesIntended`: while a receiver sleeps every block has a receiver that was woken
  for it, and while a sender sleeps every free place a sender.

The first two hold in all runs.  The third one needs that `notify_one` picks a thread of the side
the notification is for, which one condition variable for both does not provide: in `lostRun`, with
capacity one, a sender is woken for a block, and the receiver sleeps on.
-/

namespace Dmcs

namespace ConcurrentMessageQueue

variable {β : Type*}

/-- What a thread inside a blocking call wants. -/
inductive Call (β : Type*) where
  | send (block : β)
  | receive
  deriving DecidableEq

/-- A thread that sleeps in `cnd.wait` or has been woken there. -/
structure Waiter (β : Type*) where
  thread : ℕ
  call : Call β
  deriving DecidableEq

/-- The two kinds of waiting threads. -/
inductive Kind where
  | sender
  | receiver
  deriving DecidableEq

/-- The kind of a waiting thread. -/
def Waiter.kind (w : Waiter β) : Kind :=
  match w.call with
  | .send _ => .sender
  | .receive => .receiver

/-- The queue, its two counters, the threads asleep un-notified and those notified but not running
yet, and the blocks pushed and received so far. -/
structure Monitor (β : Type*) where
  q : List β
  enq : ℕ
  deq : ℕ
  waiting : List (Waiter β)
  woken : List (Waiter β)
  pushed : List β
  received : List β

/-- A new queue. -/
def Monitor.init : Monitor β := ⟨[], 0, 0, [], [], [], []⟩

namespace Monitor

/-- `pushBlock`. -/
def pushBlock (s : Monitor β) (b : β) : Monitor β :=
  { s with q := s.q ++ [b], pushed := s.pushed ++ [b] }

/-- `popBlock` on a non-empty queue. -/
def popBlock (s : Monitor β) : Monitor β :=
  { s with q := s.q.tail, received := s.received ++ s.q.head?.toList }

/-- `notify_one`: the waiting thread number `i` is woken; without waiting threads nothing
happens. -/
def notifyOne (s : Monitor β) (i : ℕ) : Option (Monitor β) :=
  if s.waiting = [] then some s
  else (s.waiting[i]?).map (fun w =>
    { s with waiting := s.waiting.eraseIdx i, woken := s.woken ++ [w] })

/-- `notifyConsumer`. -/
def notifyConsumer (s : Monitor β) (i : ℕ) : Option (Monitor β) :=
  if 0 < s.deq then s.notifyOne i else some s

/-- `notifyProducer`. -/
def notifyProducer (s : Monitor β) (i : ℕ) : Option (Monitor β) :=
  if 0 < s.enq then s.notifyOne i else some s

/-- `send` from the test in `waitOnCapacity` on: sleep, or notify and push. -/
def sendSection (n : ℕ) (s : Monitor β) (t : ℕ) (b : β) (i : ℕ) : Option (Monitor β) :=
  if n = s.q.length then some { s with enq := s.enq + 1, waiting := s.waiting ++ [⟨t, .send b⟩] }
  else (s.notifyConsumer i).map (fun s => s.pushBlock b)

/-- `receive` from the test in `waitOnEmpty` on: sleep, or notify and pop. -/
def receiveSection (s : Monitor β) (t : ℕ) (i : ℕ) : Option (Monitor β) :=
  if s.q = [] then some { s with deq := s.deq + 1, waiting := s.waiting ++ [⟨t, .receive⟩] }
  else (s.notifyProducer i).map popBlock

/-- `try_send`. -/
def trySend (n : ℕ) (s : Monitor β) (b : β) (i : ℕ) : Option (Monitor β) :=
  if s.q.length < n then (s.pushBlock b).notifyConsumer i else some s

/-- `try_receive`. -/
def tryReceive (s : Monitor β) (i : ℕ) : Option (Monitor β) :=
  if s.q ≠ [] then s.popBlock.notifyProducer i else some s

/-- The woken thread `w` takes the lock: it leaves `cnd.wait` and decrements its counter. -/
def resume (s : Monitor β) (j : ℕ) (w : Waiter β) : Monitor β :=
  match w.call with
  | .send _ => { s with woken := s.woken.eraseIdx j, enq := s.enq - 1 }
  | .receive => { s with woken := s.woken.eraseIdx j, deq := s.deq - 1 }

/-- The thread is inside `send` or `receive`. -/
def Inside (s : Monitor β) (t : ℕ) : Prop := t ∈ (s.waiting ++ s.woken).map Waiter.thread

instance (s : Monitor β) (t : ℕ) : Decidable (s.Inside t) := inferInstanceAs (Decidable (_ ∈ _))

end Monitor

open Monitor

/-- A call by thread `t`, or the resumption of the woken thread number `j`; `i` is the number of
the waiting thread that is woken should the step notify. -/
inductive Action (β : Type*) where
  | send (t : ℕ) (b : β) (i : ℕ)
  | receive (t : ℕ) (i : ℕ)
  | trySend (t : ℕ) (b : β) (i : ℕ)
  | tryReceive (t : ℕ) (i : ℕ)
  | resume (j : ℕ) (i : ℕ)

/-- One atomic step of a queue with capacity `n`. -/
def step (n : ℕ) (s : Monitor β) : Action β → Option (Monitor β)
  | .send t b i => if s.Inside t then none else s.sendSection n t b i
  | .receive t i => if s.Inside t then none else s.receiveSection t i
  | .trySend t b i => if s.Inside t then none else s.trySend n b i
  | .tryReceive t i => if s.Inside t then none else s.tryReceive i
  | .resume j i =>
      match s.woken[j]? with
      | none => none
      | some w =>
          match w.call with
          | .send b => (s.resume j w).sendSection n w.thread b i
          | .receive => (s.resume j w).receiveSection w.thread i

/-- The thread woken is of the given kind, if a thread of that kind is waiting. -/
def WakesKind (kind : Kind) (s : Monitor β) (i : ℕ) : Prop :=
  (∃ w ∈ s.waiting, w.kind = kind) → ∃ w, s.waiting[i]? = some w ∧ w.kind = kind

/-- A step that pushes wakes a receiver if one is waiting, and a step that pops a sender. -/
def WakesIntended (n : ℕ) (s : Monitor β) : Action β → Prop
  | .send _ _ i => s.q.length < n → WakesKind .receiver s i
  | .trySend _ _ i => s.q.length < n → WakesKind .receiver s i
  | .receive _ i => s.q ≠ [] → WakesKind .sender s i
  | .tryReceive _ i => s.q ≠ [] → WakesKind .sender s i
  | .resume j i => ∀ w, s.woken[j]? = some w →
      match w.call with
      | .send _ => s.q.length < n → WakesKind .receiver s i
      | .receive => s.q ≠ [] → WakesKind .sender s i

/-- Every thread inside a blocking call sleeps un-notified, although one of them could proceed. -/
def LostWakeup (n : ℕ) (s : Monitor β) : Prop :=
  s.woken = [] ∧
    ((∃ w ∈ s.waiting, w.kind = .receiver ∧ s.q ≠ []) ∨
      (∃ w ∈ s.waiting, w.kind = .sender ∧ s.q.length < n))

/-! ## Capacity and order -/

/-- The queue is within its capacity, and the blocks pushed are those received, in order, followed
by those still queued. -/
structure InOrder (n : ℕ) (s : Monitor β) : Prop where
  capacity : s.q.length ≤ n
  fifo : s.pushed = s.received ++ s.q

section Steps

variable {n i j t : ℕ} {b : β} {s s' : Monitor β}

/-- Everything `notify_one` can do. -/
lemma notifyOne_cases (h : s.notifyOne i = some s') :
    (s.waiting = [] ∧ s' = s) ∨
      ∃ w, s.waiting[i]? = some w ∧
        s' = { s with waiting := s.waiting.eraseIdx i, woken := s.woken ++ [w] } := by
  rw [notifyOne] at h
  split at h
  · rename_i hempty
    exact Or.inl ⟨hempty, (Option.some_injective _ h).symm⟩
  · obtain ⟨w, hw, rfl⟩ := Option.map_eq_some_iff.mp h
    exact Or.inr ⟨w, hw, rfl⟩

lemma InOrder.notifyOne (hs : InOrder n s) (h : s.notifyOne i = some s') : InOrder n s' := by
  rcases notifyOne_cases h with ⟨-, rfl⟩ | ⟨w, -, rfl⟩
  · exact hs
  · exact ⟨hs.capacity, hs.fifo⟩

lemma InOrder.notifyConsumer (hs : InOrder n s) (h : s.notifyConsumer i = some s') :
    InOrder n s' := by
  rw [Monitor.notifyConsumer] at h
  split at h
  · exact hs.notifyOne h
  · exact Option.some_injective _ h ▸ hs

lemma InOrder.notifyProducer (hs : InOrder n s) (h : s.notifyProducer i = some s') :
    InOrder n s' := by
  rw [Monitor.notifyProducer] at h
  split at h
  · exact hs.notifyOne h
  · exact Option.some_injective _ h ▸ hs

lemma InOrder.pushBlock (hs : InOrder n s) (hlt : s.q.length < n) : InOrder n (s.pushBlock b) := by
  refine ⟨?_, ?_⟩
  · simp only [Monitor.pushBlock, List.length_append, List.length_singleton]
    omega
  · simp [Monitor.pushBlock, hs.fifo]

lemma InOrder.popBlock (hs : InOrder n s) (hne : s.q ≠ []) : InOrder n s.popBlock := by
  obtain ⟨x, l, hq⟩ := List.exists_cons_of_ne_nil hne
  have hcap := hs.capacity
  have hfifo := hs.fifo
  rw [hq] at hcap hfifo
  rw [List.length_cons] at hcap
  refine ⟨?_, ?_⟩
  · simp only [Monitor.popBlock, hq, List.tail_cons]
    omega
  · simp [Monitor.popBlock, hq, hfifo]

/-- A notification sees neither the queue nor what a push changes. -/
lemma notifyConsumer_pushBlock :
    (s.pushBlock b).notifyConsumer i = (s.notifyConsumer i).map (fun s => s.pushBlock b) := by
  by_cases hdeq : 0 < s.deq
  · by_cases hempty : s.waiting = []
    · simp [Monitor.notifyConsumer, Monitor.notifyOne, Monitor.pushBlock, hdeq, hempty]
    · simp [Monitor.notifyConsumer, Monitor.notifyOne, Monitor.pushBlock, hdeq, hempty,
        Function.comp_def]
  · simp [Monitor.notifyConsumer, Monitor.pushBlock, hdeq]

lemma notifyProducer_popBlock :
    s.popBlock.notifyProducer i = (s.notifyProducer i).map Monitor.popBlock := by
  by_cases henq : 0 < s.enq
  · by_cases hempty : s.waiting = []
    · simp [Monitor.notifyProducer, Monitor.notifyOne, Monitor.popBlock, henq, hempty]
    · simp [Monitor.notifyProducer, Monitor.notifyOne, Monitor.popBlock, henq, hempty,
        Function.comp_def]
  · simp [Monitor.notifyProducer, Monitor.popBlock, henq]

lemma notifyConsumer_q (h : s.notifyConsumer i = some s') : s'.q = s.q := by
  rw [Monitor.notifyConsumer] at h
  split at h
  · rcases notifyOne_cases h with ⟨-, rfl⟩ | ⟨w, -, rfl⟩ <;> rfl
  · rw [Option.some_injective _ h]

lemma notifyProducer_q (h : s.notifyProducer i = some s') : s'.q = s.q := by
  rw [Monitor.notifyProducer] at h
  split at h
  · rcases notifyOne_cases h with ⟨-, rfl⟩ | ⟨w, -, rfl⟩ <;> rfl
  · rw [Option.some_injective _ h]

lemma InOrder.sendSection (hs : InOrder n s) (h : s.sendSection n t b i = some s') :
    InOrder n s' := by
  rw [Monitor.sendSection] at h
  split at h
  · rw [← Option.some_injective _ h]
    exact ⟨hs.capacity, hs.fifo⟩
  · rename_i hne
    obtain ⟨s₁, h₁, rfl⟩ := Option.map_eq_some_iff.mp h
    have hcap := hs.capacity
    exact (hs.notifyConsumer h₁).pushBlock (by rw [notifyConsumer_q h₁]; omega)

lemma InOrder.receiveSection (hs : InOrder n s) (h : s.receiveSection t i = some s') :
    InOrder n s' := by
  rw [Monitor.receiveSection] at h
  split at h
  · rw [← Option.some_injective _ h]
    exact ⟨hs.capacity, hs.fifo⟩
  · rename_i hne
    obtain ⟨s₁, h₁, rfl⟩ := Option.map_eq_some_iff.mp h
    exact (hs.notifyProducer h₁).popBlock (by rw [notifyProducer_q h₁]; exact hne)

lemma InOrder.resume (hs : InOrder n s) (w : Waiter β) : InOrder n (s.resume j w) := by
  rw [Monitor.resume]
  split <;> exact ⟨hs.capacity, hs.fifo⟩

/-- Every step keeps capacity and order. -/
lemma InOrder.step {a : Action β} (hs : InOrder n s) (h : step n s a = some s') :
    InOrder n s' := by
  cases a with
  | send t b i =>
      rw [ConcurrentMessageQueue.step] at h
      split at h
      · simp at h
      · exact hs.sendSection h
  | receive t i =>
      rw [ConcurrentMessageQueue.step] at h
      split at h
      · simp at h
      · exact hs.receiveSection h
  | trySend t b i =>
      rw [ConcurrentMessageQueue.step, Monitor.trySend] at h
      split at h
      · simp at h
      · split at h
        · rename_i hlt
          exact (hs.pushBlock hlt).notifyConsumer h
        · exact Option.some_injective _ h ▸ hs
  | tryReceive t i =>
      rw [ConcurrentMessageQueue.step, Monitor.tryReceive] at h
      split at h
      · simp at h
      · split at h
        · rename_i hne
          exact (hs.popBlock hne).notifyProducer h
        · exact Option.some_injective _ h ▸ hs
  | resume j i =>
      rw [ConcurrentMessageQueue.step] at h
      split at h
      · simp at h
      · split at h
        · exact (hs.resume _).sendSection h
        · exact (hs.resume _).receiveSection h

/-! ## Wake-ups -/

/-- The number of threads of a kind in a list. -/
def count (kind : Kind) (l : List (Waiter β)) : ℕ := l.countP (fun w => w.kind = kind)

/-- The counters count the threads inside; while a receiver sleeps, every queued block has its
woken receiver, up to `a`; while a sender sleeps, every free place has its woken sender, up to
`b`. -/
structure Balanced (n : ℕ) (s : Monitor β) (a b : ℕ) : Prop where
  enq_eq : s.enq = count .sender s.waiting + count .sender s.woken
  deq_eq : s.deq = count .receiver s.waiting + count .receiver s.woken
  receivers : 0 < count .receiver s.waiting → s.q.length ≤ count .receiver s.woken + a
  senders : 0 < count .sender s.waiting → n ≤ s.q.length + count .sender s.woken + b

lemma count_append (kind : Kind) (l l' : List (Waiter β)) :
    count kind (l ++ l') = count kind l + count kind l' := List.countP_append ..

lemma count_singleton (kind : Kind) (w : Waiter β) :
    count kind [w] = if w.kind = kind then 1 else 0 := by
  simp [count, List.countP_cons]

lemma count_eraseIdx {l : List (Waiter β)} {w : Waiter β} (h : l[i]? = some w) (kind : Kind) :
    count kind l = count kind (l.eraseIdx i) + if w.kind = kind then 1 else 0 := by
  obtain ⟨hi, rfl⟩ := List.getElem?_eq_some_iff.mp h
  have hperm := List.getElem_cons_eraseIdx_perm hi
  have hcount := hperm.countP_eq (fun w : Waiter β => w.kind = kind)
  rw [List.countP_cons] at hcount
  rw [count, count, ← hcount]
  simp

lemma count_pos_iff {kind : Kind} {l : List (Waiter β)} :
    0 < count kind l ↔ ∃ w ∈ l, w.kind = kind := by
  simp [count, List.countP_pos_iff]

/-- What a notification that wakes the intended kind does to the numbers of threads. -/
structure NotifyEffect (kind : Kind) (s s' : Monitor β) : Prop where
  q : s'.q = s.q
  enq : s'.enq = s.enq
  deq : s'.deq = s.deq
  total : ∀ k, count k s'.waiting + count k s'.woken = count k s.waiting + count k s.woken
  waiting_le : ∀ k, count k s'.waiting ≤ count k s.waiting
  wakes : 0 < count kind s.waiting → count kind s'.woken = count kind s.woken + 1

lemma notifyOne_effect {kind : Kind} (hk : WakesKind kind s i) (h : s.notifyOne i = some s') :
    NotifyEffect kind s s' := by
  rcases notifyOne_cases h with ⟨hempty, rfl⟩ | ⟨w, hw, rfl⟩
  · exact ⟨rfl, rfl, rfl, fun _ => rfl, fun _ => Nat.le_refl _, by simp [hempty, count]⟩
  · refine ⟨rfl, rfl, rfl, fun k => ?_, fun k => ?_, fun hpos => ?_⟩
    · simp only [count_append, count_singleton, count_eraseIdx hw k]
      omega
    · simp only [count_eraseIdx hw k]
      omega
    · obtain ⟨w', hw', hkind⟩ := hk (count_pos_iff.mp hpos)
      obtain rfl : w = w' := Option.some_injective _ (hw.symm.trans hw')
      simp only [count_append, count_singleton, if_pos hkind]

lemma notifyConsumer_effect {c d : ℕ} (hs : Balanced n s c d) (hk : WakesKind .receiver s i)
    (h : s.notifyConsumer i = some s') : NotifyEffect .receiver s s' := by
  rw [Monitor.notifyConsumer] at h
  split at h
  · exact notifyOne_effect hk h
  · rename_i hdeq
    have := hs.deq_eq
    obtain rfl := Option.some_injective _ h
    exact ⟨rfl, rfl, rfl, fun _ => rfl, fun _ => Nat.le_refl _, fun hpos => by omega⟩

lemma notifyProducer_effect {c d : ℕ} (hs : Balanced n s c d) (hk : WakesKind .sender s i)
    (h : s.notifyProducer i = some s') : NotifyEffect .sender s s' := by
  rw [Monitor.notifyProducer] at h
  split at h
  · exact notifyOne_effect hk h
  · rename_i henq
    have := hs.enq_eq
    obtain rfl := Option.some_injective _ h
    exact ⟨rfl, rfl, rfl, fun _ => rfl, fun _ => Nat.le_refl _, fun hpos => by omega⟩

/-- A push after a notification that wakes a receiver if there is one. -/
lemma Balanced.pushed (hs : Balanced n s 0 1) {s₁ : Monitor β}
    (he : NotifyEffect .receiver s s₁) : Balanced n (s₁.pushBlock b) 0 0 := by
  have h1 := he.total .sender
  have h2 := he.total .receiver
  have h3 := he.waiting_le .sender
  have h4 := he.waiting_le .receiver
  have hwakes := he.wakes
  have hr := hs.receivers
  have hsnd := hs.senders
  refine ⟨?_, ?_, ?_, ?_⟩ <;>
    simp only [Monitor.pushBlock, he.enq, he.deq, he.q, hs.enq_eq, hs.deq_eq, List.length_append,
      List.length_singleton] <;> omega

/-- A pop after a notification that wakes a sender if there is one. -/
lemma Balanced.popped (hs : Balanced n s 1 0) (hne : s.q ≠ []) {s₁ : Monitor β}
    (he : NotifyEffect .sender s s₁) : Balanced n s₁.popBlock 0 0 := by
  have h1 := he.total .sender
  have h2 := he.total .receiver
  have h3 := he.waiting_le .sender
  have h4 := he.waiting_le .receiver
  have hwakes := he.wakes
  have hr := hs.receivers
  have hsnd := hs.senders
  have hlen := List.length_pos_iff.mpr hne
  refine ⟨?_, ?_, ?_, ?_⟩ <;>
    simp only [Monitor.popBlock, he.enq, he.deq, he.q, hs.enq_eq, hs.deq_eq,
      List.length_tail] <;> omega

lemma Balanced.sendSection (hs : Balanced n s 0 1) (hcap : s.q.length ≤ n)
    (hk : s.q.length < n → WakesKind .receiver s i) (h : s.sendSection n t b i = some s') :
    Balanced n s' 0 0 := by
  rw [Monitor.sendSection] at h
  split at h
  · rename_i hfull
    obtain rfl := Option.some_injective _ h
    have hr := hs.receivers
    refine ⟨?_, ?_, ?_, ?_⟩ <;>
      simp only [count_append, count_singleton, Waiter.kind, hs.enq_eq, hs.deq_eq, if_true,
        reduceCtorEq, if_false] <;> omega
  · rename_i hne
    obtain ⟨s₁, h₁, rfl⟩ := Option.map_eq_some_iff.mp h
    exact hs.pushed (notifyConsumer_effect hs (hk (by omega)) h₁)

lemma Balanced.receiveSection (hs : Balanced n s 1 0)
    (hk : s.q ≠ [] → WakesKind .sender s i) (h : s.receiveSection t i = some s') :
    Balanced n s' 0 0 := by
  rw [Monitor.receiveSection] at h
  split at h
  · rename_i hempty
    obtain rfl := Option.some_injective _ h
    have hsnd := hs.senders
    have hlen : s.q.length = 0 := by rw [hempty]; rfl
    refine ⟨?_, ?_, ?_, ?_⟩ <;>
      simp only [count_append, count_singleton, Waiter.kind, hs.enq_eq, hs.deq_eq, if_true,
        reduceCtorEq, if_false] <;> omega
  · rename_i hne
    obtain ⟨s₁, h₁, rfl⟩ := Option.map_eq_some_iff.mp h
    exact hs.popped hne (notifyProducer_effect hs (hk hne) h₁)

lemma Balanced.mono {a b a' b' : ℕ} (hs : Balanced n s a b) (ha : a ≤ a') (hb : b ≤ b') :
    Balanced n s a' b' :=
  { hs with
    receivers := fun h => by have := hs.receivers h; omega
    senders := fun h => by have := hs.senders h; omega }

/-- A thread that resumes no longer counts as woken. -/
lemma Balanced.resume (hs : Balanced n s 0 0) {w : Waiter β} (hw : s.woken[j]? = some w) :
    (∀ b, w.call = .send b → Balanced n (s.resume j w) 0 1) ∧
      (w.call = .receive → Balanced n (s.resume j w) 1 0) := by
  have h1 := count_eraseIdx hw .sender
  have h2 := count_eraseIdx hw .receiver
  have henq := hs.enq_eq
  have hdeq := hs.deq_eq
  have hr := hs.receivers
  have hsnd := hs.senders
  constructor
  · intro b hcall
    simp only [Waiter.kind, hcall, if_true, reduceCtorEq, if_false] at h1 h2
    refine ⟨?_, ?_, ?_, ?_⟩ <;> simp only [Monitor.resume, hcall] <;> omega
  · intro hcall
    simp only [Waiter.kind, hcall, if_true, reduceCtorEq, if_false] at h1 h2
    refine ⟨?_, ?_, ?_, ?_⟩ <;> simp only [Monitor.resume, hcall] <;> omega

/-- Every step that wakes the intended kind keeps the balance. -/
lemma Balanced.step {a : Action β} (hs : Balanced n s 0 0) (hcap : s.q.length ≤ n)
    (hk : WakesIntended n s a) (h : step n s a = some s') : Balanced n s' 0 0 := by
  cases a with
  | send t b i =>
      rw [ConcurrentMessageQueue.step] at h
      split at h
      · simp at h
      · exact (hs.mono (Nat.le_refl _) (Nat.zero_le 1)).sendSection hcap hk h
  | receive t i =>
      rw [ConcurrentMessageQueue.step] at h
      split at h
      · simp at h
      · exact (hs.mono (Nat.zero_le 1) (Nat.le_refl _)).receiveSection hk h
  | trySend t b i =>
      rw [ConcurrentMessageQueue.step, Monitor.trySend, notifyConsumer_pushBlock] at h
      split at h
      · simp at h
      · split at h
        · rename_i hlt
          obtain ⟨s₁, h₁, rfl⟩ := Option.map_eq_some_iff.mp h
          exact (hs.mono (Nat.le_refl _) (Nat.zero_le 1)).pushed
            (notifyConsumer_effect hs (hk hlt) h₁)
        · exact Option.some_injective _ h ▸ hs
  | tryReceive t i =>
      rw [ConcurrentMessageQueue.step, Monitor.tryReceive, notifyProducer_popBlock] at h
      split at h
      · simp at h
      · split at h
        · rename_i hne
          obtain ⟨s₁, h₁, rfl⟩ := Option.map_eq_some_iff.mp h
          exact (hs.mono (Nat.zero_le 1) (Nat.le_refl _)).popped hne
            (notifyProducer_effect hs (hk hne) h₁)
        · exact Option.some_injective _ h ▸ hs
  | resume j i =>
      rw [ConcurrentMessageQueue.step] at h
      cases hw : s.woken[j]? with
      | none => simp [hw] at h
      | some w =>
          have hkw := hk w hw
          simp only [hw] at h
          -- a thread that was woken goes on inside the call in which it waited
          cases hcall : w.call with
          | send b =>
              have hq : (s.resume j w).q = s.q := by simp [Monitor.resume, hcall]
              have hwait : (s.resume j w).waiting = s.waiting := by simp [Monitor.resume, hcall]
              simp only [hcall] at h hkw
              refine ((hs.resume hw).1 b hcall).sendSection (hq ▸ hcap) ?_ h
              rwa [hq, WakesKind, hwait]
          | receive =>
              have hq : (s.resume j w).q = s.q := by simp [Monitor.resume, hcall]
              have hwait : (s.resume j w).waiting = s.waiting := by simp [Monitor.resume, hcall]
              simp only [hcall] at h hkw
              refine ((hs.resume hw).2 hcall).receiveSection ?_ h
              rwa [hq, WakesKind, hwait]

lemma Balanced.not_lostWakeup (hs : Balanced n s 0 0) : ¬ LostWakeup n s := by
  rintro ⟨hwoken, ⟨w, hw, hkind, hne⟩ | ⟨w, hw, hkind, hlt⟩⟩
  · have := hs.receivers (count_pos_iff.mpr ⟨w, hw, hkind⟩)
    rw [hwoken] at this
    exact hne (List.length_eq_zero_iff.mp (by simpa [count] using this))
  · have := hs.senders (count_pos_iff.mpr ⟨w, hw, hkind⟩)
    rw [hwoken] at this
    simp [count] at this
    omega

end Steps

/-- In every run the queue keeps its capacity and the order of blocks; and in every run whose
notifications wake a thread of the intended kind, no wake-up is lost.  The second part follows from
`Balanced`, which counts the waiting threads of each kind against the wake-ups under way. -/
theorem run_capacity_fifo_wakeup (n : ℕ) (s : Monitor β) :
    (Relation.ReflTransGen (fun s s' => ∃ a, step n s a = some s') Monitor.init s →
      s.q.length ≤ n ∧ s.pushed = s.received ++ s.q) ∧
    (Relation.ReflTransGen (fun s s' => ∃ a, WakesIntended n s a ∧ step n s a = some s')
        Monitor.init s → ¬ LostWakeup n s) := by
  have hinit : InOrder n (Monitor.init : Monitor β) := ⟨Nat.zero_le _, rfl⟩
  have hbalanced : Balanced n (Monitor.init : Monitor β) 0 0 :=
    ⟨rfl, rfl, by simp [Monitor.init, count], by simp [Monitor.init, count]⟩
  constructor
  · intro hrun
    obtain ⟨h1, h2⟩ := TransitionSystem.invariant_of_step hinit
      (fun s s' hs ⟨a, ha⟩ => hs.step ha) hrun
    exact ⟨h1, h2⟩
  · intro hrun
    have hinv := TransitionSystem.invariant_of_step
      (I := fun s => InOrder n s ∧ Balanced n s 0 0) ⟨hinit, hbalanced⟩
      (fun s s' hs ⟨a, hk, ha⟩ => ⟨hs.1.step ha, hs.2.step hs.1.capacity hk ha⟩) hrun
    exact hinv.2.not_lostWakeup

/-! ## A lost wake-up -/

/-- Capacity one, threads `0`, `1` and `2`.  Thread `0` receives once and waits for a second block
while `1` and `2` wait to send; the wake-up by which `1` announces its block reaches `2`. -/
def lostRun : List (Action ℕ) :=
  [.receive 0 0, .send 1 10 0, .send 1 11 0, .send 2 12 0, .resume 0 0, .receive 0 0, .resume 0 0,
    .resume 0 0]

/-- Receiver `0` sleeps un-notified although the queue holds a block. -/
def lostState : Monitor ℕ :=
  ⟨[11], 1, 1, [⟨0, .receive⟩, ⟨2, .send 12⟩], [], [10, 11], [10]⟩

/-- With a single condition variable a wake-up can be lost. -/
theorem run_lost_wakeup :
    ¬ ∀ s : Monitor ℕ,
        Relation.ReflTransGen (fun s s' => ∃ a, step 1 s a = some s') Monitor.init s →
          s.q.length ≤ 1 ∧ s.pushed = s.received ++ s.q ∧ ¬ LostWakeup 1 s := by
  intro h
  have hrun : lostRun.foldlM (step 1) Monitor.init = some lostState := rfl
  obtain ⟨-, -, hno⟩ := h lostState (TransitionSystem.reflTransGen_of_foldlM hrun)
  exact hno ⟨rfl, Or.inl ⟨⟨0, .receive⟩, by simp [lostState], rfl, by simp [lostState]⟩⟩

/-- A run that wakes the intended kind: a receiver waits, and the block sent next wakes it. -/
theorem run_capacity_fifo_wakeup_woken :
    ¬ LostWakeup 1 (⟨[10], 0, 1, [], [⟨0, .receive⟩], [10], []⟩ : Monitor ℕ) := by
  refine (run_capacity_fifo_wakeup 1 _).2 ?_
  refine Relation.ReflTransGen.tail
    (Relation.ReflTransGen.single (b := ⟨[], 0, 1, [⟨0, .receive⟩], [], [], []⟩) ?_) ?_
  · exact ⟨.receive 0 0, fun h => absurd rfl h, rfl⟩
  · exact ⟨.send 1 10 0, fun _ _ => ⟨⟨0, .receive⟩, rfl, rfl⟩, rfl⟩

end ConcurrentMessageQueue

end Dmcs
