import Dmcs.Lib.ByteMemory
import Dmcs.Network.ConcurrentMessageQueue
import Mathlib.Tactic.NormNum

/-!
# Pointers through a message queue (`NewConcurrentMessageDispatcher`)

The dispatcher sends the pointer to a message by copying the bytes of a pointer variable into the
queue, and `receive` copies them into another one.  There are three ways to send and to receive:
blocking, with a timeout and without waiting.  The timed and the blocking `send` hand the address of
the variable to the queue, `try_send` gets the pointer itself, so that the first bytes of the
message are copied instead.

The queue is the monitor of `ConcurrentMessageQueue` with timed calls added.  `run_transports` is
about the runs in which every message sent without waiting begins with its own address.

## The argument

A block is a list of bytes, together with the pointer that was sent.  It `Holds` its pointer if the
bytes are those of the pointer.  A block that is made of the pointer variable always does; one that
is made of the message itself does only if the message begins with its own address.

`Sound` says that the queue keeps its order and that all blocks hold their pointers, those included
that a waiting thread is going to push.  It is kept by every step, timeouts included, and then what
`receive` copies into its variable is the pointer that was sent.
-/

namespace Dmcs

open ByteMemory

namespace ConcurrentMessageQueue

/-! ## Timed calls -/

namespace Monitor

variable {β : Type*}

/-- `cnd.timed_wait` of the waiting thread number `j` ends without a notification. -/
def expire (s : Monitor β) (j : ℕ) (w : Waiter β) : Monitor β :=
  match w.call with
  | .send _ => { s with waiting := s.waiting.eraseIdx j, enq := s.enq - 1 }
  | .receive => { s with waiting := s.waiting.eraseIdx j, deq := s.deq - 1 }

/-- The thread leaves `waitOnTimedCapacity` or `waitOnTimedEmpty`, which notify all the same, and
reports the timeout. -/
def timeoutSection (s : Monitor β) (j : ℕ) (w : Waiter β) (i : ℕ) : Option (Monitor β) :=
  match w.call with
  | .send _ => (s.expire j w).notifyConsumer i
  | .receive => (s.expire j w).notifyProducer i

/-- What holds of all blocks that were pushed, and of those that threads inside want to push. -/
structure All (P : β → Prop) (s : Monitor β) : Prop where
  pushed : ∀ b ∈ s.pushed, P b
  waiting : ∀ w ∈ s.waiting, ∀ b, w.call = .send b → P b
  woken : ∀ w ∈ s.woken, ∀ b, w.call = .send b → P b

variable {P : β → Prop} {s s' : Monitor β} {i j n t : ℕ} {b : β}

lemma All.init : All P (Monitor.init : Monitor β) :=
  ⟨fun _ h => absurd h List.not_mem_nil, fun _ h => absurd h List.not_mem_nil,
    fun _ h => absurd h List.not_mem_nil⟩

lemma All.notifyOne (hs : All P s) (h : s.notifyOne i = some s') : All P s' := by
  rcases notifyOne_cases h with ⟨-, rfl⟩ | ⟨w, hw, rfl⟩
  · exact hs
  · refine ⟨hs.pushed, fun w' hw' => hs.waiting w' (List.mem_of_mem_eraseIdx hw'), ?_⟩
    intro w' hw'
    rcases List.mem_append.1 hw' with hw' | hw'
    · exact hs.woken w' hw'
    · rw [List.mem_singleton.1 hw']
      exact hs.waiting w (List.mem_of_getElem? hw)

lemma All.notifyConsumer (hs : All P s) (h : s.notifyConsumer i = some s') : All P s' := by
  unfold Monitor.notifyConsumer at h
  split at h
  · exact hs.notifyOne h
  · exact Option.some.inj h ▸ hs

lemma All.notifyProducer (hs : All P s) (h : s.notifyProducer i = some s') : All P s' := by
  unfold Monitor.notifyProducer at h
  split at h
  · exact hs.notifyOne h
  · exact Option.some.inj h ▸ hs

lemma All.pushBlock (hs : All P s) (hb : P b) : All P (s.pushBlock b) := by
  refine ⟨?_, hs.waiting, hs.woken⟩
  intro b' hb'
  rcases List.mem_append.1 hb' with hb' | hb'
  · exact hs.pushed b' hb'
  · rw [List.mem_singleton.1 hb']
    exact hb

lemma All.popBlock (hs : All P s) : All P s.popBlock := ⟨hs.pushed, hs.waiting, hs.woken⟩

lemma All.sendSection (hs : All P s) (hb : P b) (h : s.sendSection n t b i = some s') :
    All P s' := by
  unfold Monitor.sendSection at h
  split at h
  · rw [← Option.some.inj h]
    refine ⟨hs.pushed, ?_, hs.woken⟩
    intro w hw b' hcall
    rcases List.mem_append.1 hw with hw | hw
    · exact hs.waiting w hw b' hcall
    · rw [List.mem_singleton.1 hw] at hcall
      exact Call.send.inj hcall ▸ hb
  · obtain ⟨s₁, h₁, rfl⟩ := Option.map_eq_some_iff.1 h
    exact (hs.notifyConsumer h₁).pushBlock hb

lemma All.receiveSection (hs : All P s) (h : s.receiveSection t i = some s') : All P s' := by
  unfold Monitor.receiveSection at h
  split at h
  · rw [← Option.some.inj h]
    refine ⟨hs.pushed, ?_, hs.woken⟩
    intro w hw b' hcall
    rcases List.mem_append.1 hw with hw | hw
    · exact hs.waiting w hw b' hcall
    · rw [List.mem_singleton.1 hw] at hcall
      cases hcall
  · obtain ⟨s₁, h₁, rfl⟩ := Option.map_eq_some_iff.1 h
    exact (hs.notifyProducer h₁).popBlock

/-- Leaving `cnd.wait` only forgets a thread. -/
lemma All.resume (hs : All P s) (j : ℕ) (w : Waiter β) : All P (s.resume j w) := by
  unfold Monitor.resume
  split
  · exact ⟨hs.pushed, hs.waiting, fun w' hw' => hs.woken w' (List.mem_of_mem_eraseIdx hw')⟩
  · exact ⟨hs.pushed, hs.waiting, fun w' hw' => hs.woken w' (List.mem_of_mem_eraseIdx hw')⟩

lemma All.expire (hs : All P s) (j : ℕ) (w : Waiter β) : All P (s.expire j w) := by
  unfold Monitor.expire
  split
  · exact ⟨hs.pushed, fun w' hw' => hs.waiting w' (List.mem_of_mem_eraseIdx hw'), hs.woken⟩
  · exact ⟨hs.pushed, fun w' hw' => hs.waiting w' (List.mem_of_mem_eraseIdx hw'), hs.woken⟩

lemma All.timeoutSection {w : Waiter β} (hs : All P s) (h : s.timeoutSection j w i = some s') :
    All P s' := by
  unfold Monitor.timeoutSection at h
  split at h
  · exact (hs.expire j w).notifyConsumer h
  · exact (hs.expire j w).notifyProducer h

/-- The block a call brings, if it pushes one or may push it later. -/
def brings (n : ℕ) (s : Monitor β) : ConcurrentMessageQueue.Action β → Option β
  | .send _ b _ => some b
  | .trySend _ b _ => if s.q.length < n then some b else none
  | _ => none

lemma All.step {a : ConcurrentMessageQueue.Action β} (hs : All P s)
    (ha : ∀ b, s.brings n a = some b → P b) (h : ConcurrentMessageQueue.step n s a = some s') :
    All P s' := by
  unfold ConcurrentMessageQueue.step at h
  cases a with
  | send t b i =>
      simp only at h
      split at h
      · exact absurd h (Option.some_ne_none _).symm
      · exact hs.sendSection (ha b rfl) h
  | receive t i =>
      simp only at h
      split at h
      · exact absurd h (Option.some_ne_none _).symm
      · exact hs.receiveSection h
  | trySend t b i =>
      simp only at h
      split at h
      · exact absurd h (Option.some_ne_none _).symm
      · unfold Monitor.trySend at h
        split at h
        · rename_i hlt
          exact (hs.pushBlock (ha b (if_pos hlt))).notifyConsumer h
        · exact Option.some.inj h ▸ hs
  | tryReceive t i =>
      simp only at h
      split at h
      · exact absurd h (Option.some_ne_none _).symm
      · unfold Monitor.tryReceive at h
        split at h
        · exact hs.popBlock.notifyProducer h
        · exact Option.some.inj h ▸ hs
  | resume j i =>
      simp only at h
      split at h
      · exact absurd h (Option.some_ne_none _).symm
      · rename_i w hw
        split at h
        · rename_i b hcall
          exact (hs.resume j w).sendSection (hs.woken w (List.mem_of_getElem? hw) b hcall) h
        · exact (hs.resume j w).receiveSection h

lemma expire_inOrder (hs : InOrder n s) (j : ℕ) (w : Waiter β) : InOrder n (s.expire j w) := by
  unfold Monitor.expire
  split
  · exact ⟨hs.capacity, hs.fifo⟩
  · exact ⟨hs.capacity, hs.fifo⟩

lemma timeoutSection_inOrder {w : Waiter β} (hs : InOrder n s)
    (h : s.timeoutSection j w i = some s') : InOrder n s' := by
  unfold Monitor.timeoutSection at h
  split at h
  · exact (expire_inOrder hs j w).notifyConsumer h
  · exact (expire_inOrder hs j w).notifyProducer h

lemma expire_q (s : Monitor β) (j : ℕ) (w : Waiter β) : (s.expire j w).q = s.q := by
  unfold Monitor.expire
  split
  · rfl
  · rfl

lemma timeoutSection_q {w : Waiter β} (h : s.timeoutSection j w i = some s') : s'.q = s.q := by
  unfold Monitor.timeoutSection at h
  split at h
  · rw [notifyConsumer_q h, expire_q]
  · rw [notifyProducer_q h, expire_q]

end Monitor

end ConcurrentMessageQueue

namespace NewConcurrentMessageDispatcher

open ConcurrentMessageQueue

/-! ## The dispatcher -/

/-- An address, the value of a pointer. -/
abbrev Address := BitVec 64

/-- `sizeof(mess)`. -/
def sizeofPointer : ℕ := 8

/-- The bytes of a pointer variable. -/
def pointerBytes (p : Address) : List Byte := toBytes sizeofPointer p.toNat

/-- The pointer that the bytes of a variable stand for. -/
def pointerOf (bytes : List Byte) : Address := BitVec.ofNat 64 (ofBytes bytes)

/-- A block of the queue; `mess` is the pointer that `send` was called with. -/
structure Block where
  bytes : List Byte
  mess : Address
  deriving DecidableEq

/-- The block `pushBlock` makes of `size` bytes at `buf`; a `NULL` buffer fails an assertion. -/
def blockAt (memory : Memory 64) (buf : Address) (size : ℕ) (mess : Address) : Option Block :=
  if buf = 0 then none else some ⟨memory.read buf size, mess⟩

/-- `popBlock` into the variable `mess`, which is `NULL` before: its value, and `recvd`. -/
def Block.receiveInto (b : Block) : Address × ℕ :=
  let copied := if b.bytes.length ≤ sizeofPointer then b.bytes else b.bytes.take sizeofPointer
  (pointerOf (copied ++ (pointerBytes 0).drop copied.length), b.bytes.length)

/-- A queue with the threads that call it; `timed` are those whose last call has a timeout. -/
structure State where
  monitor : Monitor Block
  timed : ℕ → Bool

/-- A new queue. -/
def State.init : State := ⟨Monitor.init, fun _ => false⟩

/-- The memory when thread `t` calls `send`: its parameter `mess` is a variable at `slot`. -/
structure Frame where
  slot : Address
  memory : Memory 64

/-- The memory with the variable. -/
def Frame.view (frame : Frame) (mess : Address) : Memory 64 :=
  frame.memory.write frame.slot (pointerBytes mess)

/-- What happens next at a queue: a call by thread `t`, the resumption of the woken thread number
`j`, or the timeout of the waiting thread number `j`; `i` is the number of the thread that is woken
should the step notify. -/
inductive Action
  | send (t : ℕ) (mess : Address) (msecs : ℤ) (frame : Frame) (i : ℕ)
  | receive (t : ℕ) (msecs : ℤ) (i : ℕ)
  | resume (j i : ℕ)
  | timeout (j i : ℕ)

/-- A call of the queue by thread `t`. -/
def State.call (n : ℕ) (s : State) (t : ℕ) (timed : Bool)
    (a : ConcurrentMessageQueue.Action Block) : Option State :=
  (ConcurrentMessageQueue.step n s.monitor a).map
    (fun monitor => ⟨monitor, Function.update s.timed t timed⟩)

/-- `send`. -/
def State.send (n : ℕ) (s : State) (t : ℕ) (mess : Address) (msecs : ℤ) (frame : Frame) (i : ℕ) :
    Option State :=
  if 0 < msecs then do
    let b ← blockAt (frame.view mess) frame.slot sizeofPointer mess
    s.call n t true (.send t b i)
  else if msecs < 0 then do
    let b ← blockAt (frame.view mess) mess sizeofPointer mess
    s.call n t false (.trySend t b i)
  else do
    let b ← blockAt (frame.view mess) frame.slot sizeofPointer mess
    s.call n t false (.send t b i)

/-- `receive`. -/
def State.receive (n : ℕ) (s : State) (t : ℕ) (msecs : ℤ) (i : ℕ) : Option State :=
  if 0 < msecs then s.call n t true (.receive t i)
  else if msecs < 0 then s.call n t false (.tryReceive t i)
  else s.call n t false (.receive t i)

/-- One step of a queue with capacity `n`. -/
def step (n : ℕ) (s : State) : Action → Option State
  | .send t mess msecs frame i => s.send n t mess msecs frame i
  | .receive t msecs i => s.receive n t msecs i
  | .resume j i => (ConcurrentMessageQueue.step n s.monitor (.resume j i)).map
      (fun monitor => { s with monitor := monitor })
  | .timeout j i =>
      match s.monitor.waiting[j]? with
      | none => none
      | some w =>
          if s.timed w.thread then
            (s.monitor.timeoutSection j w i).map (fun monitor => { s with monitor := monitor })
          else none

/-- The call reports a failure: `try_send` at a full queue, `try_receive` at an empty one, and a
timeout. -/
def ReportsFailure (n : ℕ) (s : State) : Action → Prop
  | .send _ _ msecs _ _ => msecs < 0 ∧ n ≤ s.monitor.q.length
  | .receive _ msecs _ => msecs < 0 ∧ s.monitor.q = []
  | .resume _ _ => False
  | .timeout _ _ => True

/-- The pointers that successful sends were called with, in order. -/
def State.sent (s : State) : List Address := s.monitor.pushed.map Block.mess

/-- The pointers that successful receives returned, in order. -/
def State.returned (s : State) : List Address :=
  s.monitor.received.map (fun b => b.receiveInto.1)

/-- The pointers returned are the first ones sent, a call that fails leaves the queue as it is, and
`sizeof(mess) == recvd` holds at every receive. -/
structure Transports (n : ℕ) (s : State) : Prop where
  inOrder : s.returned <+: s.sent
  unchanged : ∀ a s', step n s a = some s' → ReportsFailure n s a → s'.monitor.q = s.monitor.q
  sizeof : ∀ b ∈ s.monitor.received ++ s.monitor.q, b.receiveInto.2 = sizeofPointer

/-- A message sent without waiting begins with its own address. -/
def HandsPointer (n : ℕ) (s : State) : Action → Prop
  | .send _ mess msecs frame _ => msecs < 0 → s.monitor.q.length < n →
      (frame.view mess).read mess sizeofPointer = pointerBytes mess
  | _ => True

/-! ## Bytes and pointers -/

lemma length_pointerBytes (p : Address) : (pointerBytes p).length = sizeofPointer :=
  length_toBytes _ _

lemma pointerOf_pointerBytes (p : Address) : pointerOf (pointerBytes p) = p := by
  have hsize : 256 ^ sizeofPointer = 2 ^ 64 := by norm_num [sizeofPointer]
  unfold pointerOf pointerBytes
  rw [ofBytes_toBytes, hsize, Nat.mod_eq_of_lt p.isLt, BitVec.ofNat_toNat, BitVec.setWidth_eq]

/-- A block as long as a pointer is read as one. -/
lemma receiveInto_eq {b : Block} (h : b.bytes.length = sizeofPointer) :
    b.receiveInto = (pointerOf b.bytes, sizeofPointer) := by
  have hdrop : (pointerBytes 0).drop b.bytes.length = [] := by
    rw [h]
    exact List.drop_of_length_le (le_of_eq (length_pointerBytes 0))
  unfold Block.receiveInto
  simp only [h, le_refl, if_true]
  rw [← h, hdrop, List.append_nil]

/-- The block holds the pointer it was sent for. -/
def Block.Holds (b : Block) : Prop := b.bytes = pointerBytes b.mess

lemma Block.Holds.receiveInto {b : Block} (h : b.Holds) :
    b.receiveInto = (b.mess, sizeofPointer) := by
  have hlength : b.bytes.length = sizeofPointer := by
    rw [h]
    exact length_pointerBytes b.mess
  rw [receiveInto_eq hlength, h, pointerOf_pointerBytes]

/-- A block made of the pointer variable holds the pointer. -/
lemma holds_of_slot {frame : Frame} {mess : Address} {b : Block}
    (h : blockAt (frame.view mess) frame.slot sizeofPointer mess = some b) : b.Holds := by
  unfold blockAt at h
  split at h
  · exact absurd h (Option.some_ne_none _).symm
  · rw [← Option.some.inj h]
    have hle : (pointerBytes mess).length ≤ 2 ^ 64 := by
      rw [length_pointerBytes]
      norm_num [sizeofPointer]
    have hread := Memory.read_write frame.memory frame.slot hle
    rw [length_pointerBytes] at hread
    exact hread

/-- A block made of the message holds the pointer if the message begins with it. -/
lemma holds_of_mess {frame : Frame} {mess : Address} {b : Block}
    (h : blockAt (frame.view mess) mess sizeofPointer mess = some b)
    (hbegins : (frame.view mess).read mess sizeofPointer = pointerBytes mess) : b.Holds := by
  unfold blockAt at h
  split at h
  · exact absurd h (Option.some_ne_none _).symm
  · rw [← Option.some.inj h]
    exact hbegins

/-! ## What a step does -/

section Steps

variable {n : ℕ} {s s' : State} {a : Action}

lemma call_eq_some {t : ℕ} {timed : Bool} {a : ConcurrentMessageQueue.Action Block}
    (h : s.call n t timed a = some s') :
    ConcurrentMessageQueue.step n s.monitor a = some s'.monitor := by
  unfold State.call at h
  obtain ⟨monitor, hstep, rfl⟩ := Option.map_eq_some_iff.1 h
  exact hstep

lemma timeout_eq_some {j i : ℕ} (h : step n s (.timeout j i) = some s') :
    ∃ j w i, s.monitor.timeoutSection j w i = some s'.monitor := by
  unfold step at h
  simp only at h
  split at h
  · exact absurd h (Option.some_ne_none _).symm
  · rename_i w _
    split at h
    · obtain ⟨monitor, hsection, rfl⟩ := Option.map_eq_some_iff.1 h
      exact ⟨j, w, i, hsection⟩
    · exact absurd h (Option.some_ne_none _).symm

/-- A step is one of the queue, whose block holds its pointer, or a timeout. -/
lemma step_cases (ha : HandsPointer n s a) (h : step n s a = some s') :
    (∃ a', ConcurrentMessageQueue.step n s.monitor a' = some s'.monitor ∧
      ∀ b, s.monitor.brings n a' = some b → b.Holds) ∨
    ∃ j w i, s.monitor.timeoutSection j w i = some s'.monitor := by
  cases a with
  | send t mess msecs frame i =>
      left
      change s.send n t mess msecs frame i = some s' at h
      unfold State.send at h
      split at h
      · obtain ⟨b, hb, hcall⟩ := Option.bind_eq_some_iff.1 h
        refine ⟨_, call_eq_some hcall, ?_⟩
        intro b' hb'
        rw [← Option.some.inj hb']
        exact holds_of_slot hb
      · split at h
        · rename_i hneg
          obtain ⟨b, hb, hcall⟩ := Option.bind_eq_some_iff.1 h
          refine ⟨_, call_eq_some hcall, ?_⟩
          intro b' hb'
          change (if s.monitor.q.length < n then some b else none) = some b' at hb'
          split at hb'
          · rename_i hlt
            rw [← Option.some.inj hb']
            exact holds_of_mess hb (ha hneg hlt)
          · exact absurd hb' (Option.some_ne_none _).symm
        · obtain ⟨b, hb, hcall⟩ := Option.bind_eq_some_iff.1 h
          refine ⟨_, call_eq_some hcall, ?_⟩
          intro b' hb'
          rw [← Option.some.inj hb']
          exact holds_of_slot hb
  | receive t msecs i =>
      left
      change s.receive n t msecs i = some s' at h
      unfold State.receive at h
      split at h
      · exact ⟨_, call_eq_some h, fun b hb => absurd hb (Option.some_ne_none b).symm⟩
      · split at h
        · exact ⟨_, call_eq_some h, fun b hb => absurd hb (Option.some_ne_none b).symm⟩
        · exact ⟨_, call_eq_some h, fun b hb => absurd hb (Option.some_ne_none b).symm⟩
  | resume j i =>
      left
      obtain ⟨monitor, hstep, rfl⟩ := Option.map_eq_some_iff.1 h
      exact ⟨_, hstep, fun b hb => absurd hb (Option.some_ne_none b).symm⟩
  | timeout j i =>
      exact Or.inr (timeout_eq_some h)

/-- A call that reports a failure leaves the queue as it is. -/
lemma q_of_reportsFailure (h : step n s a = some s') (hfail : ReportsFailure n s a) :
    s'.monitor.q = s.monitor.q := by
  cases a with
  | send t mess msecs frame i =>
      obtain ⟨hneg, hfull⟩ := hfail
      change s.send n t mess msecs frame i = some s' at h
      unfold State.send at h
      rw [if_neg (by omega), if_pos hneg] at h
      obtain ⟨b, -, hcall⟩ := Option.bind_eq_some_iff.1 h
      have hstep := call_eq_some hcall
      unfold ConcurrentMessageQueue.step at hstep
      simp only at hstep
      split at hstep
      · exact absurd hstep (Option.some_ne_none _).symm
      · unfold Monitor.trySend at hstep
        rw [if_neg (Nat.not_lt.2 hfull)] at hstep
        rw [← Option.some.inj hstep]
  | receive t msecs i =>
      obtain ⟨hneg, hempty⟩ := hfail
      change s.receive n t msecs i = some s' at h
      unfold State.receive at h
      rw [if_neg (by omega), if_pos hneg] at h
      have hstep := call_eq_some h
      unfold ConcurrentMessageQueue.step at hstep
      simp only at hstep
      split at hstep
      · exact absurd hstep (Option.some_ne_none _).symm
      · unfold Monitor.tryReceive at hstep
        rw [if_neg (not_not.2 hempty)] at hstep
        rw [← Option.some.inj hstep]
  | resume j i => exact False.elim hfail
  | timeout j i =>
      obtain ⟨j', w, i', hsection⟩ := timeout_eq_some h
      exact Monitor.timeoutSection_q hsection

/-- The queue keeps its order, and all blocks hold their pointers. -/
structure Sound (n : ℕ) (s : State) : Prop where
  inOrder : InOrder n s.monitor
  all : s.monitor.All Block.Holds

lemma Sound.init : Sound n State.init := ⟨⟨Nat.zero_le n, rfl⟩, Monitor.All.init⟩

lemma Sound.step (hs : Sound n s) (ha : HandsPointer n s a)
    (h : NewConcurrentMessageDispatcher.step n s a = some s') : Sound n s' := by
  rcases step_cases ha h with ⟨a', hstep, hbrings⟩ | ⟨j, w, i, hsection⟩
  · exact ⟨hs.inOrder.step hstep, hs.all.step hbrings hstep⟩
  · exact ⟨Monitor.timeoutSection_inOrder hs.inOrder hsection, hs.all.timeoutSection hsection⟩

lemma Sound.transports (hs : Sound n s) : Transports n s := by
  have hpushed := hs.inOrder.fifo
  have hall : ∀ b ∈ s.monitor.received ++ s.monitor.q, b.Holds := by
    rw [← hpushed]
    exact hs.all.pushed
  refine ⟨?_, fun a s' h hfail => q_of_reportsFailure h hfail, ?_⟩
  · have hreturned : s.returned = s.monitor.received.map Block.mess := by
      apply List.map_congr_left
      intro b hb
      rw [(hall b (List.mem_append_left _ hb)).receiveInto]
    unfold State.sent
    rw [hreturned, hpushed, List.map_append]
    exact List.prefix_append _ _
  · intro b hb
    rw [(hall b hb).receiveInto]

end Steps

/-- In every run in which a message sent without waiting begins with its own address, the queue
transports pointers.  The runs are those of any threads with all three ways to send and to receive,
with timeouts. -/
theorem run_transports {n : ℕ} {s : State}
    (hrun : Relation.ReflTransGen (fun s s' => ∃ a, HandsPointer n s a ∧ step n s a = some s')
      State.init s) : Transports n s := by
  have hsound := TransitionSystem.invariant_of_step Sound.init
    (fun s s' hs ⟨a, ha, hstep⟩ => hs.step ha hstep) hrun
  exact hsound.transports

instance (n : ℕ) (s : State) : (a : Action) → Decidable (HandsPointer n s a)
  | .send _ mess msecs frame _ => inferInstanceAs (Decidable (msecs < 0 → s.monitor.q.length < n →
      (frame.view mess).read mess sizeofPointer = pointerBytes mess))
  | .receive .. | .resume .. | .timeout .. => inferInstanceAs (Decidable True)

/-- A step that hands a pointer. -/
def handsStep (n : ℕ) (s : State) (a : Action) : Option State :=
  if HandsPointer n s a then step n s a else none

/-- A message at the address `16` that begins with its own address; all other bytes are zero. -/
def selfPointing : Frame := ⟨8, fun a => if a = 16 then 16 else 0⟩

/-- The queue has room for one message.  Thread `0` sends without waiting, thread `1` waits for
room, thread `2` fails to send without waiting.  Thread `3` receives in the three modes; in between
thread `0` sends the end of the stream with a timeout. -/
def threeModes : List Action :=
  [.send 0 16 (-1) selfPointing 0, .send 1 32 0 selfPointing 0, .send 2 48 (-1) selfPointing 0,
    .receive 3 (-1) 0, .resume 0 0, .receive 3 5 0, .send 0 0 5 selfPointing 0, .receive 3 0 0]

/-- All three pointers arrive, in the order in which they were pushed. -/
theorem run_transports_threeModes :
    ∃ s : State, s.sent = [16, 32, 0] ∧ s.returned = [16, 32, 0] ∧ Transports 1 s := by
  have hrun : (threeModes.foldlM (handsStep 1) State.init).map (fun s => (s.sent, s.returned)) =
      some ([16, 32, 0], [16, 32, 0]) := by decide +kernel
  obtain ⟨s, hs, hends⟩ := Option.map_eq_some_iff.1 hrun
  obtain ⟨hsent, hreturned⟩ := Prod.mk.inj hends
  refine ⟨s, hsent, hreturned, run_transports ?_⟩
  refine Relation.ReflTransGen.mono ?_ _ _ (TransitionSystem.reflTransGen_of_foldlM hs)
  rintro t t' ⟨a, hstep⟩
  unfold handsStep at hstep
  exact ⟨a, Option.ite_none_right_eq_some.1 hstep⟩

/-- What is sent without waiting comes back as the first bytes of the message. -/
theorem trySend_receive {n : ℕ} (hn : 0 < n) (frame : Frame) {mess : Address} (hmess : mess ≠ 0) :
    ∃ s, Relation.ReflTransGen (fun s s' => ∃ a, step n s a = some s') State.init s ∧
      s.sent = [mess] ∧
      s.returned = [pointerOf ((frame.view mess).read mess sizeofPointer)] := by
  set b : Block := ⟨(frame.view mess).read mess sizeofPointer, mess⟩ with hb
  have hlength : b.bytes.length = sizeofPointer := Memory.length_read _ _ _
  have hblock : blockAt (frame.view mess) mess sizeofPointer mess = some b := if_neg hmess
  have houtside : ∀ t, ¬ (Monitor.init : Monitor Block).Inside t := fun t => List.not_mem_nil
  have hsend : step n State.init (.send 0 mess (-1) frame 0) =
      some ⟨⟨[b], 0, 0, [], [], [b], []⟩, Function.update (fun _ => false) 0 false⟩ := by
    show (blockAt (frame.view mess) mess sizeofPointer mess).bind _ = _
    rw [hblock]
    show (ConcurrentMessageQueue.step n Monitor.init (.trySend 0 b 0)).map _ = _
    unfold ConcurrentMessageQueue.step
    simp only
    rw [if_neg (houtside 0)]
    unfold Monitor.trySend
    rw [if_pos (show (Monitor.init : Monitor Block).q.length < n from hn)]
    rfl
  refine ⟨_, (Relation.ReflTransGen.single ⟨_, hsend⟩).tail ⟨.receive 1 0 0, rfl⟩, rfl, ?_⟩
  show [b.receiveInto.1] = _
  rw [receiveInto_eq hlength]

/-- A message that begins with zeros is not received. -/
theorem run_transports_fails :
    ¬ ∀ (n : ℕ) (s : State), 0 < n →
      Relation.ReflTransGen (fun s s' => ∃ a, step n s a = some s') State.init s →
        Transports n s := by
  intro hall
  obtain ⟨s, hrun, hsent, hreturned⟩ :=
    trySend_receive (by norm_num : 0 < 1) ⟨8, fun _ => 0⟩ (by decide : (16 : Address) ≠ 0)
  have horder := (hall 1 s (by norm_num) hrun).inOrder
  rw [hsent, hreturned] at horder
  have heq := List.prefix_iff_eq_take.1 horder
  exact absurd heq (by decide)

end NewConcurrentMessageDispatcher

end Dmcs
