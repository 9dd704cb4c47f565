import Mathlib.Algebra.Order.Group.Int
import Mathlib.Data.List.Basic
import Mathlib.Tactic.Common

/-!
# The stream buffer of a child process (`NewProcessBuf`)

A stream buffer with a put area in front of the pipe to the child and a get area behind the pipe
from it.  `::write` and `::read` may transfer less than they are asked to.

`sync` empties both areas: it sends what was put, in as many writes as it takes, and it drops what
was read from the child and not yet taken.  It is called for every flush, and by `overflow` when the
put area is full.  `lossless_iff` says that nothing else is ever lost.

## The argument

The pipes are oracles: each `::write` and `::read` says how much it transfers at most, which is at
least one byte.  `Does` is what an operation of the stream does to what was sent and to what is
still unread; the operations are `sputc`, `sbumpc` and a flush.

Nothing put is ever lost, since `sync` writes until the put area is empty (`writeLoop`).  What was
read from the child and not taken is dropped by every `sync`.  So a session is lossless if and only
if no flush, and no overflow of the put area, comes while the get area holds something
(`KeepsInput`).  A buffer of size zero is a case of its own: it can hold nothing at all.
-/

namespace Dmcs

/-- The two pipes: the bytes written to the child, the bytes of the child that are not read, and
what the calls of `::write` and `::read` to come return at most.  A negative number is an error. -/
structure Pipes where
  toChild : List UInt8
  fromChild : List UInt8
  writes : ℕ → ℤ
  reads : ℕ → ℤ

namespace Pipes

/-- `::write`. -/
def write (p : Pipes) (bytes : List UInt8) : ℤ × Pipes :=
  let ret := if p.writes 0 < 0 then -1 else min (p.writes 0) bytes.length
  (ret, { p with
    toChild := p.toChild ++ bytes.take ret.toNat
    writes := fun n => p.writes (n + 1) })

/-- `::read` into a buffer; at the end of what the child writes it returns 0. -/
def read (p : Pipes) (bufsize : ℕ) : ℤ × List UInt8 × Pipes :=
  let n := if p.reads 0 < 0 then -1 else min (p.reads 0) (min bufsize p.fromChild.length)
  (n, p.fromChild.take n.toNat, { p with
    fromChild := p.fromChild.drop n.toNat
    reads := fun n => p.reads (n + 1) })

end Pipes

/-- The put area holds what was put and not sent, the get area what was read and not taken. -/
structure NewProcessBuf where
  bufsize : ℕ
  obuf : List UInt8
  ibuf : List UInt8
  pipes : Pipes

namespace NewProcessBuf

/-- The loop of `sync`; every round but the last sends a byte, so there are no more rounds than
bytes. -/
def writeLoop : ℕ → ℤ → List UInt8 → Pipes → ℤ × Pipes
  | 0, ret, _, p => (ret, p)
  | rounds + 1, ret, bytes, p =>
      if bytes = [] then (ret, p)
      else
        let written := p.write bytes
        if written.1 = -1 ∨ written.1 = 0 then written
        else writeLoop rounds written.1 (bytes.drop written.1.toNat) written.2

/-- `sync`; the result is missing when it throws. -/
def sync (s : NewProcessBuf) : Option ℤ × NewProcessBuf :=
  let s := { s with ibuf := [] }
  if s.obuf = [] then (some 0, s)
  else
    let sent := writeLoop s.obuf.length 0 s.obuf s.pipes
    let s := { s with obuf := [], pipes := sent.2 }
    if sent.1 = 0 then (some (-1), s)
    else if sent.1 < 0 then (none, s)
    else (some 0, s)

/-- Storing a character at the put pointer, if it is inside the buffer. -/
def store (s : NewProcessBuf) (c : UInt8) : Option NewProcessBuf :=
  if s.obuf.length < s.bufsize then some { s with obuf := s.obuf ++ [c] } else none

/-- `overflow` for a character; no result when `sync` throws or the buffer is overrun, and an end
of file that changes nothing more. -/
def overflow (s : NewProcessBuf) (c : UInt8) : Option NewProcessBuf :=
  if s.bufsize ≤ s.obuf.length then
    match s.sync with
    | (some ret, s') => if ret = -1 then some s' else s'.store c
    | (none, _) => none
  else s.store c

/-- `underflow`: the next character, and nothing at the end of file. -/
def underflow (s : NewProcessBuf) : Option (Option UInt8 × NewProcessBuf) :=
  match s.ibuf with
  | c :: _ => some (some c, s)
  | [] =>
      let received := s.pipes.read s.bufsize
      if received.1 = 0 then some (none, { s with pipes := received.2.2 })
      else if received.1 < 0 then none
      else
        some (received.2.1.head?, { s with ibuf := received.2.1, pipes := received.2.2 })

/-! ## Operations of the stream -/

inductive Op where
  | put (c : UInt8)
  | flush
  | get
  deriving DecidableEq, Repr

/-- `sputc`. -/
def sputc (s : NewProcessBuf) (c : UInt8) : Option NewProcessBuf :=
  if s.obuf.length < s.bufsize then s.store c else s.overflow c

/-- `sbumpc`. -/
def sbumpc (s : NewProcessBuf) : Option (Option UInt8 × NewProcessBuf) := do
  let (c, s) ← s.underflow
  some (c, { s with ibuf := s.ibuf.drop 1 })

/-- An operation, and the character a `get` returns, if it returns one. -/
def step : Op → NewProcessBuf → Option (List UInt8 × NewProcessBuf)
  | .put c, s => (s.sputc c).map (fun s => ([], s))
  | .flush, s => s.sync.1.map (fun _ => ([], s.sync.2))
  | .get, s => s.sbumpc.map (fun r => (r.1.toList, r.2))

def run : List Op → NewProcessBuf → Option (List UInt8 × NewProcessBuf)
  | [], s => some ([], s)
  | op :: ops, s => do
      let (c, s) ← step op s
      let (cs, s) ← run ops s
      some (c ++ cs, s)

/-- The characters that are put. -/
def puts (ops : List Op) : List UInt8 :=
  ops.filterMap (fun op => match op with
    | .put c => some c
    | _ => none)

lemma puts_append (ops ops' : List Op) : puts (ops ++ ops') = puts ops ++ puts ops' :=
  List.filterMap_append

/-- The operations that call `sync`. -/
def Syncs : Op → NewProcessBuf → Prop
  | .put _, s => s.bufsize ≤ s.obuf.length
  | .flush, _ => True
  | .get, _ => False

/-- Whenever `sync` is called, everything that was read from the child has been taken. -/
def KeepsInput : List Op → NewProcessBuf → Prop
  | [], _ => True
  | op :: ops, s => (Syncs op s → s.ibuf = []) ∧
      ∀ c s', step op s = some (c, s') → KeepsInput ops s'

/-! ## Sending -/

/-- All calls to come transfer something, unless there is nothing. -/
structure Works (p : Pipes) : Prop where
  writes : ∀ n, 0 < p.writes n
  reads : ∀ n, 0 < p.reads n

section Sending

variable {p : Pipes} {bytes : List UInt8}

/-- A write sends some of the bytes. -/
lemma exists_write (hp : Works p) (hbytes : bytes ≠ []) :
    ∃ (n : ℕ) (p' : Pipes), p.write bytes = ((n : ℤ), p') ∧ 0 < n ∧ n ≤ bytes.length ∧
      p'.toChild = p.toChild ++ bytes.take n ∧ p'.fromChild = p.fromChild ∧ Works p' := by
  have hpos := hp.writes 0
  have hlen := List.length_pos_iff.2 hbytes
  obtain ⟨n, hn⟩ : ∃ n : ℕ, min (p.writes 0) bytes.length = n :=
    ⟨(min (p.writes 0) bytes.length).toNat, by omega⟩
  refine ⟨n, { p with toChild := p.toChild ++ bytes.take n, writes := fun k => p.writes (k + 1) },
    ?_, by omega, by omega, rfl, rfl, fun k => hp.writes (k + 1), hp.reads⟩
  unfold Pipes.write
  simp only [if_neg (not_lt.2 hpos.le), hn, Int.toNat_natCast]

/-- The loop sends everything, however little a write takes. -/
lemma writeLoop_sends (hp : Works p) {rounds : ℕ} (hrounds : bytes.length ≤ rounds) (ret : ℤ)
    (hret : bytes = [] → 0 < ret) :
    0 < (writeLoop rounds ret bytes p).1 ∧
      (writeLoop rounds ret bytes p).2.toChild = p.toChild ++ bytes ∧
      (writeLoop rounds ret bytes p).2.fromChild = p.fromChild ∧
      Works (writeLoop rounds ret bytes p).2 := by
  induction rounds generalizing bytes ret p with
  | zero =>
      obtain rfl : bytes = [] := List.eq_nil_of_length_eq_zero (by omega)
      unfold writeLoop
      exact ⟨hret rfl, (List.append_nil _).symm, rfl, hp⟩
  | succ rounds ih =>
      unfold writeLoop
      by_cases hbytes : bytes = []
      · subst hbytes
        rw [if_pos rfl]
        exact ⟨hret rfl, (List.append_nil _).symm, rfl, hp⟩
      · obtain ⟨n, p', hwrite, hpos, hle, hto, hfrom, hp'⟩ := exists_write hp hbytes
        rw [if_neg hbytes, hwrite]
        simp only
        rw [if_neg (by omega), Int.toNat_natCast]
        have hdrop : (bytes.drop n).length ≤ rounds := by
          rw [List.length_drop]
          omega
        obtain ⟨hloop, hto', hfrom', hworks⟩ := ih hp' hdrop n (fun _ => by omega)
        refine ⟨hloop, ?_, hfrom'.trans hfrom, hworks⟩
        rw [hto', hto, List.append_assoc, List.take_append_drop]

end Sending

/-- Everything that was put and reached the pipe, or is to. -/
def sent (s : NewProcessBuf) : List UInt8 := s.pipes.toChild ++ s.obuf

/-- Everything the child wrote that was not taken and not dropped. -/
def unread (s : NewProcessBuf) : List UInt8 := s.ibuf ++ s.pipes.fromChild

/-- The put area is inside the buffer, which has room for a character, and the calls work. -/
structure Ready (s : NewProcessBuf) : Prop where
  room : 0 < s.bufsize
  fits : s.obuf.length ≤ s.bufsize
  works : Works s.pipes

variable {s s' : NewProcessBuf} {c : UInt8}

/-- `sync` moves the put area into the pipe and drops the get area. -/
lemma exists_sync (hs : Works s.pipes) : ∃ s', s.sync = (some 0, s') ∧ s'.bufsize = s.bufsize ∧
    s'.obuf = [] ∧ s'.ibuf = [] ∧ s'.pipes.toChild = s.sent ∧
    s'.pipes.fromChild = s.pipes.fromChild ∧ Works s'.pipes := by
  unfold sync
  by_cases hobuf : s.obuf = []
  · refine ⟨{ s with ibuf := [] }, if_pos hobuf, rfl, hobuf, rfl, ?_, rfl, hs⟩
    unfold sent
    rw [hobuf, List.append_nil]
  · obtain ⟨hret, hto, hfrom, hworks⟩ :=
      writeLoop_sends hs (Nat.le_refl s.obuf.length) 0 (fun hnil => absurd hnil hobuf)
    simp only [if_neg hobuf, if_neg hret.ne', if_neg (not_lt.2 hret.le)]
    exact ⟨_, rfl, rfl, rfl, rfl, hto, hfrom, hworks⟩

/-! ## Steps -/

/-- What an operation does that returns `c`. -/
structure Does (op : Op) (s : NewProcessBuf) (c : List UInt8) (s' : NewProcessBuf) : Prop where
  ready : Ready s'
  bufsize : s'.bufsize = s.bufsize
  sent : s'.sent = s.sent ++ puts [op]
  dropped : Syncs op s → c = [] ∧ s'.unread = s.pipes.fromChild
  kept : ¬ Syncs op s → c ++ s'.unread = s.unread

lemma step_put (h : s.sputc c = some s') : step (.put c) s = some ([], s') := by
  show (s.sputc c).map _ = _
  rw [h]
  rfl

lemma step_get {o : Option UInt8} (h : s.sbumpc = some (o, s')) :
    step .get s = some (o.toList, s') := by
  show s.sbumpc.map _ = _
  rw [h]
  rfl

lemma exists_put (hs : Ready s) :
    ∃ s', step (.put c) s = some ([], s') ∧ Does (.put c) s [] s' := by
  by_cases hroom : s.obuf.length < s.bufsize
  · have hput : s.sputc c = some { s with obuf := s.obuf ++ [c] } :=
      (if_pos hroom).trans (if_pos hroom)
    refine ⟨_, step_put hput, ⟨hs.room, ?_, hs.works⟩, rfl, ?_,
      fun h => absurd h (not_le.2 hroom), fun _ => rfl⟩
    · show (s.obuf ++ [c]).length ≤ s.bufsize
      rw [List.length_append, List.length_singleton]
      exact hroom
    · exact (List.append_assoc _ _ _).symm
  · have hfull := not_lt.1 hroom
    obtain ⟨s', hsync, hsize, hobuf, hibuf, hto, hfrom, hworks⟩ := exists_sync hs.works
    have hlen : s'.obuf.length < s'.bufsize := by
      rw [hobuf, hsize]
      exact hs.room
    have hput : s.sputc c = some { s' with obuf := s'.obuf ++ [c] } := by
      unfold sputc overflow
      rw [if_neg hroom, if_pos hfull, hsync]
      simp only
      rw [if_neg (by omega)]
      exact if_pos hlen
    refine ⟨_, step_put hput, ⟨hsize ▸ hs.room, ?_, hworks⟩, hsize,
      ?_, fun _ => ⟨rfl, ?_⟩, fun h => absurd hfull h⟩
    · show (s'.obuf ++ [c]).length ≤ s'.bufsize
      rw [List.length_append, List.length_singleton]
      exact hlen
    · show s'.pipes.toChild ++ (s'.obuf ++ [c]) = s.sent ++ [c]
      rw [hobuf, hto]
      rfl
    · show s'.ibuf ++ s'.pipes.fromChild = _
      rw [hibuf, hfrom, List.nil_append]

lemma exists_flush (hs : Ready s) : ∃ s', step .flush s = some ([], s') ∧ Does .flush s [] s' ∧
    s'.obuf = [] := by
  obtain ⟨s', hsync, hsize, hobuf, hibuf, hto, hfrom, hworks⟩ := exists_sync hs.works
  refine ⟨s', ?_, ⟨⟨hsize ▸ hs.room, ?_, hworks⟩, hsize, ?_, fun _ => ⟨rfl, ?_⟩,
    fun h => absurd trivial h⟩, hobuf⟩
  · show s.sync.1.map (fun _ => ([], s.sync.2)) = _
    rw [hsync]
    rfl
  · rw [hobuf]
    exact Nat.zero_le _
  · show s'.pipes.toChild ++ s'.obuf = s.sent ++ []
    rw [hobuf, hto]
  · show s'.ibuf ++ s'.pipes.fromChild = _
    rw [hibuf, hfrom, List.nil_append]

/-- A read gives the next bytes of the child, if there are any. -/
lemma exists_read {p : Pipes} (hp : Works p) {bufsize : ℕ} (hroom : 0 < bufsize) :
    ∃ (n : ℕ) (p' : Pipes), p.read bufsize = ((n : ℤ), p.fromChild.take n, p') ∧
      (n = 0 ↔ p.fromChild = []) ∧ p'.toChild = p.toChild ∧
      p'.fromChild = p.fromChild.drop n ∧ Works p' := by
  have hpos := hp.reads 0
  obtain ⟨n, hn⟩ : ∃ n : ℕ, min (p.reads 0) (min bufsize p.fromChild.length) = n :=
    ⟨(min (p.reads 0) (min bufsize p.fromChild.length)).toNat, by omega⟩
  refine ⟨n, { p with fromChild := p.fromChild.drop n, reads := fun k => p.reads (k + 1) },
    ?_, ?_, rfl, rfl, hp.writes, fun k => hp.reads (k + 1)⟩
  · unfold Pipes.read
    simp only [if_neg (not_lt.2 hpos.le), hn, Int.toNat_natCast]
  · rw [← List.length_eq_zero_iff]
    omega

/-- The next character of the get area. -/
lemma exists_get_of_cons {rest : List UInt8} (hs : Ready s) (hibuf : s.ibuf = c :: rest) :
    ∃ s', step .get s = some ([c], s') ∧ Does .get s [c] s' := by
  have hget : s.sbumpc = some (some c, { s with ibuf := rest }) := by
    unfold sbumpc underflow
    rw [hibuf]
    show some (some c, { s with ibuf := s.ibuf.drop 1 }) = _
    rw [hibuf]
    rfl
  refine ⟨_, step_get hget, ⟨⟨hs.room, hs.fits, hs.works⟩, rfl, (List.append_nil _).symm,
    fun h => absurd h id, fun _ => ?_⟩⟩
  show [c] ++ (rest ++ s.pipes.fromChild) = s.ibuf ++ s.pipes.fromChild
  rw [hibuf]
  rfl

/-- What a read into the empty get area leaves: the first character is the result of the get. -/
lemma does_get_of_read {p' : Pipes} {n : ℕ} {o : List UInt8} (hs : Ready s) (hibuf : s.ibuf = [])
    (hto : p'.toChild = s.pipes.toChild) (hfrom : p'.fromChild = s.pipes.fromChild.drop n)
    (hworks : Works p') {rest : List UInt8} (hsplit : s.pipes.fromChild.take n = o ++ rest) :
    Does .get s o { s with ibuf := rest, pipes := p' } := by
  refine ⟨⟨hs.room, hs.fits, hworks⟩, rfl, ?_, fun h => absurd h id, fun _ => ?_⟩
  · show p'.toChild ++ s.obuf = s.sent ++ []
    rw [hto, List.append_nil]
    rfl
  · show o ++ (rest ++ p'.fromChild) = s.ibuf ++ s.pipes.fromChild
    rw [hibuf, List.nil_append, ← List.append_assoc, ← hsplit, hfrom, List.take_append_drop]

lemma exists_get_of_nil (hs : Ready s) (hibuf : s.ibuf = []) :
    ∃ c s', step .get s = some (c, s') ∧ Does .get s c s' ∧ (s.unread ≠ [] → c.length = 1) := by
  obtain ⟨n, p', hread, hzero, hto, hfrom, hworks⟩ := exists_read hs.works hs.room
  have hunread : s.unread = s.pipes.fromChild := by
    unfold unread
    rw [hibuf, List.nil_append]
  by_cases hn : n = 0
  · have hnil := hzero.1 hn
    have hget : s.sbumpc = some (none, { s with ibuf := [], pipes := p' }) := by
      unfold sbumpc underflow
      simp only [hibuf]
      rw [hread, if_pos (by omega)]
      rfl
    have hsplit : s.pipes.fromChild.take n = [] ++ [] := by rw [hnil, List.take_nil]; rfl
    exact ⟨[], _, step_get hget, does_get_of_read hs hibuf hto hfrom hworks hsplit,
      fun hne => absurd (hunread.trans hnil) hne⟩
  · obtain ⟨c, rest, hcons⟩ := List.exists_cons_of_ne_nil (fun hnil => hn (hzero.2 hnil))
    obtain ⟨m, rfl⟩ := Nat.exists_eq_succ_of_ne_zero hn
    have htake : s.pipes.fromChild.take (m + 1) = c :: rest.take m := by
      rw [hcons, List.take_succ_cons]
    have hget : s.sbumpc = some (some c, { s with ibuf := rest.take m, pipes := p' }) := by
      unfold sbumpc underflow
      rw [hibuf]
      simp only
      rw [hread, if_neg (by omega), if_neg (by omega), htake]
      rfl
    exact ⟨[c], _, step_get hget, does_get_of_read hs hibuf hto hfrom hworks htake, fun _ => rfl⟩

lemma exists_get (hs : Ready s) : ∃ c s', step .get s = some (c, s') ∧ Does .get s c s' ∧
    (s.unread ≠ [] → c.length = 1) := by
  cases hibuf : s.ibuf with
  | cons c rest =>
      obtain ⟨s', hstep, hdoes⟩ := exists_get_of_cons hs hibuf
      exact ⟨[c], s', hstep, hdoes, fun _ => rfl⟩
  | nil => exact exists_get_of_nil hs hibuf

/-! ## Runs -/

lemma run_append (ops ops' : List Op) (s : NewProcessBuf) : run (ops ++ ops') s =
    (run ops s).bind (fun r => (run ops' r.2).map (fun r' => (r.1 ++ r'.1, r'.2))) := by
  induction ops generalizing s with
  | nil =>
      show run ops' s = (run ops' s).map (fun r => ([] ++ r.1, r.2))
      exact (congrFun Option.map_id (run ops' s)).symm
  | cons op ops ih =>
      show (step op s).bind (fun r => (run (ops ++ ops') r.2).bind _) =
        ((step op s).bind (fun r => (run ops r.2).bind _)).bind _
      rw [Option.bind_assoc]
      refine Option.bind_congr (fun r _ => ?_)
      rw [ih, Option.bind_assoc, Option.bind_assoc]
      refine Option.bind_congr (fun r' _ => ?_)
      rw [Option.bind_map, Option.bind_some, Option.map_eq_bind]
      refine Option.bind_congr (fun r'' _ => ?_)
      exact congrArg some (Prod.ext (List.append_assoc _ _ _).symm rfl)

lemma run_cons {op : Op} {ops : List Op} {c cs : List UInt8} {s'' : NewProcessBuf}
    (hstep : step op s = some (c, s')) (hrun : run ops s' = some (cs, s'')) :
    run (op :: ops) s = some (c ++ cs, s'') := by
  unfold run
  rw [hstep]
  show (run ops s').bind _ = _
  rw [hrun]
  rfl

lemma exists_step (op : Op) (hs : Ready s) : ∃ c s', step op s = some (c, s') ∧ Does op s c s' := by
  cases op with
  | put c =>
      obtain ⟨s', hstep, hdoes⟩ := exists_put hs
      exact ⟨[], s', hstep, hdoes⟩
  | flush =>
      obtain ⟨s', hstep, hdoes, -⟩ := exists_flush hs
      exact ⟨[], s', hstep, hdoes⟩
  | get =>
      obtain ⟨c, s', hstep, hdoes, -⟩ := exists_get hs
      exact ⟨c, s', hstep, hdoes⟩

lemma keepsInput_cons {op : Op} {ops : List Op} {c : List UInt8}
    (hstep : step op s = some (c, s')) :
    KeepsInput (op :: ops) s ↔ (Syncs op s → s.ibuf = []) ∧ KeepsInput ops s' := by
  refine and_congr_right (fun _ => ⟨fun h => h c s' hstep, fun h c' s'' hstep' => ?_⟩)
  rw [hstep] at hstep'
  rw [← (Prod.mk.inj (Option.some.inj hstep')).2]
  exact h

/-- An operation keeps the input if it does not `sync` or has nothing to drop. -/
lemma Does.kept_of_imp {op : Op} {c : List UInt8} (h : Does op s c s')
    (hkeeps : Syncs op s → s.ibuf = []) : c ++ s'.unread = s.unread := by
  by_cases hsyncs : Syncs op s
  · obtain ⟨hc, hunread⟩ := h.dropped hsyncs
    rw [hc, hunread]
    unfold unread
    rw [hkeeps hsyncs]
  · exact h.kept hsyncs

lemma Does.length_lt {op : Op} {c : List UInt8} (h : Does op s c s')
    (hdrops : ¬ (Syncs op s → s.ibuf = [])) : c.length + s'.unread.length < s.unread.length := by
  obtain ⟨hsyncs, hibuf⟩ := Classical.not_imp.1 hdrops
  obtain ⟨hc, hunread⟩ := h.dropped hsyncs
  have hpos := List.length_pos_iff.2 hibuf
  rw [hc, hunread]
  unfold unread
  rw [List.length_append, List.length_nil]
  omega

/-- A run: what it puts is sent or waits to be; and what it gets and what is left to get is what
there was, unless `sync` dropped something. -/
lemma exists_run (ops : List Op) (hs : Ready s) : ∃ got s', run ops s = some (got, s') ∧ Ready s' ∧
    s'.sent = s.sent ++ puts ops ∧ (KeepsInput ops s → got ++ s'.unread = s.unread) ∧
    (¬ KeepsInput ops s → (got ++ s'.unread).length < s.unread.length) := by
  induction ops generalizing s with
  | nil =>
      exact ⟨[], s, rfl, hs, (List.append_nil _).symm, fun _ => rfl, fun h => absurd trivial h⟩
  | cons op ops ih =>
      obtain ⟨c, s₁, hstep, hdoes⟩ := exists_step op hs
      obtain ⟨got, s', hrun, hready, hsent, hkept, hlost⟩ := ih hdoes.ready
      refine ⟨c ++ got, s', run_cons hstep hrun, hready, ?_, ?_, ?_⟩
      · rw [hsent, hdoes.sent, List.append_assoc, ← puts_append]
        rfl
      · rw [keepsInput_cons hstep]
        rintro ⟨hfirst, hrest⟩
        rw [List.append_assoc, hkept hrest]
        exact hdoes.kept_of_imp hfirst
      · rw [keepsInput_cons hstep, List.append_assoc, List.length_append]
        intro h
        have hle : (got ++ s'.unread).length ≤ s₁.unread.length := by
          by_cases hrest : KeepsInput ops s₁
          · exact (congrArg List.length (hkept hrest)).le
          · exact (hlost hrest).le
        by_cases hfirst : Syncs op s → s.ibuf = []
        · have hless := hlost (fun hrest => h ⟨hfirst, hrest⟩)
          have hown : s.unread.length = c.length + s₁.unread.length := by
            rw [← hdoes.kept_of_imp hfirst, List.length_append]
          omega
        · have hless := hdoes.length_lt hfirst
          omega

/-- Enough gets return everything that is left. -/
lemma run_gets (n : ℕ) (hs : Ready s) (hn : s.unread.length ≤ n) :
    ∃ s', run (List.replicate n .get) s = some (s.unread, s') := by
  induction n generalizing s with
  | zero =>
      rw [List.eq_nil_of_length_eq_zero (Nat.le_zero.1 hn)]
      exact ⟨s, rfl⟩
  | succ n ih =>
      obtain ⟨c, s₁, hstep, hdoes, hone⟩ := exists_get hs
      have hkept := hdoes.kept id
      have hlen : s₁.unread.length ≤ n := by
        have htotal := congrArg List.length hkept
        rw [List.length_append] at htotal
        by_cases hne : s.unread = []
        · rw [hne, List.length_nil] at htotal
          omega
        · have := hone hne
          omega
      obtain ⟨s', hrun⟩ := ih hdoes.ready hlen
      exact ⟨s', hkept ▸ run_cons hstep hrun⟩

/-! ## A buffer of size zero -/

/-- Nothing fits in the areas. -/
structure Unbuffered (s : NewProcessBuf) : Prop where
  bufsize : s.bufsize = 0
  obuf : s.obuf = []
  ibuf : s.ibuf = []
  reads : ∀ n, 0 < s.pipes.reads n

/-- A character that is put is stored outside the buffer; the other operations do nothing. -/
lemma Unbuffered.step (hs : Unbuffered s) (op : Op) : puts [op] ≠ [] ∧ step op s = none ∨
    puts [op] = [] ∧ ∃ s', step op s = some ([], s') ∧ Unbuffered s' ∧
      s'.pipes.toChild = s.pipes.toChild := by
  have hobuf := hs.obuf
  have hfull : ¬ s.obuf.length < s.bufsize := by
    rw [hs.bufsize]
    exact Nat.not_lt_zero _
  have hsync : s.sync = (some 0, { s with ibuf := [] }) := if_pos hobuf
  cases op with
  | put c =>
      refine Or.inl ⟨List.cons_ne_nil _ _, ?_⟩
      have hput : s.sputc c = none := by
        unfold sputc overflow
        rw [if_neg hfull, if_pos (not_lt.1 hfull), hsync]
        exact if_neg hfull
      show (s.sputc c).map _ = none
      rw [hput]
      rfl
  | flush =>
      refine Or.inr ⟨rfl, { s with ibuf := [] }, ?_, ⟨hs.bufsize, hobuf, rfl, hs.reads⟩, rfl⟩
      show s.sync.1.map (fun _ => ([], s.sync.2)) = _
      rw [hsync]
      rfl
  | get =>
      have hpos := hs.reads 0
      have hread : (s.pipes.read s.bufsize).1 = 0 := by
        unfold Pipes.read
        simp only [if_neg (not_lt.2 hpos.le)]
        rw [hs.bufsize]
        omega
      have hget : s.sbumpc =
          some (none, { s with ibuf := [], pipes := (s.pipes.read s.bufsize).2.2 }) := by
        unfold sbumpc underflow
        simp only [hs.ibuf]
        rw [if_pos hread]
        rfl
      exact Or.inr ⟨rfl, _, step_get hget,
        ⟨hs.bufsize, hobuf, rfl, fun n => hs.reads (n + 1)⟩, rfl⟩

lemma Unbuffered.run (hs : Unbuffered s) (ops : List Op) : puts ops ≠ [] ∧ run ops s = none ∨
    puts ops = [] ∧ ∃ s', run ops s = some ([], s') ∧ s'.pipes.toChild = s.pipes.toChild := by
  induction ops generalizing s with
  | nil => exact Or.inr ⟨rfl, s, rfl, rfl⟩
  | cons op ops ih =>
      have hputs : puts (op :: ops) = puts [op] ++ puts ops := puts_append [op] ops
      rw [hputs, ne_eq, List.append_eq_nil_iff]
      rcases hs.step op with ⟨hput, hstep⟩ | ⟨hput, s₁, hstep, hs₁, hto⟩
      · refine Or.inl ⟨fun h => hput h.1, ?_⟩
        unfold NewProcessBuf.run
        rw [hstep]
        rfl
      · rcases ih hs₁ with ⟨hrest, hrun⟩ | ⟨hrest, s', hrun, hto'⟩
        · refine Or.inl ⟨fun h => hrest h.2, ?_⟩
          unfold NewProcessBuf.run
          rw [hstep]
          show (NewProcessBuf.run ops s₁).bind _ = none
          rw [hrun]
          rfl
        · exact Or.inr ⟨⟨hput, hrest⟩, s', run_cons hstep hrun, hto'.trans hto⟩

lemma Unbuffered.keepsInput (hs : Unbuffered s) (ops : List Op) : KeepsInput ops s := by
  induction ops generalizing s with
  | nil => trivial
  | cons op ops ih =>
      refine ⟨fun _ => hs.ibuf, fun c s₁' hstep' => ?_⟩
      rcases hs.step op with ⟨-, hstep⟩ | ⟨-, s₁, hstep, hs₁, -⟩
      · rw [hstep] at hstep'
        exact absurd hstep' (Option.some_ne_none _).symm
      · rw [hstep] at hstep'
        rw [← (Prod.mk.inj (Option.some.inj hstep')).2]
        exact ih hs₁

end NewProcessBuf

/-! ## Sessions -/

open NewProcessBuf

/-- A session with a child process: what the child writes, what `::write` and `::read` return at
most, and what is done with the stream. -/
structure Session where
  bufsize : ℕ
  childOut : List UInt8
  writes : ℕ → ℤ
  reads : ℕ → ℤ
  writes_pos : ∀ n, 0 < writes n
  reads_pos : ∀ n, 0 < reads n
  ops : List Op

namespace Session

def pipes (x : Session) : Pipes where
  toChild := []
  fromChild := x.childOut
  writes := x.writes
  reads := x.reads

/-- The buffer after `initBuffers` and `open`. -/
def start (x : Session) : NewProcessBuf where
  bufsize := x.bufsize
  obuf := []
  ibuf := []
  pipes := x.pipes

/-- After a flush everything that was put is in the pipe; and with enough gets everything the child
writes is returned. -/
structure Lossless (x : Session) : Prop where
  written : ∀ pre, pre <+: x.ops → ∃ got s, run (pre ++ [.flush]) x.start = some (got, s) ∧
    s.pipes.toChild = puts pre
  returned : ∀ n, x.childOut.length ≤ n →
    ∃ s, run (x.ops ++ List.replicate n .get) x.start = some (x.childOut, s)

lemma ready_start (x : Session) (hroom : 0 < x.bufsize) : Ready x.start :=
  ⟨hroom, Nat.zero_le _, x.writes_pos, x.reads_pos⟩

lemma unbuffered_start (x : Session) (hzero : x.bufsize = 0) : Unbuffered x.start :=
  ⟨hzero, rfl, rfl, x.reads_pos⟩

lemma puts_gets (n : ℕ) : puts (List.replicate n .get) = [] := by
  induction n with
  | zero => rfl
  | succ n ih => exact ih

lemma written_of_room (x : Session) (hroom : 0 < x.bufsize) (pre : List Op) :
    ∃ got s, run (pre ++ [.flush]) x.start = some (got, s) ∧ s.pipes.toChild = puts pre := by
  obtain ⟨got, s, hrun, hready, hsent, -⟩ := exists_run pre (x.ready_start hroom)
  obtain ⟨s', hflush, hdoes, hobuf⟩ := exists_flush hready
  refine ⟨got ++ [], s', ?_, ?_⟩
  · rw [run_append, hrun]
    show (run [.flush] s).map _ = _
    rw [run_cons hflush rfl]
    rfl
  · have hall := hdoes.sent
    unfold sent at hall
    rw [hobuf, List.append_nil] at hall
    rw [hall]
    show s.sent ++ [] = _
    rw [List.append_nil, hsent]
    rfl

lemma run_to_end (x : Session) (hroom : 0 < x.bufsize) : ∃ out : List UInt8,
    (∀ n, x.childOut.length ≤ n →
      ∃ s, run (x.ops ++ List.replicate n .get) x.start = some (out, s)) ∧
    (out = x.childOut ↔ KeepsInput x.ops x.start) := by
  obtain ⟨got, s, hrun, hready, -, hkept, hlost⟩ := exists_run x.ops (x.ready_start hroom)
  have hall : x.start.unread = x.childOut := rfl
  rw [hall] at hkept hlost
  refine ⟨got ++ s.unread, fun n hn => ?_, fun hout => ?_, hkept⟩
  · have hle : (got ++ s.unread).length ≤ x.childOut.length := by
      by_cases hkeeps : KeepsInput x.ops x.start
      · exact (congrArg List.length (hkept hkeeps)).le
      · exact (hlost hkeeps).le
    rw [List.length_append] at hle
    obtain ⟨s', hgets⟩ := run_gets n hready (by omega)
    refine ⟨s', ?_⟩
    rw [run_append, hrun]
    show (run (List.replicate n .get) s).map _ = _
    rw [hgets]
    rfl
  · by_contra hkeeps
    exact (hlost hkeeps).ne (congrArg List.length hout)

/-- Nothing is lost exactly when all that was read has been taken whenever `sync` is called, and the
buffer has room for what there is.  A flush in between drops the characters of the buffer that were
read from the process and not taken yet. -/
theorem lossless_iff (x : Session) : x.Lossless ↔
    (x.bufsize = 0 → puts x.ops = [] ∧ x.childOut = []) ∧ KeepsInput x.ops x.start := by
  rcases Nat.eq_zero_or_pos x.bufsize with hzero | hroom
  · have hstart := x.unbuffered_start hzero
    constructor
    · intro h
      refine ⟨fun _ => ?_, hstart.keepsInput x.ops⟩
      obtain ⟨s, hreturned⟩ := h.returned _ le_rfl
      rcases hstart.run (x.ops ++ List.replicate x.childOut.length .get) with
        ⟨-, hrun⟩ | ⟨hputs, s', hrun, -⟩
      · rw [hrun] at hreturned
        exact absurd hreturned (Option.some_ne_none _).symm
      · rw [puts_append, puts_gets, List.append_nil] at hputs
        rw [hrun] at hreturned
        exact ⟨hputs, (Prod.mk.inj (Option.some.inj hreturned)).1.symm⟩
    · rintro ⟨hnothing, -⟩
      obtain ⟨hputs, hout⟩ := hnothing hzero
      refine ⟨fun pre hpre => ?_, fun n _ => ?_⟩
      · have hpre_puts : puts pre = [] := by
          obtain ⟨post, hpost⟩ := hpre
          rw [← hpost, puts_append, List.append_eq_nil_iff] at hputs
          exact hputs.1
        rcases hstart.run (pre ++ [.flush]) with ⟨hne, -⟩ | ⟨-, s, hrun, hto⟩
        · rw [puts_append, hpre_puts] at hne
          exact absurd rfl hne
        · exact ⟨[], s, hrun, hto.trans hpre_puts.symm⟩
      · rcases hstart.run (x.ops ++ List.replicate n .get) with ⟨hne, -⟩ | ⟨-, s, hrun, -⟩
        · rw [puts_append, puts_gets, hputs] at hne
          exact absurd rfl hne
        · rw [hout]
          exact ⟨s, hrun⟩
  · obtain ⟨out, hreturned, hout⟩ := x.run_to_end hroom
    constructor
    · intro h
      refine ⟨fun hzero => absurd hzero hroom.ne', hout.1 ?_⟩
      obtain ⟨s, hrun⟩ := h.returned _ le_rfl
      obtain ⟨s', hrun'⟩ := hreturned _ le_rfl
      rw [hrun] at hrun'
      exact (Prod.mk.inj (Option.some.inj hrun')).1.symm
    · rintro ⟨-, hkeeps⟩
      refine ⟨fun pre _ => x.written_of_room hroom pre, fun n hn => ?_⟩
      rw [← hout.2 hkeeps]
      exact hreturned n ((congrArg List.length (hout.2 hkeeps)).symm ▸ hn)

/-- The child writes two characters, and the first `get` reads both.  The flush drops the second,
and the next `get` is at the end of file. -/
theorem flush_loses_input : ¬ ∀ x : Session, x.Lossless := by
  intro h
  have hlossless := h
    { bufsize := 256
      childOut := [97, 98]
      writes := fun _ => 256
      reads := fun _ => 256
      writes_pos := fun _ => by decide
      reads_pos := fun _ => by decide
      ops := [.get, .flush] }
  obtain ⟨s, hrun⟩ := hlossless.returned 2 le_rfl
  have hgot : _ = some ([97, 98] : List UInt8) := congrArg (Option.map Prod.fst) hrun
  revert hgot
  decide +kernel

end Session

end Dmcs
