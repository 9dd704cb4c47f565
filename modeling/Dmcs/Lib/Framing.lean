import Dmcs.Lib.Channel

/-!
# Frames on a byte stream

A value is written as a frame: a header of fixed length that tells the size of what follows, and
the value's bytes.  A header can only tell sizes up to some bound; the sender skips a value that is
too large.  The stream hands over its bytes in pieces of any size.  The receiver waits for as many
bytes as a header has, then for as many as the header says, and so on.

A link of bytes refines a channel that carries the values themselves (`Refines`, `simulates_step`),
as long as the receiver can read each value when it comes.  So a session is judged here, too, by one
fold over the values: if the fold succeeds, every run ends, in the state the fold gives
(`exists_refines_of_run`, `Refines.eq_of_stuck`, `not_infinite`).

## The simulation

`Refines` relates a link of bytes to a link of values: the bytes that are on their way or arrived,
read from what the receiver waits for on, are those of the values on their way (`Comes`).  Writing a
value and completing the data of a frame are steps of the channel; the arrival of bytes, the
rejection of a value that is too large and the completion of a header are none.
-/

namespace Framing

/-- How values become frames: `header` and `size` are the two directions for a header. -/
structure Format (B T : Type*) where
  headerLength : ℕ
  header : ℕ → Option (List B)
  size : List B → Option ℕ
  archive : T → List B

/-- What is written in a header can be read. -/
structure Format.Lawful {B T : Type*} (F : Format B T) : Prop where
  headerLength_pos : 0 < F.headerLength
  length_header : ∀ {n h}, F.header n = some h → h.length = F.headerLength
  size_header : ∀ {n h}, F.header n = some h → F.size h = some n

/-- What the receiver waits for. -/
inductive Reading
  | header
  | data (size : ℕ)
  | failed
  deriving DecidableEq

/-- Values to write, bytes on their way, bytes that the receiver has not looked at, and the
receiver. -/
structure Link (B T R : Type*) where
  toWrite : List T
  wire : List B
  arrived : List B
  reading : Reading
  receiver : R

section

variable {B T R : Type*}

/-- Nothing was written yet. -/
def Link.start (ts : List T) (r : R) : Link B T R := ⟨ts, [], [], .header, r⟩

/-- Everything was written and read. -/
def Link.done (r : R) : Link B T R := ⟨[], [], [], .header, r⟩

variable (F : Format B T) (readData : R → List B → Option R)

def Format.frame (t : T) : Option (List B) :=
  (F.header (F.archive t).length).map (fun h => h ++ F.archive t)

/-- The read that is under way, if it can be completed. -/
def Link.complete (l : Link B T R) : Option (Link B T R) :=
  match l.reading with
  | .header =>
      if F.headerLength ≤ l.arrived.length then
        some { l with
          arrived := l.arrived.drop F.headerLength
          reading := match F.size (l.arrived.take F.headerLength) with
            | some n => .data n
            | none => .failed }
      else none
  | .data n =>
      if n ≤ l.arrived.length then
        some (match readData l.receiver (l.arrived.take n) with
          | some r => { l with arrived := l.arrived.drop n, reading := .header, receiver := r }
          | none => { l with arrived := l.arrived.drop n, reading := .failed })
      else none
  | .failed => none

inductive Step : Link B T R → Link B T R → Prop
  | write {t : T} {toWrite : List T} {l : Link B T R} {f : List B} (ht : l.toWrite = t :: toWrite)
      (hf : F.frame t = some f) : Step l { l with toWrite := toWrite, wire := l.wire ++ f }
  | reject {t : T} {toWrite : List T} {l : Link B T R} (ht : l.toWrite = t :: toWrite)
      (hf : F.frame t = none) : Step l { l with toWrite := toWrite }
  | arrive {l : Link B T R} {n : ℕ} (hn : 0 < n) (h : n ≤ l.wire.length) :
      Step l { l with wire := l.wire.drop n, arrived := l.arrived ++ l.wire.take n }
  | complete {l l' : Link B T R} (h : l.complete F readData = some l') : Step l l'

/-- The values that are not too large. -/
def Format.accepted (ts : List T) : List T := ts.filter (fun t => (F.frame t).isSome)

/-- The bytes of frames. -/
def Format.stream (ts : List T) : List B := ts.flatMap (fun t => (F.frame t).getD [])

/-- The bytes to come are those of the values `ts`, from what the receiver waits for on. -/
def Comes : Reading → List B → List T → Prop
  | .header, bytes, ts => bytes = F.stream ts
  | .data n, bytes, ts => ∃ t ts', ts = t :: ts' ∧ n = (F.archive t).length ∧
      bytes = F.archive t ++ F.stream ts'
  | .failed, _, _ => False

/-- A link of bytes stands for a link of values. -/
structure Refines (l : Link B T R) (c : Channel.Link T R) : Prop where
  toWrite : c.toWrite = F.accepted l.toWrite
  fits : ∀ t ∈ c.wire, F.frame t ≠ none
  comes : Comes F l.reading (l.arrived ++ l.wire) c.wire
  receiver : c.receiver = l.receiver

end

variable {B T R : Type*} {F : Format B T} {readData : R → List B → Option R}
  {read : R → T → Option R} {l l' : Link B T R} {c : Channel.Link T R} {r : R}

lemma stream_append (ts ts' : List T) : F.stream (ts ++ ts') = F.stream ts ++ F.stream ts' :=
  List.flatMap_append

lemma stream_cons {t : T} {h : List B} (hh : F.header (F.archive t).length = some h)
    (ts : List T) : F.stream (t :: ts) = h ++ (F.archive t ++ F.stream ts) := by
  have hframe : F.frame t = some (h ++ F.archive t) := by rw [Format.frame, hh]; rfl
  rw [Format.stream, List.flatMap_cons, hframe, Option.getD_some, List.append_assoc]
  rfl

lemma exists_header {t : T} (h : F.frame t ≠ none) :
    ∃ hd, F.header (F.archive t).length = some hd := by
  cases hhd : F.header (F.archive t).length with
  | none => exact absurd (by rw [Format.frame, hhd]; rfl) h
  | some hd => exact ⟨hd, rfl⟩

lemma Comes.append {reading : Reading} {bytes bytes' : List B} {ts ts' : List T}
    (h : Comes F reading bytes ts) (h' : bytes' = F.stream ts') :
    Comes F reading (bytes ++ bytes') (ts ++ ts') := by
  cases reading with
  | header =>
      show _ = _
      rw [stream_append, ← h', show bytes = F.stream ts from h]
  | data n =>
      obtain ⟨t, ts₁, rfl, hn, rfl⟩ := h
      exact ⟨t, ts₁ ++ ts', rfl, hn, by rw [stream_append, List.append_assoc, h']⟩
  | failed => exact h.elim

/-- The first bytes that arrived are the first of those to come. -/
lemma take_arrived {bytes bytes' : List B} {n : ℕ} (hn : bytes.length = n)
    (hle : n ≤ l.arrived.length) (h : l.arrived ++ l.wire = bytes ++ bytes') :
    l.arrived.take n = bytes ∧ l.arrived.drop n ++ l.wire = bytes' := by
  have htake := congrArg (List.take n) h
  have hdrop := congrArg (List.drop n) h
  rw [List.take_append_of_le_length hle, ← hn, List.take_left] at htake
  rw [List.drop_append_of_le_length hle, ← hn, List.drop_left] at hdrop
  rw [← hn]
  exact ⟨htake, hdrop⟩

/-! ## Each step is one of the channel, or none -/

lemma refines_start (ts : List T) (r : R) :
    Refines F (Link.start ts r) ⟨F.accepted ts, [], r⟩ :=
  ⟨rfl, fun _ ht => absurd ht List.not_mem_nil, rfl, rfl⟩

/-- A value that is accepted goes behind those on their way. -/
lemma Refines.write {t : T} {toWrite : List T} {f : List B} (h : Refines F l c)
    (ht : l.toWrite = t :: toWrite) (hf : F.frame t = some f) :
    ∃ c', Channel.Step read c c' ∧
      Refines F { l with toWrite := toWrite, wire := l.wire ++ f } c' := by
  have hfirst : c.toWrite = t :: F.accepted toWrite := by
    rw [h.toWrite, ht, Format.accepted, List.filter_cons_of_pos (by rw [hf]; rfl)]
    rfl
  have hstream : f = F.stream [t] := by
    rw [Format.stream, List.flatMap_singleton, hf]
    rfl
  obtain ⟨cs, wire, r⟩ := c
  obtain rfl : cs = t :: F.accepted toWrite := hfirst
  refine ⟨_, Channel.Step.write _ _ _ _, rfl, fun t' ht' => ?_, ?_, h.receiver⟩
  · rcases List.mem_append.mp ht' with ht' | ht'
    · exact h.fits t' ht'
    · rw [List.mem_singleton.mp ht', hf]
      exact Option.some_ne_none f
  · show Comes F l.reading (l.arrived ++ (l.wire ++ f)) _
    rw [← List.append_assoc]
    exact h.comes.append hstream

lemma Refines.reject {t : T} {toWrite : List T} (h : Refines F l c)
    (ht : l.toWrite = t :: toWrite) (hf : F.frame t = none) :
    Refines F { l with toWrite := toWrite } c := by
  refine ⟨?_, h.fits, h.comes, h.receiver⟩
  rw [h.toWrite, ht, Format.accepted,
    List.filter_cons_of_neg (by rw [hf]; exact Bool.false_ne_true)]
  rfl

lemma Refines.arrive (h : Refines F l c) (n : ℕ) :
    Refines F { l with wire := l.wire.drop n, arrived := l.arrived ++ l.wire.take n } c := by
  refine ⟨h.toWrite, h.fits, ?_, h.receiver⟩
  show Comes F l.reading (l.arrived ++ l.wire.take n ++ l.wire.drop n) c.wire
  rw [List.append_assoc, List.take_append_drop]
  exact h.comes

/-- A header is what is at the front of the frame that comes next. -/
lemma Refines.complete_header (hF : F.Lawful) (h : Refines F l c) (hreading : l.reading = .header)
    (hl : l.complete F readData = some l') : Refines F l' c := by
  have hcomes := h.comes
  rw [Link.complete, hreading] at hl
  rw [hreading] at hcomes
  dsimp only at hl
  split_ifs at hl with hlen
  obtain rfl := Option.some.inj hl
  refine ⟨h.toWrite, h.fits, ?_, h.receiver⟩
  cases hwire : c.wire with
  | nil =>
      rw [hwire] at hcomes
      have hnil : l.arrived = [] := (List.append_eq_nil_iff.mp hcomes).1
      rw [hnil, List.length_nil] at hlen
      exact absurd hF.headerLength_pos (by omega)
  | cons t ts =>
      obtain ⟨hd, hhd⟩ := exists_header (h.fits t (by rw [hwire]; exact List.mem_cons_self))
      rw [hwire, Comes, stream_cons hhd] at hcomes
      obtain ⟨htake, hdrop⟩ := take_arrived (hF.length_header hhd) hlen hcomes
      rw [htake, hF.size_header hhd]
      exact ⟨t, ts, rfl, rfl, hdrop⟩

/-- The data behind a header is one value, and the receiver takes it. -/
lemma Refines.complete_data
    (hread : ∀ r t r', read r t = some r' → readData r (F.archive t) = some r')
    (h : Refines F l c) (hout : Channel.outcome read c = some r) {n : ℕ}
    (hreading : l.reading = .data n)
    (hl : l.complete F readData = some l') : ∃ c', Channel.Step read c c' ∧ Refines F l' c' := by
  have hcomes := h.comes
  have hfits := h.fits
  rw [Link.complete, hreading] at hl
  rw [hreading] at hcomes
  obtain ⟨t, ts, hwire, hn, hbytes⟩ := hcomes
  dsimp only at hl
  split_ifs at hl with hlen
  obtain ⟨htake, hdrop⟩ := take_arrived hn.symm hlen hbytes
  rw [htake] at hl
  obtain ⟨toWrite, wire, receiver⟩ := c
  obtain rfl : wire = t :: ts := hwire
  cases hr : read receiver t with
  | none =>
      rw [Channel.outcome, List.cons_append, List.foldlM_cons, hr] at hout
      cases hout
  | some r' =>
      rw [← h.receiver, hread _ _ _ hr] at hl
      obtain rfl := Option.some.inj hl
      exact ⟨_, Channel.Step.read toWrite ts hr, h.toWrite,
        fun t' ht' => hfits t' (List.mem_cons_of_mem _ ht'), hdrop, rfl⟩

section Runs

variable (hF : F.Lawful)
  (hread : ∀ r t r', read r t = some r' → readData r (F.archive t) = some r')

include hF hread

/-- The channel follows each step. -/
theorem simulates_step (h : Refines F l c) (hout : Channel.outcome read c = some r)
    (hstep : Step F readData l l') :
    ∃ c', Relation.ReflTransGen (Channel.Step read) c c' ∧ Refines F l' c' := by
  cases hstep with
  | write ht hf =>
      obtain ⟨c', hc', h'⟩ := h.write ht hf
      exact ⟨c', .single hc', h'⟩
  | reject ht hf => exact ⟨c, .refl, h.reject ht hf⟩
  | arrive hn hle => exact ⟨c, .refl, h.arrive _⟩
  | complete hl =>
      cases hreading : l.reading with
      | header => exact ⟨c, .refl, h.complete_header hF hreading hl⟩
      | data n =>
          obtain ⟨c', hc', h'⟩ := h.complete_data hread hout hreading hl
          exact ⟨c', .single hc', h'⟩
      | failed =>
          rw [Link.complete, hreading] at hl
          cases hl

/-- The channel follows each run. -/
theorem exists_refines_of_run (h : Refines F l c) (hout : Channel.outcome read c = some r)
    (hrun : Relation.ReflTransGen (Step F readData) l l') :
    ∃ c', Relation.ReflTransGen (Channel.Step read) c c' ∧ Refines F l' c' := by
  induction hrun with
  | refl => exact ⟨c, .refl, h⟩
  | tail _ hstep ih =>
      obtain ⟨c₁, hrun₁, h₁⟩ := ih
      obtain ⟨c₂, hrun₂, h₂⟩ :=
        simulates_step hF hread h₁ ((Channel.outcome_run hrun₁).trans hout) hstep
      exact ⟨c₂, hrun₁.trans hrun₂, h₂⟩

omit hread in
/-- When nothing can be done, everything was delivered. -/
theorem Refines.eq_of_stuck (h : Refines F l c) (hout : Channel.outcome read c = some r)
    (hstuck : ∀ l', ¬ Step F readData l l') : l = Link.done r := by
  -- the writer is done, the wire is empty, and no read completes
  have htoWrite : l.toWrite = [] := by
    cases ht : l.toWrite with
    | nil => rfl
    | cons t toWrite =>
        cases hf : F.frame t with
        | none => exact absurd (Step.reject ht hf) (hstuck _)
        | some f => exact absurd (Step.write ht hf) (hstuck _)
  have hwire : l.wire = [] := by
    by_contra hne
    exact hstuck _ (Step.arrive Nat.one_pos (List.length_pos_iff.mpr hne))
  have hidle : l.complete F readData = none := by
    cases hcomplete : l.complete F readData with
    | none => rfl
    | some l'' => exact absurd (Step.complete hcomplete) (hstuck l'')
  have hcomes := h.comes
  rw [hwire, List.append_nil] at hcomes
  rw [Link.complete] at hidle
  -- a header or data that has arrived completes a read, so only an empty wire is left
  cases hreading : l.reading with
  | header =>
      rw [hreading] at hcomes hidle
      cases hc : c.wire with
      | nil =>
          have harrived : l.arrived = [] := by
            rw [hc] at hcomes
            exact hcomes
          have hreceiver : some c.receiver = some r := by
            rw [← hout, Channel.outcome, hc, h.toWrite, htoWrite]
            rfl
          obtain ⟨toWrite, wire, arrived, reading, receiver⟩ := l
          obtain rfl : toWrite = [] := htoWrite
          obtain rfl : wire = [] := hwire
          obtain rfl : arrived = [] := harrived
          obtain rfl : reading = .header := hreading
          obtain rfl : receiver = r := h.receiver.symm.trans (Option.some.inj hreceiver)
          rfl
      | cons t ts =>
          obtain ⟨hd, hhd⟩ := exists_header (h.fits t (by rw [hc]; exact List.mem_cons_self))
          rw [hc, Comes, stream_cons hhd] at hcomes
          have hlen : F.headerLength ≤ l.arrived.length := by
            rw [hcomes, List.length_append, hF.length_header hhd]
            exact Nat.le_add_right _ _
          dsimp only at hidle
          rw [if_pos hlen] at hidle
          exact absurd hidle (Option.some_ne_none _)
  | data n =>
      rw [hreading] at hcomes hidle
      obtain ⟨t, ts, -, rfl, hbytes⟩ := hcomes
      have hlen : (F.archive t).length ≤ l.arrived.length := by
        rw [hbytes, List.length_append]
        exact Nat.le_add_right _ _
      dsimp only at hidle
      rw [if_pos hlen] at hidle
      exact absurd hidle (Option.some_ne_none _)
  | failed =>
      rw [hreading] at hcomes
      exact hcomes.elim

end Runs

lemma Refines.not_failed (h : Refines F l c) : l.reading ≠ .failed := by
  intro hfailed
  have hcomes := h.comes
  rw [hfailed] at hcomes
  exact hcomes

/-! ## Runs end -/

/-- A byte is written once, arrives once and is read once; a value may have no bytes at all. -/
def Link.work (F : Format B T) (l : Link B T R) : ℕ :=
  4 * (F.stream l.toWrite).length + l.toWrite.length + 3 * l.wire.length +
    2 * l.arrived.length + match l.reading with | .data _ => 1 | _ => 0

lemma work_complete (hF : F.Lawful) (h : l.complete F readData = some l') :
    l'.work F < l.work F := by
  have hpos := hF.headerLength_pos
  rw [Link.complete] at h
  cases hreading : l.reading with
  | header =>
      rw [hreading] at h
      dsimp only at h
      split_ifs at h with hlen
      obtain rfl := Option.some.inj h
      simp only [Link.work, hreading, List.length_drop]
      split <;> omega
  | data n =>
      rw [hreading] at h
      dsimp only at h
      split_ifs at h with hlen
      obtain rfl := Option.some.inj h
      split
      · simp only [Link.work, hreading, List.length_drop]
        omega
      · simp only [Link.work, hreading, List.length_drop]
        omega
  | failed =>
      rw [hreading] at h
      exact absurd h.symm (Option.some_ne_none _)

lemma work_step (hF : F.Lawful) (h : Step F readData l l') : l'.work F < l.work F := by
  cases h with
  | write ht hf =>
      simp only [Link.work, ht, Format.stream, List.flatMap_cons, hf, Option.getD_some,
        List.length_append, List.length_cons]
      omega
  | reject ht hf =>
      simp only [Link.work, ht, Format.stream, List.flatMap_cons, hf, Option.getD_none,
        List.nil_append, List.length_cons]
      omega
  | arrive hn hle =>
      simp only [Link.work, List.length_drop, List.length_append, List.length_take]
      omega
  | complete h => exact work_complete hF h

/-- No run is infinite. -/
theorem not_infinite (hF : F.Lawful) (run : ℕ → Link B T R) :
    ¬ ∀ n, Step F readData (run n) (run (n + 1)) :=
  TransitionSystem.not_infinite_of_measure (Link.work F) (fun _ _ => work_step hF) run

lemma exists_stuck (readData : R → List B → Option R) (hF : F.Lawful) (l : Link B T R) :
    ∃ l', Relation.ReflTransGen (Step F readData) l l' ∧ ∀ l'', ¬ Step F readData l' l'' :=
  TransitionSystem.exists_stuck_of_measure (Link.work F) (fun _ _ => work_step hF) l

end Framing
