import Mathlib.Algebra.Order.Ring.Nat
import Dmcs.Lib.Framing

/-!
# Messages on a connection (`connection`)

A message is archived to text and written behind a header: eight characters that tell the length of
the text in hexadecimal, filled up with blanks in front.  A length that takes more characters is an
error, and nothing is written.  The reader reads eight characters, takes the number in them for the
length, and reads as many characters more.

So a connection is a queue of messages, whatever pieces the text comes in: `connection_refines`.

## The layers

`Framing` is about frames with headers in general: it gives the simulation between a stream of
characters in pieces and a channel that carries whole values, the end of every run, and its result.
Here it is instantiated with the code's headers.  `outboundHeader` prints a length in hexadecimal in
a field of eight characters and fails if the field is too small; `inboundDataSize` is what
`istringstream` with `std::hex` makes of the eight characters.  What is needed of the two is that
the length is read back (`inboundDataSize_headerStream`).

The archives are a parameter: a value is written as a text and read back from it.
-/

namespace Dmcs

namespace Connection

open Framing

/-- `outbound_data_` and `inbound_data_`, and what a header is made of. -/
abbrev Data : Type := List Char

def header_length : ℕ := 8

/-! ## Headers -/

/-- `header_stream << std::setw(header_length) << std::hex << n`. -/
def headerStream (n : ℕ) : Data :=
  List.replicate (header_length - (Nat.toDigits 16 n).length) ' ' ++ Nat.toDigits 16 n

/-- The header for data of a size, if it has the right length. -/
def outboundHeader (n : ℕ) : Option Data :=
  if (headerStream n).length ≠ header_length then none else some (headerStream n)

def isSpace (c : Char) : Bool := c ∈ [' ', '\t', '\n', '\x0b', '\x0c', '\r']

def hexDigit (c : Char) : Option ℕ :=
  if '0' ≤ c ∧ c ≤ '9' then some (c.toNat - 48)
  else if 'a' ≤ c ∧ c ≤ 'f' then some (c.toNat - 87)
  else if 'A' ≤ c ∧ c ≤ 'F' then some (c.toNat - 55)
  else none

/-- The number of the digits up to the first character that is none, behind the number `n`. -/
def hexNumber : ℕ → Data → ℕ
  | n, [] => n
  | n, c :: cs =>
      match hexDigit c with
      | some d => hexNumber (16 * n + d) cs
      | none => n

/-- Whether there is a minus sign, and what follows the sign. -/
def skipSign : Data → Bool × Data
  | '-' :: s => (true, s)
  | '+' :: s => (false, s)
  | s => (false, s)

def skipPrefix : Data → Data
  | '0' :: 'x' :: s => s
  | '0' :: 'X' :: s => s
  | s => s

/-- `is >> std::hex >> inbound_data_size`, for a text of the length of a header. -/
def inboundDataSize (s : Data) : Option ℕ :=
  let (negative, s) := skipSign (s.dropWhile isSpace)
  let digits := skipPrefix s
  match digits with
  | [] => none
  | c :: _ =>
      if (hexDigit c).isNone then none
      else
        let n := hexNumber 0 digits
        some (if negative then (2 ^ 64 - n) % 2 ^ 64 else n)

example : inboundDataSize (headerStream 748) = some 748 := by decide

lemma hexDigit_digitChar {d : ℕ} (hd : d < 16) : hexDigit d.digitChar = some d := by
  have hall : ∀ d : Fin 16, hexDigit d.val.digitChar = some d.val := by decide
  exact hall ⟨d, hd⟩

/-- Only digits. -/
def IsHex (s : Data) : Prop := ∀ c ∈ s, hexDigit c ≠ none

lemma hexNumber_append {s : Data} (hs : IsHex s) (n : ℕ) (s' : Data) :
    hexNumber n (s ++ s') = hexNumber (hexNumber n s) s' := by
  induction s generalizing n with
  | nil => rfl
  | cons c s ih =>
      obtain ⟨d, hd⟩ := Option.ne_none_iff_exists'.mp (hs c List.mem_cons_self)
      have hrest := ih (fun c hc => hs c (List.mem_cons_of_mem _ hc)) (16 * n + d)
      rw [List.cons_append, hexNumber, hexNumber, hd]
      exact hrest

lemma toDigits_spec (n : ℕ) :
    IsHex (Nat.toDigits 16 n) ∧ hexNumber 0 (Nat.toDigits 16 n) = n := by
  induction n using Nat.strongRecOn with
  | ind n ih =>
      by_cases hn : n < 16
      · rw [Nat.toDigits_of_lt_base hn]
        refine ⟨fun c hc => ?_, ?_⟩
        · rw [List.mem_singleton.mp hc, hexDigit_digitChar hn]
          exact Option.some_ne_none _
        · rw [hexNumber, hexDigit_digitChar hn]
          show 16 * 0 + n = n
          omega
      · obtain ⟨hhex, hnumber⟩ := ih (n / 16) (by omega)
        have hlast := hexDigit_digitChar (Nat.mod_lt n (by decide : 16 > 0))
        rw [Nat.toDigits_of_base_le (by decide) (by omega)]
        refine ⟨fun c hc => ?_, ?_⟩
        · rcases List.mem_append.mp hc with hc | hc
          · exact hhex c hc
          · rw [List.mem_singleton.mp hc, hlast]
            exact Option.some_ne_none _
        · rw [hexNumber_append hhex, hnumber, hexNumber, hlast]
          show 16 * (n / 16) + n % 16 = n
          omega

lemma skipSign_of_hex {s : Data} (hs : IsHex s) : skipSign s = (false, s) := by
  unfold skipSign
  split
  · exact absurd (by decide) (hs '-' List.mem_cons_self)
  · exact absurd (by decide) (hs '+' List.mem_cons_self)
  · rfl

lemma skipPrefix_of_hex {s : Data} (hs : IsHex s) : skipPrefix s = s := by
  unfold skipPrefix
  split
  · exact absurd (by decide) (hs 'x' (List.mem_cons_of_mem _ List.mem_cons_self))
  · exact absurd (by decide) (hs 'X' (List.mem_cons_of_mem _ List.mem_cons_self))
  · rfl

lemma dropWhile_headerStream (n : ℕ) :
    (headerStream n).dropWhile isSpace = Nat.toDigits 16 n := by
  have hspaces : ∀ c ∈ List.replicate (header_length - (Nat.toDigits 16 n).length) ' ',
      isSpace c = true := by
    intro c hc
    rw [List.eq_of_mem_replicate hc]
    rfl
  rw [headerStream, List.dropWhile_append_of_pos hspaces]
  cases hdigits : Nat.toDigits 16 n with
  | nil => rfl
  | cons c cs =>
      have hhex : hexDigit c ≠ none := (toDigits_spec n).1 c (by rw [hdigits]; simp)
      apply List.dropWhile_cons_of_neg
      intro hspace
      rw [isSpace, decide_eq_true_iff] at hspace
      simp only [List.mem_cons, List.not_mem_nil, or_false] at hspace
      rcases hspace with rfl | rfl | rfl | rfl | rfl | rfl <;> exact hhex (by decide)

/-- The reader finds the number that was written. -/
lemma inboundDataSize_headerStream (n : ℕ) : inboundDataSize (headerStream n) = some n := by
  obtain ⟨hhex, hnumber⟩ := toDigits_spec n
  unfold inboundDataSize
  rw [dropWhile_headerStream, skipSign_of_hex hhex]
  dsimp only
  rw [skipPrefix_of_hex hhex]
  cases hdigits : Nat.toDigits 16 n with
  | nil => exact absurd hdigits Nat.toDigits_ne_nil
  | cons c cs =>
      rw [hdigits] at hhex hnumber
      have hfirst := hhex c List.mem_cons_self
      dsimp only
      rw [if_neg (by rw [Option.isNone_iff_eq_none]; exact hfirst), hnumber]
      rfl

/-- Eight hexadecimal digits are enough for numbers below `16 ^ 8`. -/
lemma outboundHeader_eq_none_iff (n : ℕ) : outboundHeader n = none ↔ 16 ^ 8 ≤ n := by
  have hdigits := Nat.length_toDigits_le_iff (b := 16) (n := n) (k := 8) (by decide) (by decide)
  have hlength : (headerStream n).length = max 8 (Nat.toDigits 16 n).length := by
    rw [headerStream, List.length_append, List.length_replicate, header_length]
    omega
  rw [outboundHeader, hlength, header_length]
  split_ifs with h
  · exact iff_of_true rfl (by rw [← Nat.not_lt, ← hdigits]; omega)
  · refine iff_of_false not_false ?_
    rw [Nat.not_le, ← hdigits]
    omega

/-! ## Messages -/

section Messages

variable {T R : Type*} (archive : T → Data)

/-- The frames of a connection; `archive` stands for the archives of the library. -/
def format : Format Char T where
  headerLength := header_length
  header := outboundHeader
  size := inboundDataSize
  archive := archive

/-- The messages whose length fits into a header. -/
def accepted (ts : List T) : List T := ts.filter (fun t => (archive t).length < 16 ^ 8)

lemma exists_of_outboundHeader {n : ℕ} {h : Data} (hh : outboundHeader n = some h) :
    h = headerStream n ∧ h.length = header_length := by
  rw [outboundHeader] at hh
  split_ifs at hh with hlen
  obtain rfl := Option.some.inj hh
  exact ⟨rfl, not_not.mp hlen⟩

lemma lawful_format : (format archive).Lawful where
  headerLength_pos := Nat.succ_pos 7
  length_header := fun hh => (exists_of_outboundHeader hh).2
  size_header := fun {n _} hh => by
    rw [(exists_of_outboundHeader hh).1]
    exact inboundDataSize_headerStream n

lemma accepted_format (ts : List T) : (format archive).accepted ts = accepted archive ts := by
  refine List.filter_congr fun t _ => ?_
  have hnone : (format archive).frame t = none ↔ 16 ^ 8 ≤ (archive t).length := by
    rw [Format.frame, Option.map_eq_none_iff]
    exact outboundHeader_eq_none_iff _
  cases hframe : (format archive).frame t with
  | none => exact (decide_eq_false (Nat.not_lt.mpr (hnone.mp hframe))).symm
  | some f =>
      refine (decide_eq_true (Nat.not_le.mp fun hle => ?_)).symm
      exact Option.some_ne_none f (hframe.symm.trans (hnone.mpr hle))

/-- The messages on a connection that was just opened, as elements of a queue. -/
def queued (ts : List T) (r : R) : Channel.Link T R := ⟨accepted archive ts, [], r⟩

end Messages

/-- A connection is a queue for the messages whose length fits into a header, whatever pieces the
text comes in: a run of it is matched by a run of the queue that brings the receiver to the same
state; no read fails; no run is infinite; and a run that cannot go on has brought everything to the
receiver. -/
theorem connection_refines {T R : Type*} {archive : T → Data} {readData : R → Data → Option R}
    {read : R → T → Option R}
    (hread : ∀ r t r', read r t = some r' → readData r (archive t) = some r') {ts : List T}
    {r r' : R} (hout : Channel.outcome read (queued archive ts r) = some r') :
    (∀ l, Relation.ReflTransGen (Framing.Step (format archive) readData) (Link.start ts r) l →
      l.reading ≠ .failed ∧
        (∃ c, Relation.ReflTransGen (Channel.Step read) (queued archive ts r) c ∧
          c.receiver = l.receiver) ∧
        ((∀ l', ¬ Framing.Step (format archive) readData l l') → l = Link.done r')) ∧
      ∀ run : ℕ → Link Char T R, run 0 = Link.start ts r →
        ¬ ∀ n, Framing.Step (format archive) readData (run n) (run (n + 1)) := by
  have hF := lawful_format archive
  have hstart : Refines (format archive) (Link.start ts r) (queued archive ts r) := by
    rw [queued, ← accepted_format]
    exact refines_start ts r
  refine ⟨fun l hrun => ?_, fun run _ => not_infinite hF run⟩
  obtain ⟨c, hc, hrefines⟩ := exists_refines_of_run hF hread hstart hout hrun
  exact ⟨hrefines.not_failed, ⟨c, hc, hrefines.receiver⟩,
    hrefines.eq_of_stuck hF ((Channel.outcome_run hc).trans hout)⟩

/-! ### Strings -/

/-- What comes in front of all archives. -/
def archiveSignature : Data := "22 serialization::archive 10 ".toList

/-- The archive of a string. -/
def stringArchive (s : Data) : Data :=
  archiveSignature ++ (Nat.toDigits 10 s.length ++ ' ' :: s)

def stringUnarchive (s : Data) : Option Data :=
  let s := s.drop archiveSignature.length
  let digits := s.takeWhile Char.isDigit
  some ((s.drop (digits.length + 1)).take (Nat.ofDigitChars 10 digits 0))

lemma stringUnarchive_stringArchive (s : Data) : stringUnarchive (stringArchive s) = some s := by
  have hdigits : (Nat.toDigits 10 s.length ++ ' ' :: s).takeWhile Char.isDigit =
      Nat.toDigits 10 s.length := by
    rw [List.takeWhile_append_of_pos
      (fun c hc => Nat.isDigit_of_mem_toDigits (by decide) (by decide) hc),
      List.takeWhile_cons_of_neg (by decide), List.append_nil]
  unfold stringUnarchive stringArchive
  rw [List.drop_left]
  dsimp only
  rw [hdigits, Nat.ofDigitChars_toDigits (by decide) (by decide), List.drop_append,
    List.drop_of_length_le (by omega), List.nil_append, Nat.add_sub_cancel_left]
  exact congrArg some (List.take_length)

/-- A reader that collects the strings it reads. -/
def collect (r : List Data) (s : Data) : Option (List Data) :=
  (stringUnarchive s).map (fun t => r ++ [t])

/-- The headers of an answer and of a request. -/
def twoHeaders : List Data := ["DMCS ANS".toList, "DMCS REQ DMCS".toList]

/-- Whatever pieces the two headers come in, they are read one after the other. -/
theorem connection_refines_twoHeaders :
    Relation.ReflTransGen (Framing.Step (format stringArchive) collect) (Link.start twoHeaders [])
      (Link.done twoHeaders) := by
  have hread : ∀ (r : List Data) t r', some (r ++ [t]) = some r' →
      collect r (stringArchive t) = some r' := by
    intro r t r' h
    rw [collect, stringUnarchive_stringArchive, ← h]
    rfl
  have hout : Channel.outcome (fun (r : List Data) t => some (r ++ [t]))
      (queued stringArchive twoHeaders []) = some twoHeaders := by decide +kernel
  obtain ⟨l, hrun, hstuck⟩ := exists_stuck collect (lawful_format stringArchive)
    (Link.start twoHeaders [])
  obtain rfl := ((connection_refines hread hout).1 l hrun).2.2 hstuck
  exact hrun

end Connection

end Dmcs
