import Mathlib.Algebra.Ring.Nat
import Mathlib.Data.Nat.Basic
import Mathlib.Tactic.Common

/-!
# Bytes in memory

A number is stored in a fixed number of bytes, the lowest byte first, and read back
(`ofBytes_toBytes`); a memory is a function from addresses to bytes, and what is written somewhere
is read there (`read_write`).
-/

namespace ByteMemory

/-- A byte. -/
abbrev Byte := BitVec 8

/-- A number in the given number of bytes. -/
def toBytes : ℕ → ℕ → List Byte
  | 0, _ => []
  | count + 1, n => BitVec.ofNat 8 n :: toBytes count (n / 256)

/-- The number that bytes stand for. -/
def ofBytes : List Byte → ℕ
  | [] => 0
  | b :: bytes => b.toNat + 256 * ofBytes bytes

lemma length_toBytes (count n : ℕ) : (toBytes count n).length = count := by
  induction count generalizing n with
  | zero => rfl
  | succ count ih =>
      rw [toBytes, List.length_cons, ih]

lemma ofBytes_toBytes (count n : ℕ) : ofBytes (toBytes count n) = n % 256 ^ count := by
  induction count generalizing n with
  | zero => exact (Nat.mod_one n).symm
  | succ count ih =>
      have hpow : 256 ^ (count + 1) = 256 * 256 ^ count := pow_succ' _ _
      rw [toBytes, ofBytes, ih, BitVec.toNat_ofNat, hpow, Nat.mod_mul]

/-- A memory with addresses of `w` bits. -/
abbrev Memory (w : ℕ) := BitVec w → Byte

namespace Memory

variable {w : ℕ}

/-- The bytes from an address on. -/
def read (memory : Memory w) (a : BitVec w) (size : ℕ) : List Byte :=
  (List.range size).map (fun i => memory (a + BitVec.ofNat w i))

/-- The bytes from an address on are overwritten. -/
def write (memory : Memory w) (a : BitVec w) (bytes : List Byte) : Memory w :=
  fun x => (bytes[(x - a).toNat]?).getD (memory x)

lemma length_read (memory : Memory w) (a : BitVec w) (size : ℕ) :
    (memory.read a size).length = size := by
  rw [read, List.length_map, List.length_range]

lemma read_write (memory : Memory w) (a : BitVec w) {bytes : List Byte}
    (h : bytes.length ≤ 2 ^ w) : (memory.write a bytes).read a bytes.length = bytes := by
  unfold read
  apply List.ext_getElem
  · rw [List.length_map, List.length_range]
  · intro i _ hi
    have hoffset : (a + BitVec.ofNat w i - a).toNat = i := by
      rw [BitVec.add_comm, BitVec.add_sub_cancel, BitVec.toNat_ofNat,
        Nat.mod_eq_of_lt (lt_of_lt_of_le hi h)]
    rw [List.getElem_map, List.getElem_range]
    unfold write
    rw [hoffset, List.getElem?_eq_getElem hi]
    rfl

end Memory

end ByteMemory
