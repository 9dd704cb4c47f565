import Mathlib.Algebra.Ring.Nat
import Mathlib.Data.List.Nodup
import Mathlib.Tactic.Common

/-!
# Beliefs and their tables (`ID`, `Belief`, `BeliefTable`)

An `ID` names an object by a 32 bit `kind`, which holds its main kind, the negation mark of a
literal and the context, and by an address inside the table of its kind.  A `BeliefTable` keeps the
beliefs of one context.  It is indexed by address and by text and both indexes are unique
(`hashed_unique`), so an insertion that repeats one of them does not succeed, and the assertion
after it fails: the storing functions return an `Option`, and a table carries the uniqueness.

## What is modelled

The masks of `ID.h` that tell the main kind, the negation mark and the context are the constants
below, over 32 bits; the context of an id is read back through `CONTEXT_ID_MASK`, so a context of
more than 16 bits is cut.  `storeAndGetID` gives the next address and `storeWithID` takes the one it
is told; both fail where an index refuses the insertion.

A table carries the uniqueness of its two indexes and the main kind of its entries as fields, so a
table with two beliefs of one text cannot be built.
-/

namespace Dmcs

/-- A character string of the program. -/
abbrev Text : Type := List Char

/-- A number as an output stream prints it. -/
def decimal (n : ℕ) : Text := Nat.toDigits 10 n

lemma decimal_injective : Function.Injective decimal := by
  intro n m h
  rw [← Nat.ofDigitChars_ten_toDigits (n := n), ← Nat.ofDigitChars_ten_toDigits (n := m)]
  exact congrArg (fun cs => Nat.ofDigitChars 10 cs 0) h

structure ID where
  kind : BitVec 32
  address : ℕ
  deriving DecidableEq, Repr

namespace ID

def NAF_MASK : BitVec 32 := 0x80000000#32
def MAINKIND_MASK : BitVec 32 := 0x70000000#32
def CONTEXT_ID_MASK : BitVec 32 := 0x0000FFFF#32
def MAINKIND_RULE : BitVec 32 := 0x30000000#32
def MAINKIND_BELIEF : BitVec 32 := 0x40000000#32
def SUBKIND_RULE_BRIDGE_RULE : BitVec 32 := 0x03000000#32

/-- The default constructor; `getIDByString` returns it for an unknown text. -/
def ID_FAIL : ID := ⟨0xFFFFFFFF#32, 0xFFFFFFFF⟩

def isBelief (id : ID) : Bool := id.kind &&& MAINKIND_MASK == MAINKIND_BELIEF

def isNaf (id : ID) : Bool := id.kind &&& NAF_MASK == NAF_MASK

def contextID (id : ID) : BitVec 32 := id.kind &&& CONTEXT_ID_MASK

/-- The context takes 16 bits. -/
lemma contextID_lt (id : ID) : id.contextID.toNat < 2 ^ 16 := by
  have hle : id.contextID.toNat ≤ CONTEXT_ID_MASK.toNat := by
    unfold contextID
    rw [BitVec.toNat_and]
    exact Nat.and_le_right
  exact Nat.lt_of_le_of_lt hle (by decide)

def posLiteralFromBelief (belief : ID) : ID :=
  ⟨(belief.kind &&& ~~~ NAF_MASK) ||| MAINKIND_BELIEF, belief.address⟩

def nafLiteralFromBelief (belief : ID) : ID :=
  ⟨belief.kind ||| MAINKIND_BELIEF ||| NAF_MASK, belief.address⟩

/-- The literal of a belief, which must be one. -/
def literalFromBelief (belief : ID) (naf : Bool) : Option ID :=
  if belief.isBelief then
    some (if naf then nafLiteralFromBelief belief else posLiteralFromBelief belief)
  else none

end ID

structure Belief where
  address : ℕ
  kind : BitVec 32
  text : Text
  deriving DecidableEq, Repr

namespace Belief

/-- The kind a belief of a context gets; the constructor takes the context as a 16 bit number. -/
def kindOf (ctx : ℕ) : BitVec 32 := ID.MAINKIND_BELIEF ||| (BitVec.ofNat 16 ctx).setWidth 32

def ofContext (ctx address : ℕ) (text : Text) : Belief := ⟨address, kindOf ctx, text⟩

def id (b : Belief) : ID := ⟨b.kind, b.address⟩

/-- The context part of a kind passes a mask that covers it. -/
lemma setWidth_and_of_ones (x : BitVec 16) {mask : BitVec 32}
    (hmask : ∀ i : Fin 16, mask.getLsbD i = true) : x.setWidth 32 &&& mask = x.setWidth 32 := by
  apply BitVec.eq_of_getLsbD_eq
  intro i hi
  rw [BitVec.getLsbD_and, BitVec.getLsbD_setWidth]
  by_cases h16 : i < 16
  · rw [hmask ⟨i, h16⟩, Bool.and_true]
  · rw [BitVec.getLsbD_of_ge x i (by omega), Bool.and_false, Bool.false_and]

/-- It is dropped by a mask that does not meet it. -/
lemma setWidth_and_of_zeros {v : ℕ} (x : BitVec v) {mask : BitVec 32}
    (hmask : ∀ i : Fin v, mask.getLsbD i = false) : x.setWidth 32 &&& mask = 0#32 := by
  apply BitVec.eq_of_getLsbD_eq
  intro i hi
  rw [BitVec.getLsbD_and, BitVec.getLsbD_setWidth, BitVec.getLsbD_zero]
  by_cases hv : i < v
  · rw [hmask ⟨i, hv⟩, Bool.and_false]
  · rw [BitVec.getLsbD_of_ge x i (by omega), Bool.and_false, Bool.false_and]

lemma isBelief_kindOf (ctx address : ℕ) : ID.isBelief ⟨kindOf ctx, address⟩ = true := by
  unfold ID.isBelief kindOf
  rw [BitVec.and_or_distrib_right, setWidth_and_of_zeros _ (by decide)]
  rfl

/-- A positive literal is the belief itself. -/
lemma posLiteralFromBelief_kindOf (ctx address : ℕ) :
    ID.posLiteralFromBelief ⟨kindOf ctx, address⟩ = ⟨kindOf ctx, address⟩ := by
  unfold ID.posLiteralFromBelief kindOf
  rw [BitVec.and_or_distrib_right, setWidth_and_of_ones _ (by decide), BitVec.or_assoc,
    BitVec.or_comm _ ID.MAINKIND_BELIEF, ← BitVec.or_assoc]
  rfl

lemma nafLiteralFromBelief_kindOf (ctx address : ℕ) :
    ID.nafLiteralFromBelief ⟨kindOf ctx, address⟩ = ⟨kindOf ctx ||| ID.NAF_MASK, address⟩ := by
  unfold ID.nafLiteralFromBelief kindOf
  rw [BitVec.or_assoc ID.MAINKIND_BELIEF, BitVec.or_comm _ ID.MAINKIND_BELIEF, ← BitVec.or_assoc,
    BitVec.or_self]

section Literals

variable {ctx : ℕ} {mask : BitVec 32}

/-- A context that fits is read back from the kind, whatever is marked outside its bits. -/
lemma contextID_kindOf_or (hctx : ctx < 2 ^ 16) (hmask : mask &&& ID.CONTEXT_ID_MASK = 0#32)
    (address : ℕ) : (ID.contextID ⟨kindOf ctx ||| mask, address⟩).toNat = ctx := by
  have hkind : (kindOf ctx ||| mask) &&& ID.CONTEXT_ID_MASK =
      (BitVec.ofNat 16 ctx).setWidth 32 := by
    unfold kindOf
    rw [BitVec.and_or_distrib_right, BitVec.and_or_distrib_right, hmask,
      setWidth_and_of_ones _ (by decide), BitVec.or_zero]
    exact BitVec.zero_or
  unfold ID.contextID
  rw [hkind, BitVec.toNat_setWidth, BitVec.toNat_ofNat, Nat.mod_eq_of_lt hctx]
  omega

lemma isNaf_kindOf_or (address : ℕ) :
    ID.isNaf ⟨kindOf ctx ||| mask, address⟩ = (mask &&& ID.NAF_MASK == ID.NAF_MASK) := by
  unfold ID.isNaf kindOf
  rw [BitVec.and_or_distrib_right, BitVec.and_or_distrib_right, setWidth_and_of_zeros _ (by decide),
    BitVec.or_zero]
  exact congrArg (· == ID.NAF_MASK) BitVec.zero_or

/-- The literal of a belief of a context. -/
def literal (ctx address : ℕ) (naf : Bool) : ID :=
  ⟨kindOf ctx ||| (if naf then ID.NAF_MASK else 0#32), address⟩

lemma literalFromBelief_kindOf (ctx address : ℕ) (naf : Bool) :
    ID.literalFromBelief ⟨kindOf ctx, address⟩ naf = some (literal ctx address naf) := by
  unfold ID.literalFromBelief
  rw [if_pos (isBelief_kindOf ctx address), posLiteralFromBelief_kindOf,
    nafLiteralFromBelief_kindOf]
  cases naf with
  | true => rfl
  | false =>
      unfold literal
      rw [if_neg Bool.false_ne_true, if_neg Bool.false_ne_true, BitVec.or_zero]

lemma contextID_literal (hctx : ctx < 2 ^ 16) (address : ℕ) (naf : Bool) :
    (literal ctx address naf).contextID.toNat = ctx := by
  cases naf with
  | true => exact contextID_kindOf_or hctx (by decide) address
  | false => exact contextID_kindOf_or hctx (by decide) address

lemma isNaf_literal (address : ℕ) (naf : Bool) : (literal ctx address naf).isNaf = naf := by
  unfold literal
  rw [isNaf_kindOf_or]
  cases naf with
  | true => rfl
  | false => rfl

end Literals

end Belief

/-- A table of beliefs with its two unique indexes.  Everything in it was stored under a belief's
kind. -/
structure BeliefTable where
  beliefs : List Belief
  nextAddress : ℕ
  address_nodup : (beliefs.map Belief.address).Nodup
  text_nodup : (beliefs.map Belief.text).Nodup
  isBelief_of_mem : ∀ b ∈ beliefs, b.id.isBelief = true

namespace BeliefTable

lemma nodup_map_append {γ : Type} {f : Belief → γ} {l : List Belief} {b : Belief}
    (hl : (l.map f).Nodup) (hb : f b ∉ l.map f) : ((l ++ [b]).map f).Nodup := by
  rw [List.map_append, List.map_singleton, ← List.concat_eq_append]
  exact hl.concat hb

lemma forall_mem_append {P : Belief → Prop} {l : List Belief} {b : Belief} (hl : ∀ b ∈ l, P b)
    (hb : P b) : ∀ b' ∈ l ++ [b], P b' := by
  intro b' hb'
  rcases List.mem_append.1 hb' with h | h
  · exact hl b' h
  · rw [List.mem_singleton.1 h]
    exact hb

def empty : BeliefTable :=
  ⟨[], 0, List.nodup_nil, List.nodup_nil, fun _ h => absurd h List.not_mem_nil⟩

/-- The insertion both storing functions assert: the belief has the kind of one and a text, and
neither its address nor its text is there yet. -/
def insert (t : BeliefTable) (b : Belief) (nextAddress : ℕ) : Option BeliefTable :=
  if h : (b.id.isBelief = true ∧ b.text ≠ []) ∧
      b.address ∉ t.beliefs.map Belief.address ∧ b.text ∉ t.beliefs.map Belief.text then
    some ⟨t.beliefs ++ [b], nextAddress, nodup_map_append t.address_nodup h.2.1,
      nodup_map_append t.text_nodup h.2.2, forall_mem_append t.isBelief_of_mem h.1.1⟩
  else none

/-- `storeAndGetID`: the belief gets the next address. -/
def storeAndGetID (t : BeliefTable) (b : Belief) : Option BeliefTable :=
  t.insert { b with address := t.nextAddress } (t.nextAddress + 1)

/-- Storing succeeds with a text and an address that are new. -/
lemma exists_storeAndGetID {t : BeliefTable} {b : Belief} (hkind : ID.isBelief b.id = true)
    (htext : b.text ≠ []) (haddress : t.nextAddress ∉ t.beliefs.map Belief.address)
    (hnew : b.text ∉ t.beliefs.map Belief.text) :
    ∃ t', t.storeAndGetID b = some t' ∧
      t'.beliefs = t.beliefs ++ [{ b with address := t.nextAddress }] ∧
      t'.nextAddress = t.nextAddress + 1 := by
  unfold storeAndGetID insert
  rw [dif_pos ⟨⟨hkind, htext⟩, haddress, hnew⟩]
  exact ⟨_, rfl, rfl, rfl⟩

/-- Store beliefs one after the other. -/
def storeAll (bs : List Belief) : Option BeliefTable := bs.foldlM storeAndGetID empty

/-- `storeWithID`: the belief gets the kind and address of the ID. -/
def storeWithID (t : BeliefTable) (b : Belief) (setid : ID) : Option BeliefTable :=
  if t.nextAddress = 0 then t.insert ⟨setid.address, setid.kind, b.text⟩ 0 else none

/-- The same for an ID that is given. -/
lemma exists_storeWithID {t : BeliefTable} {b : Belief} {setid : ID}
    (hkind : setid.isBelief = true) (htext : b.text ≠ []) (hnext : t.nextAddress = 0)
    (haddress : setid.address ∉ t.beliefs.map Belief.address)
    (hnew : b.text ∉ t.beliefs.map Belief.text) :
    ∃ t', t.storeWithID b setid = some t' ∧
      t'.beliefs = t.beliefs ++ [⟨setid.address, setid.kind, b.text⟩] ∧ t'.nextAddress = 0 := by
  unfold storeWithID insert
  rw [if_pos hnext, dif_pos ⟨⟨hkind, htext⟩, haddress, hnew⟩]
  exact ⟨_, rfl, rfl, rfl⟩

/-- `getByID`; `none` when no belief has this address, where the code throws. -/
def getByID (t : BeliefTable) (id : ID) : Option Belief :=
  if id.isBelief then t.beliefs.find? (fun b => b.address = id.address) else none

/-- `getIDByString`: the belief with this text. -/
def getIDByString (t : BeliefTable) (text : Text) : ID :=
  match t.beliefs.find? (fun b => b.text = text) with
  | some b => b.id
  | none => ID.ID_FAIL

/-- A unique index finds what is stored under a key. -/
lemma find?_of_nodup {γ : Type} [DecidableEq γ] {f : Belief → γ} {l : List Belief} {b : Belief}
    (hl : (l.map f).Nodup) (hb : b ∈ l) : l.find? (fun b' => f b' = f b) = some b := by
  cases hfind : l.find? (fun b' => f b' = f b) with
  | none =>
      have hno := List.find?_eq_none.1 hfind b hb
      simp at hno
  | some b' =>
      have hkey : f b' = f b := by simpa using List.find?_some hfind
      rw [List.inj_on_of_nodup_map hl (List.mem_of_find?_eq_some hfind) hb hkey]

/-- Looking up the text of a stored belief gives its ID. -/
lemma getIDByString_of_mem {t : BeliefTable} {b : Belief} (hb : b ∈ t.beliefs) :
    t.getIDByString b.text = b.id := by
  unfold getIDByString
  rw [find?_of_nodup t.text_nodup hb]

lemma getByID_of_mem {t : BeliefTable} {b : Belief} {kind : BitVec 32} (hb : b ∈ t.beliefs)
    (hkind : ID.isBelief ⟨kind, b.address⟩ = true) : t.getByID ⟨kind, b.address⟩ = some b := by
  unfold getByID
  rw [if_pos hkind]
  exact find?_of_nodup t.address_nodup hb

lemma ne_ID_FAIL {id : ID} (h : id.isBelief = true) : id ≠ ID.ID_FAIL := by
  rintro rfl
  revert h
  decide

lemma insert_beliefs {t t' : BeliefTable} {b : Belief} {n : ℕ} (h : t.insert b n = some t') :
    t'.beliefs = t.beliefs ++ [b] ∧ t'.nextAddress = n := by
  unfold insert at h
  split at h
  · rw [← Option.some.inj h]
    exact ⟨rfl, rfl⟩
  · cases h

end BeliefTable

end Dmcs
