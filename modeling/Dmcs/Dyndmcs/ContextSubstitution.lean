import Dmcs.Dyndmcs.Variable
import Dmcs.Lib.OrderedUnique
import Mathlib.Data.Prod.Lex
import Mathlib.Order.Nat

/-!
# Matches and context substitutions (`Match`, `ContextSubstitution`)

A context substitution sends pairs of a context term and a symbol to target contexts.  It is a
container with several indices over the same entries: one with unique keys, and one by target, which
keeps entries with the same target as they were inserted.

A quality is a `float`, which is only compared and passed on; any type stands for it.
-/

namespace Dmcs

namespace Dyndmcs

structure Match (Q : Type) where
  srcCtx : ContextID
  sym : BitVec 64
  tarCtx : ContextID
  img : BitVec 64
  quality : Q

/-- The matches as they were inserted; the matches with equal keys are in this order in an index. -/
abbrev MatchTable (Q : Type) : Type := List (Match Q)

structure ContextMatch (Q : Type) where
  ctx_term : ContextTerm
  sym : BitVec 64
  tarCtx : ContextID
  img : BitVec 64
  quality : Q

variable {Q : Type}

namespace MatchTable

/-- The range of a key in the index `SrcSym`. -/
def bySrcSym (mt : MatchTable Q) (srcCtx : ContextID) (sym : BitVec 64) : List (Match Q) :=
  mt.filter (fun m => m.srcCtx = srcCtx ∧ m.sym = sym)

/-- The range of a key in the index `SrcSymTar`. -/
def bySrcSymTar (mt : MatchTable Q) (srcCtx : ContextID) (sym : BitVec 64) (tarCtx : ContextID) :
    List (Match Q) :=
  mt.filter (fun m => m.srcCtx = srcCtx ∧ m.sym = sym ∧ m.tarCtx = tarCtx)

variable {mt : MatchTable Q} {srcCtx tarCtx : ContextID} {sym : BitVec 64} {m : Match Q}

lemma mem_bySrcSym :
    m ∈ mt.bySrcSym srcCtx sym ↔ m ∈ mt ∧ m.srcCtx = srcCtx ∧ m.sym = sym := by
  unfold bySrcSym
  rw [List.mem_filter, decide_eq_true_iff]

lemma mem_bySrcSymTar : m ∈ mt.bySrcSymTar srcCtx sym tarCtx ↔
    m ∈ mt ∧ m.srcCtx = srcCtx ∧ m.sym = sym ∧ m.tarCtx = tarCtx := by
  unfold bySrcSymTar
  rw [List.mem_filter, decide_eq_true_iff]

end MatchTable

namespace ContextMatch

/-- The key of the indices `SrcSym` and `SrcSymTarImg`; what the second adds decides nothing. -/
def key (m : ContextMatch Q) : ℕ ×ₗ ℕ := toLex (m.ctx_term.toNat, m.sym.toNat)

lemma key_eq_iff {m : ContextMatch Q} {ctx_term : ContextTerm} {sym : BitVec 64} :
    m.key = toLex (ctx_term.toNat, sym.toNat) ↔ m.ctx_term = ctx_term ∧ m.sym = sym := by
  unfold key
  rw [EmbeddingLike.apply_eq_iff_eq, Prod.mk.injEq, ← BitVec.toNat_eq, ← BitVec.toNat_eq]

end ContextMatch

structure ContextSubstitution (Q : Type) where
  bySrcSym : OrderedUnique (@ContextMatch.key Q)
  byTarCtx : List (ContextMatch Q)
  same : ∀ m, m ∈ byTarCtx ↔ m ∈ bySrcSym.entries

namespace ContextSubstitution

def empty : ContextSubstitution Q where
  bySrcSym := ⟨[], List.Pairwise.nil⟩
  byTarCtx := []
  same := fun _ => Iff.rfl

/-- The entries in the order of an iteration. -/
def entries (cs : ContextSubstitution Q) : List (ContextMatch Q) := cs.bySrcSym.entries

/-- An insertion, which does nothing when a key is there. -/
def insert (cs : ContextSubstitution Q) (m : ContextMatch Q) : ContextSubstitution Q where
  bySrcSym := cs.bySrcSym.insert m
  byTarCtx := if (cs.bySrcSym.find m.key).isNone then cs.byTarCtx ++ [m] else cs.byTarCtx
  same := by
    intro m'
    rw [OrderedUnique.mem_insert_iff]
    split_ifs with hnone
    · rw [List.mem_append, List.mem_singleton, cs.same]
      exact or_congr_right ⟨fun h => ⟨h, Option.isNone_iff_eq_none.1 hnone⟩, fun h => h.1⟩
    · rw [cs.same]
      refine ⟨Or.inl, fun h => h.resolve_right (fun h' => hnone ?_)⟩
      exact Option.isNone_iff_eq_none.2 h'.2

/-- `find` for a context term: the first entry with it. -/
def find (cs : ContextSubstitution Q) (ctx_term : ContextTerm) : Option (ContextMatch Q) :=
  cs.entries.find? (fun m => m.ctx_term = ctx_term)

/-- `find` in the index `SrcSym`. -/
def findSrcSym (cs : ContextSubstitution Q) (ctx_term : ContextTerm) (sym : BitVec 64) :
    Option (ContextMatch Q) :=
  cs.bySrcSym.find (toLex (ctx_term.toNat, sym.toNat))

/-- What context terms are sent to. -/
def assignment (cs : ContextSubstitution Q) (ctx_term : ContextTerm) : Option ContextID :=
  (cs.find ctx_term).map ContextMatch.tarCtx

variable {cs : ContextSubstitution Q} {m m' : ContextMatch Q} {ctx_term : ContextTerm}
  {sym : BitVec 64}

lemma mem_insert_of_mem (h : m' ∈ cs.entries) : m' ∈ (cs.insert m).entries :=
  cs.bySrcSym.mem_insert_of_mem h

lemma eq_or_mem_of_mem_insert (h : m' ∈ (cs.insert m).entries) : m' = m ∨ m' ∈ cs.entries :=
  cs.bySrcSym.eq_or_mem_of_mem_insert h

/-- There is an entry for the term and the symbol of what is inserted. -/
lemma exists_mem_insert (cs : ContextSubstitution Q) (m : ContextMatch Q) :
    ∃ m' ∈ (cs.insert m).entries, m'.ctx_term = m.ctx_term ∧ m'.sym = m.sym := by
  rcases @OrderedUnique.mem_insertInto _ _ _ ContextMatch.key m cs.entries with hm | ⟨m', hm', hkey⟩
  · exact ⟨m, hm, rfl, rfl⟩
  · exact ⟨m', mem_insert_of_mem hm', ContextMatch.key_eq_iff.1 hkey⟩

lemma findSrcSym_eq_some_iff :
    cs.findSrcSym ctx_term sym = some m ↔ m ∈ cs.entries ∧ m.ctx_term = ctx_term ∧ m.sym = sym :=
  cs.bySrcSym.find_eq_some_iff.trans (and_congr_right (fun _ => ContextMatch.key_eq_iff))

lemma findSrcSym_insert_of_some (h : cs.findSrcSym ctx_term sym = some m') :
    (cs.insert m).findSrcSym ctx_term sym = some m' :=
  cs.bySrcSym.find_insert_of_some h

lemma findSrcSym_insert_of_ne (h : ¬ (m.ctx_term = ctx_term ∧ m.sym = sym)) :
    (cs.insert m).findSrcSym ctx_term sym = cs.findSrcSym ctx_term sym :=
  cs.bySrcSym.find_insert_of_ne (fun hkey => h (ContextMatch.key_eq_iff.1 hkey))

lemma findSrcSym_insert_self (h : cs.findSrcSym m.ctx_term m.sym = none) :
    (cs.insert m).findSrcSym m.ctx_term m.sym = some m :=
  cs.bySrcSym.find_insert_self h

lemma assignment_eq_some_iff {tarCtx : ContextID} : cs.assignment ctx_term = some tarCtx ↔
    ∃ m, cs.find ctx_term = some m ∧ m.tarCtx = tarCtx :=
  Option.map_eq_some_iff

/-- A context term with an entry is sent to something. -/
lemma exists_assignment (h : m ∈ cs.entries) :
    ∃ tarCtx, cs.assignment m.ctx_term = some tarCtx := by
  unfold assignment find
  cases hfind : cs.entries.find? (fun m' => m'.ctx_term = m.ctx_term) with
  | some m' => exact ⟨m'.tarCtx, rfl⟩
  | none => exact absurd (decide_eq_true rfl) (List.find?_eq_none.1 hfind m h)

/-- Inserting an entry that agrees with what its term is sent to, if that is anything. -/
lemma assignment_insert
    (h : cs.assignment m.ctx_term = none ∨ cs.assignment m.ctx_term = some m.tarCtx) :
    (cs.insert m).assignment = Function.update cs.assignment m.ctx_term (some m.tarCtx) := by
  funext ctx_term
  by_cases hterm : ctx_term = m.ctx_term
  · subst hterm
    rw [Function.update_self]
    rcases h with hnone | hsome
    · have hfind : (cs.insert m).find m.ctx_term = some m := by
        refine OrderedUnique.find?_insertInto_of_none (fun x y hkey => ?_) (decide_eq_true rfl)
          (Option.map_eq_none_iff.1 hnone)
        rw [(ContextMatch.key_eq_iff.1 hkey).1]
      exact congrArg (Option.map ContextMatch.tarCtx) hfind
    · rcases @OrderedUnique.find?_insertInto_cases _ _ _ ContextMatch.key m
        cs.entries (fun m' => m'.ctx_term = m.ctx_term) with hcase | hcase
      · exact (congrArg (Option.map ContextMatch.tarCtx) hcase).trans hsome
      · exact congrArg (Option.map ContextMatch.tarCtx) hcase
  · rw [Function.update_of_ne hterm]
    refine congrArg (Option.map ContextMatch.tarCtx) ?_
    exact OrderedUnique.find?_insertInto_of_not (decide_eq_false (Ne.symm hterm))

end ContextSubstitution

end Dyndmcs

end Dmcs
