import Dmcs.Dyndmcs.ContextSubstitution
import Dmcs.Lib.Completions

/-!
# Binding a bridge rule (`DynamicConfiguration::bind_rule`)

`bind_rule` goes through the atoms of a rule and extends a substitution for each, in every way the
match table allows.  It counts the substitutions it completes, and stops when they are as many as
the limit.

`bind_rule_eq` takes the counting out: what is returned are the first of all `bindings`.
-/

namespace Dmcs

namespace Dyndmcs

open Completions

abbrev BridgeAtom : Type := ContextTerm × SchematicBelief

structure BridgeRule where
  positiveBody : List BridgeAtom
  negativeBody : List BridgeAtom

/-- What `CompareQuality` says for the sorting strategies that `heuristics` chooses, if it chooses
any. -/
structure Heuristics (Q : Type) where
  compareMatches : Option (ContextSubstitution Q → Match Q → Match Q → Bool)
  compareNeighbors : Option (ContextID → ContextID → Bool)

structure DynamicConfiguration (Q : Type) where
  ctx_id : ContextID
  bridge_rules : List BridgeRule
  context_info : List ContextID
  mt : MatchTable Q
  limit_answers : ℕ
  limit_bind_rules : ℕ
  heuristics : Heuristics Q

/-- The members that `bind_rule` changes. -/
structure BindState where
  no_bind_rules : ℕ
  stop_bind_rules : Bool

variable {Q : Type}

/-- The entry for a match. -/
def Match.bind (m : Match Q) (ctt : ContextTerm) : ContextMatch Q where
  ctx_term := ctt
  sym := m.sym
  tarCtx := m.tarCtx
  img := m.img
  quality := m.quality

/-- The loop that collects the first match for each target. -/
def collect (mti : List (Match Q)) : List (Match Q) → List (Match Q)
  | [] => mti
  | low :: range =>
      match mti.find? (fun m => m.tarCtx = low.tarCtx) with
      | none => collect (mti ++ [low]) range
      | some _ => collect mti range

/-- What a call returns, and the state it leaves. -/
abbrev Bound (Q : Type) : Type := List (ContextSubstitution Q) × BindState

/-- The loop that tries all possibilities. -/
def tryAll (next : ContextSubstitution Q → BindState → Except Failure (Bound Q)) :
    List (ContextSubstitution Q) → BindState → Except Failure (Bound Q)
  | [], s => .ok ([], s)
  | cs :: mti_iter, s =>
      if s.stop_bind_rules then .ok ([], s)
      else do
        let (intermediate_ctx_subs, s) ← next cs s
        let (ctx_subs, s) ← tryAll next mti_iter s
        .ok (intermediate_ctx_subs ++ ctx_subs, s)

namespace DynamicConfiguration

variable (dc : DynamicConfiguration Q)

def sortMatches (sofar : ContextSubstitution Q) (mti : List (Match Q)) : List (Match Q) :=
  match dc.heuristics.compareMatches with
  | none => mti
  | some compare => mti.mergeSort (fun m m' => !compare sofar m' m)

/-- The return of `bind_rule` at the end of both bodies. -/
def bindLeaf (sofar : ContextSubstitution Q) (s : BindState) : Except Failure (Bound Q) :=
  let no_bind_rules := s.no_bind_rules + 1
  .ok ([sofar],
    { no_bind_rules := no_bind_rules
      stop_bind_rules := if no_bind_rules ≥ dc.limit_bind_rules then true else s.stop_bind_rules })

/-- `bind_rule` for an atom; `next` is its call for the atoms that follow. -/
def bindAtom (sba : BridgeAtom)
    (next : ContextSubstitution Q → BindState → Except Failure (Bound Q))
    (sofar : ContextSubstitution Q) (s : BindState) : Except Failure (Bound Q) :=
  let ctt := sba.1
  let sb := sba.2
  if !isCtxVar ctt && sBeliefType sb == IS_ORDINARY_BELIEF then next sofar s
  else if !isCtxVar ctt then
    match dc.mt.bySrcSymTar dc.ctx_id (sBelief sb) ctt with
    | [] => .ok ([], s)
    | low :: _ => next (sofar.insert (low.bind ctt)) s
  else do
    let context_id ← ctxID ctt
    let s_const := sBelief sb
    match dc.mt.bySrcSym context_id s_const with
    | [] => .ok ([], s)
    | range =>
        let mti := collect [] range
        match sofar.find ctt with
        | none =>
            tryAll next ((dc.sortMatches sofar mti).map (fun m => sofar.insert (m.bind ctt))) s
        | some it =>
            match mti.find? (fun m => m.tarCtx = it.tarCtx) with
            | none => .ok ([], s)
            | some _ =>
                match sofar.findSrcSym context_id s_const with
                | some _ => next sofar s
                | none =>
                    match dc.mt.bySrcSymTar context_id s_const it.tarCtx with
                    | [] => .ok ([], s)
                    | low :: _ => next (sofar.insert (low.bind ctt)) s

/-- `bind_rule` after the positive body. -/
def bindNegative : List BridgeAtom → ContextSubstitution Q → BindState → Except Failure (Bound Q)
  | [], sofar, s => dc.bindLeaf sofar s
  | sba :: nb, sofar, s => dc.bindAtom sba (bindNegative nb) sofar s

def bind_rule : List BridgeAtom → List BridgeAtom → ContextSubstitution Q → BindState →
    Except Failure (Bound Q)
  | [], nb, sofar, s => dc.bindNegative nb sofar s
  | sba :: pb, nb, sofar, s => dc.bindAtom sba (bind_rule pb nb) sofar s

lemma bind_rule_append (pb nb : List BridgeAtom) :
    dc.bind_rule pb nb = dc.bindNegative (pb ++ nb) := by
  induction pb with
  | nil => rfl
  | cons sba pb ih =>
      funext sofar s
      show dc.bindAtom sba (dc.bind_rule pb nb) sofar s = _
      rw [ih]
      rfl

/-! ## The ways to go on -/

/-- The substitutions with which `bind_rule` goes on after an atom. -/
def choices (sba : BridgeAtom) (sofar : ContextSubstitution Q) : List (ContextSubstitution Q) :=
  let ctt := sba.1
  let s_const := sBelief sba.2
  if !isCtxVar ctt && sBeliefType sba.2 == IS_ORDINARY_BELIEF then [sofar]
  else if !isCtxVar ctt then
    (dc.mt.bySrcSymTar dc.ctx_id s_const ctt).head?.toList.map (fun m => sofar.insert (m.bind ctt))
  else
    let context_id := variableContext ctt
    let mti := collect [] (dc.mt.bySrcSym context_id s_const)
    match sofar.find ctt with
    | none => (dc.sortMatches sofar mti).map (fun m => sofar.insert (m.bind ctt))
    | some it =>
        match mti.find? (fun m => m.tarCtx = it.tarCtx) with
        | none => []
        | some _ =>
            match sofar.findSrcSym context_id s_const with
            | some _ => [sofar]
            | none => (dc.mt.bySrcSymTar context_id s_const it.tarCtx).head?.toList.map
                (fun m => sofar.insert (m.bind ctt))

/-- All substitutions that bind the atoms. -/
def bindings : List BridgeAtom → ContextSubstitution Q → List (ContextSubstitution Q) :=
  leaves dc.choices

/-- The state after `n` substitutions are complete. -/
def after (n : ℕ) : BindState where
  no_bind_rules := n
  stop_bind_rules := decide (max 1 dc.limit_bind_rules ≤ n)

lemma stop_after_of_lt {n : ℕ} (hn : n < max 1 dc.limit_bind_rules) :
    (dc.after n).stop_bind_rules = false :=
  decide_eq_false (not_le.2 hn)

lemma sortMatches_perm (sofar : ContextSubstitution Q) (mti : List (Match Q)) :
    (dc.sortMatches sofar mti).Perm mti := by
  unfold sortMatches
  split
  · exact List.Perm.refl mti
  · exact List.mergeSort_perm mti _

lemma tryAll_singleton (next : ContextSubstitution Q → BindState → Except Failure (Bound Q))
    (cs : ContextSubstitution Q) {s : BindState} (hs : s.stop_bind_rules = false) :
    tryAll next [cs] s = next cs s := by
  unfold tryAll
  rw [if_neg (by rw [hs]; exact Bool.false_ne_true)]
  cases next cs s with
  | error e => rfl
  | ok r =>
      show Except.ok (r.1 ++ [], r.2) = _
      rw [List.append_nil]

lemma tryAll_head (next : ContextSubstitution Q → BindState → Except Failure (Bound Q))
    (range : List (Match Q)) (bound : Match Q → ContextSubstitution Q) {s : BindState}
    (hs : s.stop_bind_rules = false) :
    tryAll next (range.head?.toList.map bound) s =
      match range with
      | [] => .ok ([], s)
      | low :: _ => next (bound low) s := by
  cases range with
  | nil => rfl
  | cons low range => exact tryAll_singleton next (bound low) hs

/-- While it is not stopped, `bind_rule` tries all choices for an atom. -/
lemma bindAtom_eq (sba : BridgeAtom)
    (next : ContextSubstitution Q → BindState → Except Failure (Bound Q))
    (sofar : ContextSubstitution Q) {s : BindState} (hs : s.stop_bind_rules = false) :
    dc.bindAtom sba next sofar s = tryAll next (dc.choices sba sofar) s := by
  unfold bindAtom choices
  simp only
  split_ifs with hordinary hconst
  · exact (tryAll_singleton next sofar hs).symm
  · exact (tryAll_head next _ _ hs).symm
  · have hvar : isCtxVar sba.1 = true := by
      rw [Bool.not_eq_true, Bool.not_eq_false'] at hconst
      exact hconst
    rw [ctxID_of_isCtxVar hvar]
    show (match dc.mt.bySrcSym (variableContext sba.1) (sBelief sba.2) with
      | [] => _
      | range => _) = _
    cases hrange : dc.mt.bySrcSym (variableContext sba.1) (sBelief sba.2) with
    | nil =>
        cases sofar.find sba.1 with
        | none =>
            have hnil : dc.sortMatches sofar (collect [] []) = [] :=
              (dc.sortMatches_perm sofar []).eq_nil
            simp only
            rw [hnil]
            rfl
        | some it => rfl
    | cons low range =>
        cases sofar.find sba.1 with
        | none => rfl
        | some it =>
            simp only
            split
            · rfl
            · split
              · exact (tryAll_singleton next sofar hs).symm
              · exact (tryAll_head next _ _ hs).symm

/-! ## The limit -/

/-- What is returned after `n` substitutions are complete, when `all` are to come. -/
def firstOf (all : List (ContextSubstitution Q)) (n : ℕ) : Bound Q :=
  (all.take (max 1 dc.limit_bind_rules - n),
    dc.after (min (max 1 dc.limit_bind_rules) (n + all.length)))

lemma bindLeaf_eq (sofar : ContextSubstitution Q) {n : ℕ} (hn : n < max 1 dc.limit_bind_rules) :
    dc.bindLeaf sofar (dc.after n) = .ok (dc.firstOf [sofar] n) := by
  have hstop : (if n + 1 ≥ dc.limit_bind_rules then true else (dc.after n).stop_bind_rules) =
      decide (max 1 dc.limit_bind_rules ≤ n + 1) := by
    rw [dc.stop_after_of_lt hn]
    split_ifs with hlimit
    · exact (decide_eq_true (by omega)).symm
    · exact (decide_eq_false (by omega)).symm
  have hcount : min (max 1 dc.limit_bind_rules) (n + 1) = n + 1 := by omega
  have htake : [sofar].take (max 1 dc.limit_bind_rules - n) = [sofar] :=
    List.take_of_length_le (by rw [List.length_singleton]; omega)
  unfold firstOf
  rw [htake, List.length_singleton, hcount]
  exact congrArg (fun stop => Except.ok ([sofar], BindState.mk (n + 1) stop)) hstop

/-- The loop, when every call returns the first of what there is. -/
lemma tryAll_eq {next : ContextSubstitution Q → BindState → Except Failure (Bound Q)}
    {all : ContextSubstitution Q → List (ContextSubstitution Q)}
    (hnext : ∀ cs n, n < max 1 dc.limit_bind_rules →
      next cs (dc.after n) = .ok (dc.firstOf (all cs) n))
    (choices : List (ContextSubstitution Q)) {n : ℕ} (hn : n ≤ max 1 dc.limit_bind_rules) :
    tryAll next choices (dc.after n) = .ok (dc.firstOf (choices.flatMap all) n) := by
  induction choices generalizing n with
  | nil =>
      unfold firstOf
      rw [List.flatMap_nil, List.take_nil, List.length_nil, Nat.add_zero, min_eq_right hn]
      rfl
  | cons cs choices ih =>
      rw [List.flatMap_cons]
      unfold tryAll
      rcases hn.lt_or_eq with hlt | rfl
      · rw [if_neg (by rw [dc.stop_after_of_lt hlt]; exact Bool.false_ne_true), hnext cs n hlt]
        show (tryAll next choices (dc.after (min (max 1 dc.limit_bind_rules)
          (n + (all cs).length)))).bind _ = _
        rw [ih (min_le_left _ _)]
        have hrest : max 1 dc.limit_bind_rules -
            min (max 1 dc.limit_bind_rules) (n + (all cs).length) =
              max 1 dc.limit_bind_rules - n - (all cs).length := by omega
        have hcount : min (max 1 dc.limit_bind_rules)
            (min (max 1 dc.limit_bind_rules) (n + (all cs).length) +
              (choices.flatMap all).length) =
            min (max 1 dc.limit_bind_rules)
              (n + ((all cs).length + (choices.flatMap all).length)) := by omega
        unfold firstOf
        rw [List.take_append, List.length_append, ← hrest, ← hcount]
        rfl
      · have hstop : (dc.after (max 1 dc.limit_bind_rules)).stop_bind_rules = true :=
          decide_eq_true le_rfl
        rw [if_pos hstop]
        unfold firstOf
        rw [Nat.sub_self, List.take_zero, min_eq_left (Nat.le_add_right _ _)]

lemma bindNegative_eq (atoms : List BridgeAtom) (sofar : ContextSubstitution Q) {n : ℕ}
    (hn : n < max 1 dc.limit_bind_rules) :
    dc.bindNegative atoms sofar (dc.after n) = .ok (dc.firstOf (dc.bindings atoms sofar) n) := by
  induction atoms generalizing sofar n with
  | nil => exact dc.bindLeaf_eq sofar hn
  | cons sba atoms ih =>
      show dc.bindAtom sba (dc.bindNegative atoms) sofar (dc.after n) = _
      rw [dc.bindAtom_eq sba _ sofar (dc.stop_after_of_lt hn)]
      exact dc.tryAll_eq (fun cs n hn => ih cs hn) (dc.choices sba sofar) hn.le

/-- From the start, the first of all bindings, as many as the limit allows, and at least one. -/
lemma bind_rule_eq (pb nb : List BridgeAtom) (sofar : ContextSubstitution Q) :
    ∃ s, dc.bind_rule pb nb sofar { no_bind_rules := 0, stop_bind_rules := false } =
      .ok ((dc.bindings (pb ++ nb) sofar).take (max 1 dc.limit_bind_rules), s) := by
  have hpos : 0 < max 1 dc.limit_bind_rules := by omega
  have hstart : dc.after 0 = { no_bind_rules := 0, stop_bind_rules := false } :=
    congrArg (BindState.mk 0) (dc.stop_after_of_lt hpos)
  rw [bind_rule_append, ← hstart, dc.bindNegative_eq _ _ hpos]
  exact ⟨_, rfl⟩

end DynamicConfiguration

end Dyndmcs

end Dmcs
