import Dmcs.Lib.QiRelations
import Dmcs.Parser.PlanReuse

/-!
# The numbers in a return plan

The parser of return plans turns the lists of beliefs at once into bits of a belief state, so its
result does not tell which context and which number a bit was set for.  Here the same grammar keeps
the numbers.  `readStream_of_parseStream` says that it goes along with the parser: an accepted
return plan is the list of its entries, each turned into a state.
-/

namespace Dmcs

namespace ReturnPlanGrammar

open Qi BaseParser
open QueryPlanGrammar (mapInsert)

/-! ## The grammar with actions that keep the numbers -/

/-- For every parent the contexts and local ids of the beliefs returned to it. -/
structure Entries where
  parsed : List (ℕ × List (ℕ × ℕ))
  parent : ℕ
  current : List (ℕ × ℕ)

def Entries.init : Entries := ⟨[], 0, []⟩

def keepParent (source : ℕ) (mgr : Entries) : Option (Entries × Unit) :=
  some (⟨mgr.parsed, source, []⟩, ())

def keepBeliefs (source : ℕ × List ℕ) (mgr : Entries) : Option (Entries × Unit) :=
  some (⟨mgr.parsed, mgr.parent, mgr.current ++ source.2.map (fun id => (source.1, id))⟩, ())

def keepEntry (_ : Unit) (mgr : Entries) : Option (Entries × Unit) :=
  some (⟨mapInsert mgr.parsed (mgr.parent, mgr.current), mgr.parent, mgr.current⟩, ())

def readBeliefs : Parser Entries (ℕ × List ℕ) := do
  let _ ← lit skip ['{']
  let _ ← field "ContextId".toList
  let ctx_id ← uint skip
  let _ ← lit skip [',']
  let _ ← field "ReturnBeliefs".toList
  let _ ← lit skip ['[']
  let local_ids ← sepBy (uint skip) (lit skip [','])
  let _ ← lit skip [']']
  let _ ← lit skip ['}']
  pure (ctx_id, local_ids)

def readSignature : Parser Entries Unit := do
  let _ ← lit skip ['[']
  let _ ← closedList skip (action readBeliefs keepBeliefs) ']'
  pure ()

def readEntry : Parser Entries Unit := do
  let _ ← lit skip ['{']
  let _ ← field "ContextId".toList
  let _ ← action (uint skip) keepParent
  let _ ← lit skip [',']
  let _ ← field "ReturnSignature".toList
  let _ ← readSignature
  lit skip ['}']

def readStart : Parser Entries Unit := do
  let _ ← lit skip ['[']
  let _ ← closedList skip (action readEntry keepEntry) ']'
  pure ()

/-- The entries of a return plan. -/
def readStream (input : Text) : Except ParseError (List (ℕ × List (ℕ × ℕ))) :=
  (phraseParse skip readStart (input ++ ['\n']) Entries.init).map Entries.parsed

/-! ## The states of the entries -/

variable {bso : BeliefStateOffset}

/-- The state with all epsilon bits and the bits of the beliefs. -/
def stateOf (bso : BeliefStateOffset) (beliefs : List (ℕ × ℕ)) : NewBeliefState bso.width :=
  beliefs.foldl (fun s b => s.set (bso.startingOffset b.1 + b.2) .dmcsTrue)
    ((NewBeliefState.empty bso.width).setEpsilonAll bso)

/-- What `set` asserts of a belief. -/
def Settable (bso : BeliefStateOffset) (b : ℕ × ℕ) : Prop :=
  b.1 < bso.noBlocks ∧ bso.startingOffset b.1 + b.2 < bso.width

/-- The map of the parser holds the states of the entries. -/
structure Listed (s : Semantics bso) (t : Entries) : Prop where
  parsed : s.parsedResult = t.parsed.map (fun e => (e.1, stateOf bso e.2))
  settable : ∀ e ∈ t.parsed, ∀ b ∈ e.2, Settable bso b

/-- Both are at the same entry. -/
structure AtEntry (s : Semantics bso) (t : Entries) : Prop where
  listed : Listed s t
  parent : s.currentParentID = t.parent
  current : s.currentBeliefState = stateOf bso t.current
  settable : ∀ b ∈ t.current, Settable bso b

section Actions

lemma listed_getCurrentParentID {n : ℕ} {s s' : Semantics bso} {t : Entries} {u : Unit}
    (h : Listed s t) (hact : getCurrentParentID n s = some (s', u)) :
    ∃ t', keepParent n t = some (t', ()) ∧ AtEntry s' t' := by
  rw [← (Prod.mk.inj (Option.some.inj hact)).1]
  refine ⟨⟨t.parsed, n, []⟩, rfl, ⟨h.parsed, h.settable⟩, rfl, rfl, ?_⟩
  exact fun b hb => absurd hb List.not_mem_nil

/-- The loop over the local ids of a block. -/
lemma foldlM_activate {c : ℕ} {ids : List ℕ} {beliefs : List (ℕ × ℕ)}
    {current : NewBeliefState bso.width} (hset : ∀ b ∈ beliefs, Settable bso b)
    (h : ids.foldlM (fun current local_id =>
        if c < bso.noBlocks ∧ bso.startingOffset c + local_id < bso.width then
          some (current.set (bso.startingOffset c + local_id) .dmcsTrue)
        else none) (stateOf bso beliefs) = some current) :
    current = stateOf bso (beliefs ++ ids.map (fun id => (c, id))) ∧
      ∀ b ∈ beliefs ++ ids.map (fun id => (c, id)), Settable bso b := by
  induction ids generalizing beliefs with
  | nil =>
      rw [List.map_nil, List.append_nil]
      exact ⟨(Option.some.inj h).symm, hset⟩
  | cons id ids ih =>
      rw [List.foldlM_cons] at h
      obtain ⟨next, hnext, h⟩ := Option.bind_eq_some_iff.1 h
      split at hnext
      · rename_i hsettable
        have hstate : next = stateOf bso (beliefs ++ [(c, id)]) := by
          rw [← Option.some.inj hnext]
          unfold stateOf
          rw [List.foldl_append]
          rfl
        have hall : ∀ b ∈ beliefs ++ [(c, id)], Settable bso b := by
          intro b hb
          rcases List.mem_append.1 hb with hb | hb
          · exact hset b hb
          · rw [List.mem_singleton.1 hb]
            exact hsettable
        rw [hstate] at h
        have hrest := ih hall h
        rwa [List.append_assoc, List.singleton_append, ← List.map_cons] at hrest
      · exact absurd hnext.symm (Option.some_ne_none next)

lemma atEntry_activateBits {source : ℕ × List ℕ} {s s' : Semantics bso} {t : Entries} {u : Unit}
    (h : AtEntry s t) (hact : activateBits source s = some (s', u)) :
    ∃ t', keepBeliefs source t = some (t', ()) ∧ AtEntry s' t' := by
  unfold activateBits at hact
  rw [h.current] at hact
  obtain ⟨current, hcurrent, heq⟩ := Option.bind_eq_some_iff.1 hact
  rw [← (Prod.mk.inj (Option.some.inj heq)).1]
  obtain ⟨hstate, hset⟩ := foldlM_activate h.settable hcurrent
  exact ⟨_, rfl, ⟨h.listed.parsed, h.listed.settable⟩, h.parent, hstate, hset⟩

lemma atEntry_insertIntoMap {s s' : Semantics bso} {t : Entries} {u : Unit} (h : AtEntry s t)
    (hact : insertIntoMap () s = some (s', u)) :
    ∃ t', keepEntry () t = some (t', ()) ∧ Listed s' t' := by
  rw [← (Prod.mk.inj (Option.some.inj hact)).1]
  refine ⟨_, rfl, ?_⟩
  have hkeys : s.parsedResult.map Prod.fst = t.parsed.map Prod.fst := by
    rw [h.listed.parsed, List.map_map]
    rfl
  have hmap : (mapInsert t.parsed (t.parent, t.current)).map (fun e => (e.1, stateOf bso e.2)) =
      if s.currentParentID ∈ s.parsedResult.map Prod.fst then s.parsedResult
      else s.parsedResult ++ [(s.currentParentID, s.currentBeliefState)] := by
    unfold mapInsert
    rw [hkeys, h.parent, h.current, h.listed.parsed, apply_ite (List.map _), List.map_append]
    rfl
  refine ⟨hmap.symm, fun e he => ?_⟩
  have he' : e ∈ mapInsert t.parsed (t.parent, t.current) := he
  unfold mapInsert at he'
  split at he'
  · exact h.listed.settable e he'
  · rcases List.mem_append.1 he' with he' | he'
    · exact h.listed.settable e he'
    · rw [List.mem_singleton.1 he']
      exact h.settable

end Actions

/-! ## The two parsers side by side -/

section Follows

lemma follows_readBeliefs {g : Prop} {P : Semantics bso → Entries → Prop} :
    Follows g returnBeliefs readBeliefs P P P Eq := by
  apply (Follows.lit skip _).seq
  intro _
  apply (follows_field _).seq
  intro _
  apply (Follows.uint skip).seq
  intro ctx_id
  apply (Follows.lit skip _).seq
  intro _
  apply (follows_field _).seq
  intro _
  apply (Follows.lit skip _).seq
  intro _
  apply ((Follows.uint skip).sepBy (Follows.lit skip _)).list.seq
  intro local_ids
  apply (Follows.lit skip _).seq
  intro _
  exact (Follows.lit skip _).seq (fun _ => Follows.pure rfl)

lemma follows_readSignature :
    Follows False (returnSignature : Parser (Semantics bso) Unit) readSignature AtEntry AtEntry
      AtEntry Eq := by
  have hblock : Follows False (action (returnBeliefs : Parser (Semantics bso) _) activateBits)
      (action readBeliefs keepBeliefs) AtEntry AtEntry AtEntry Eq := by
    apply follows_readBeliefs.action
    rintro source _ s t s' u hst rfl hact
    obtain ⟨t', ht', hst'⟩ := atEntry_activateBits hst hact
    exact Or.inr ⟨t', (), ht', hst', rfl⟩
  apply (Follows.lit skip _).seq
  intro _
  apply (hblock.closedList skip ']').bind
  intro _ _ _
  exact Follows.pure rfl

lemma follows_readEntry :
    Follows False (returnPlan : Parser (Semantics bso) Unit) readEntry Listed AtEntry Listed
      Eq := by
  have hparent : Follows False (action (uint skip : Parser (Semantics bso) ℕ) getCurrentParentID)
      (action (uint skip) keepParent) Listed AtEntry Listed Eq := by
    apply (Follows.uint skip).action
    rintro source _ s t s' u hst rfl hact
    obtain ⟨t', ht', hst'⟩ := listed_getCurrentParentID hst hact
    exact Or.inr ⟨t', (), ht', hst', rfl⟩
  apply (Follows.lit skip _).seq
  intro _
  apply (follows_field _).seq
  intro _
  apply hparent.seq
  intro _
  apply Follows.weaken _ (fun _ _ h => AtEntry.listed h)
  apply (Follows.lit skip _).seq
  intro _
  apply (follows_field _).seq
  intro _
  apply follows_readSignature.seq
  intro _
  exact Follows.lit skip _

lemma follows_readStart :
    Follows False (start : Parser (Semantics bso) Unit) readStart Listed Listed Listed Eq := by
  have hentry : Follows False (action (returnPlan : Parser (Semantics bso) Unit) insertIntoMap)
      (action readEntry keepEntry) Listed Listed Listed Eq := by
    apply follows_readEntry.action
    rintro _ _ s t s' u hst - hact
    obtain ⟨t', ht', hst'⟩ := atEntry_insertIntoMap hst hact
    exact Or.inr ⟨t', (), ht', hst', rfl⟩
  apply (Follows.lit skip _).seq
  intro _
  apply (hentry.closedList skip ']').bind
  intro _ _ _
  exact Follows.pure rfl

end Follows

/-- An accepted return plan holds the states of its entries, and `set` has asserted every belief of
them. -/
lemma readStream_of_parseStream {text : Text} {plan : List (ℕ × NewBeliefState bso.width)}
    (h : parseStream bso text = .ok plan) :
    ∃ entries, readStream text = .ok entries ∧
      plan = entries.map (fun e => (e.1, stateOf bso e.2)) ∧
      ∀ e ∈ entries, ∀ b ∈ e.2, Settable bso b := by
  have hinit : Listed (Semantics.init bso) Entries.init :=
    ⟨rfl, fun e he => absurd he List.not_mem_nil⟩
  unfold parseStream parseString at h
  cases hparse : phraseParse skip start (text ++ ['\n']) (Semantics.init bso) with
  | error e =>
      rw [hparse] at h
      cases h
  | ok s =>
      rw [hparse] at h
      obtain ⟨hfalse, -⟩ | ⟨t, ht, hlisted⟩ := phraseParse_follows follows_readStart hinit hparse
      · exact hfalse.elim
      · refine ⟨t.parsed, ?_, ?_, hlisted.settable⟩
        · unfold readStream
          rw [ht]
          rfl
        · rw [← Except.ok.inj h]
          exact hlisted.parsed

end ReturnPlanGrammar

end Dmcs
