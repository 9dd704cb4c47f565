import Dmcs.Parser.BaseParser
import Dmcs.Generator.NewStaticGen
import Dmcs.Mcs.WellFormed

/-!
# Return plans: the generator's text and its parser (`ReturnPlanGrammar`)

A return plan says, for every parent of a context, which beliefs of which contexts are sent back to
it.  The generator writes one entry per parent from an interface state and the parser rebuilds the
state from the entry.

The writer emits a line for every block whose epsilon bit is set, whatever it holds, and the grammar
wants at least one number in a list of beliefs and at least one block in a signature: a block
without a `TRUE` belief and a state without any block are written and then refused.

## The argument

The text of a plan is taken apart along the grammar: the entries of the parents, the blocks of an
entry, the numbers of a block.  On each level the written text is a list in which every element is
followed by a comma, so one lemma of the library reads it (`closedList_good`), or refuses it if some
element cannot be read (`closedList_bad`).  `BlockReadable`, `SignatureReadable` and `PlanReadable`
say when; for interface states this comes to `Writable`.
-/

namespace Dmcs

namespace ReturnPlanGrammar

open Qi BaseParser NewStaticGen

variable {bso : BeliefStateOffset}

/-! ## The grammar -/

/-- `ReturnPlanGrammarSemantics`. -/
structure Semantics (bso : BeliefStateOffset) where
  parsedResult : List (ℕ × NewBeliefState bso.width)
  currentParentID : ℕ
  currentBeliefState : NewBeliefState bso.width

def Semantics.init (bso : BeliefStateOffset) : Semantics bso :=
  ⟨[], 0, NewBeliefState.empty bso.width⟩

def getCurrentParentID (source : ℕ) (mgr : Semantics bso) : Option (Semantics bso × Unit) :=
  some (⟨mgr.parsedResult, source, (NewBeliefState.empty bso.width).setEpsilonAll bso⟩, ())

/-- `activateBits`; `set` asserts that the bit exists. -/
def activateBits (source : ℕ × List ℕ) (mgr : Semantics bso) : Option (Semantics bso × Unit) := do
  let current ← source.2.foldlM (fun current local_id =>
      if source.1 < bso.noBlocks ∧ bso.startingOffset source.1 + local_id < bso.width then
        some (current.set (bso.startingOffset source.1 + local_id) .dmcsTrue)
      else none)
    mgr.currentBeliefState
  some (⟨mgr.parsedResult, mgr.currentParentID, current⟩, ())

/-- `insertIntoMap`: a parent that is in the map already keeps its state. -/
def insertIntoMap (_ : Unit) (mgr : Semantics bso) : Option (Semantics bso × Unit) :=
  some ({ mgr with
    parsedResult :=
      if mgr.currentParentID ∈ mgr.parsedResult.map Prod.fst then mgr.parsedResult
      else mgr.parsedResult ++ [(mgr.currentParentID, mgr.currentBeliefState)] }, ())

def returnBeliefs : Parser (Semantics bso) (ℕ × List ℕ) := do
  let _ ← lit skip ['{']
  let _ ← field "ContextId".toList
  let ctx_id ← uint skip
  let _ ← lit skip [',']
  let _ ← field "ReturnBeliefs".toList
  let _ ← lit skip ['[']
  let local_ids ← sepBy (uint skip) (lit skip [','])
  let _ ← lit skip [']']
  let _ ← lit skip ['}']
  pure (ctx_id, local_ids)

def returnSignature : Parser (Semantics bso) Unit := do
  let _ ← lit skip ['[']
  let _ ← closedList skip (action returnBeliefs activateBits) ']'
  pure ()

def returnPlan : Parser (Semantics bso) Unit := do
  let _ ← lit skip ['{']
  let _ ← field "ContextId".toList
  let _ ← action (uint skip) getCurrentParentID
  let _ ← lit skip [',']
  let _ ← field "ReturnSignature".toList
  let _ ← returnSignature
  lit skip ['}']

def start : Parser (Semantics bso) Unit := do
  let _ ← lit skip ['[']
  let _ ← closedList skip (action returnPlan insertIntoMap) ']'
  pure ()

/-- `Parser::parseString` for return plans. -/
def parseString (bso : BeliefStateOffset) (str : Text) :
    Except ParseError (List (ℕ × NewBeliefState bso.width)) :=
  (phraseParse skip start str (Semantics.init bso)).map Semantics.parsedResult

/-- `Parser::parseStream` ends every line it reads with a line break, also the last one, which is
empty. -/
def parseStream (bso : BeliefStateOffset) (input : Text) :
    Except ParseError (List (ℕ × NewBeliefState bso.width)) :=
  parseString bso (input ++ ['\n'])

/-! ## Reading what was written -/

section Tokens

variable {σ : Type} {s : σ} {n : ℕ} {ns : List ℕ} {r w : Text}

/-- A number and the blanks in front of it. -/
def blankNumber (x : Text × ℕ) : Text := x.1 ++ decimal x.2

/-- Numbers up to a tail that begins with something else than a number after a comma. -/
lemma sepBy_uint {tail : Text} (hn : n < 2 ^ 32) (hns : ∀ m ∈ ns, m < 2 ^ 32)
    (htail : NoDigit tail)
    (hend : ∀ s : σ, (do let _ ← lit skip [',']; uint skip) tail s = .failure tail s) :
    sepBy (uint skip) (lit skip [','])
      (decimal n ++ (ns.flatMap (fun m => ", ".toList ++ decimal m) ++ tail)) s =
      .success (n :: ns) tail s := by
  have hlist : sepBy (uint skip) (lit skip [','])
      (blankNumber ([], n) ++ ((ns.map (fun m => ([' '], m))).flatMap
        (fun x => [','] ++ blankNumber x) ++ tail)) s =
      ofAction ((([], n) :: ns.map (fun m => ([' '], m))).map Prod.snd) tail
        (((([], n) :: ns.map (fun m => ([' '], m))).foldlM (fun s _ => some s) s).map
          (fun s => s)) := by
    apply sepBy_texts NoDigit
    · intro x hx r s hr
      rcases List.mem_cons.1 hx with rfl | hx
      · exact uint_decimal (w := []) (by decide) hn hr
      · obtain ⟨m, hm, rfl⟩ := List.mem_map.1 hx
        exact uint_decimal (w := [' ']) (by decide) (hns m hm) hr
    · exact fun r s => ⟨(), lit_comma r s⟩
    · exact List.cons_ne_nil _ _
    · exact fun r => (noDigit_cons ',' r).2 (by decide)
    · exact htail
    · exact hend
  rw [foldlM_const] at hlist
  simpa [blankNumber, List.flatMap_map, Function.comp_def] using hlist

/-- A list of numbers in brackets. -/
lemma sepBy_commaSeparated (hne : ns ≠ []) (hns : ∀ m ∈ ns, m < 2 ^ 32) :
    sepBy (uint skip) (lit skip [',']) (commaSeparated ns ++ ']' :: r) s =
      .success ns (']' :: r) s := by
  obtain ⟨n, ns, rfl⟩ := List.exists_cons_of_ne_nil hne
  rw [commaSeparated, List.append_assoc]
  apply sepBy_uint (hns n List.mem_cons_self) (fun m hm => hns m (List.mem_cons_of_mem n hm))
  · exact (noDigit_cons ']' r).2 (by decide)
  · intro s
    exact bind_of_failure (lit_of_none (by simp [skip_cons, isSpace, afterText]))

/-- A list with a number that is too large is not read up to its bracket. -/
lemma sepBy_of_large (hlarge : ¬ ∀ m ∈ ns, m < 2 ^ 32) :
    (∃ inp, sepBy (uint skip) (lit skip [',']) (commaSeparated ns ++ ']' :: r) s = .failure inp s) ∨
      ∃ ms cs, sepBy (uint skip) (lit skip [',']) (commaSeparated ns ++ ']' :: r) s =
        .success ms (',' :: cs) s := by
  obtain ⟨ms, m, ks, rfl, hms, hm⟩ := exists_first_bad hlarge
  have hm' : 2 ^ 32 ≤ m := Nat.le_of_not_lt hm
  have hnext : ∀ ks : List ℕ,
      NoDigit (ks.flatMap (fun k => ", ".toList ++ decimal k) ++ ']' :: r) := by
    intro ks
    cases ks with
    | nil => exact (noDigit_cons _ _).2 (by decide)
    | cons k ks => exact (noDigit_cons _ _).2 (by decide)
  cases ms with
  | nil =>
      left
      have hfirst := uint_of_large (s := s) (w := []) (by decide) hm' (hnext ks)
      rw [List.nil_append, commaSeparated, List.append_assoc]
      exact ⟨_, bind_of_failure hfirst⟩
  | cons n ms =>
      right
      refine ⟨n :: ms, " ".toList ++ decimal m ++
        (ks.flatMap (fun k => ", ".toList ++ decimal k) ++ ']' :: r), ?_⟩
      have hsplit : commaSeparated (n :: ms ++ m :: ks) ++ ']' :: r =
          decimal n ++ (ms.flatMap (fun k => ", ".toList ++ decimal k) ++
            ',' :: (" ".toList ++ decimal m ++
              (ks.flatMap (fun k => ", ".toList ++ decimal k) ++ ']' :: r))) := by
        simp [commaSeparated]
      rw [hsplit]
      apply sepBy_uint (hms n List.mem_cons_self) (fun k hk => hms k (List.mem_cons_of_mem n hk))
      · exact (noDigit_cons _ _).2 (by decide)
      · intro s
        rw [bind_of_success (lit_comma _ s), uint_of_large (by decide) hm' (hnext ks)]
        rfl

end Tokens

section Blocks

variable {s : Semantics bso} {c : ℕ} {ids : List ℕ} {r : Text}

/-- The text of a block, from the line break in front of it up to its comma. -/
def blockText (c : ℕ) (ids : List ℕ) : Text :=
  "\n      \x7b\n        ContextId: ".toList ++ decimal c ++
    ",\n        ReturnBeliefs: [".toList ++ commaSeparated ids ++ "]\n      \x7d".toList

/-- The numbers of a block, in the form the parser can read. -/
def BlockReadable (c : ℕ) (ids : List ℕ) : Prop :=
  c < 2 ^ 32 ∧ ids ≠ [] ∧ ∀ id ∈ ids, id < 2 ^ 32

lemma blockText_append (c : ℕ) (ids : List ℕ) (r : Text) :
    blockText c ids ++ r = "\n      ".toList ++ '{' :: ("\n        ".toList ++
      ("ContextId".toList ++ ':' :: ([' '] ++ decimal c ++ ',' :: ("\n        ".toList ++
        ("ReturnBeliefs".toList ++ ':' :: ([' '] ++ '[' :: (commaSeparated ids ++
          ']' :: ("\n      ".toList ++ '}' :: r)))))))) := by
  unfold blockText
  simp only [List.append_assoc]
  rfl

/-- Everything in front of the numbers. -/
lemma returnBeliefs_eq (hc : c < 2 ^ 32) :
    returnBeliefs (blockText c ids ++ r) s =
      ((do
        let local_ids ← sepBy (uint skip) (lit skip [','])
        let _ ← lit skip [']']
        let _ ← lit skip ['}']
        pure (c, local_ids) : Parser (Semantics bso) (ℕ × List ℕ))
        (commaSeparated ids ++ ']' :: ("\n      ".toList ++ '}' :: r)) s).restore
        (blockText c ids ++ r) := by
  rw [blockText_append]
  unfold returnBeliefs
  rw [bind_of_success (lit_blank (by decide) (by decide)),
    bind_of_success (field_blank (by decide) (by decide)),
    bind_of_success (uint_decimal (by decide) hc (by simp)),
    bind_of_success (lit_comma _ _),
    bind_of_success (field_blank (by decide) (by decide)),
    bind_of_success (lit_blank (by decide) (by decide))]
  simp only [restore_restore]

lemma returnBeliefs_of_readable (h : BlockReadable c ids) :
    returnBeliefs (blockText c ids ++ r) s = .success (c, ids) r s := by
  obtain ⟨hc, hne, hids⟩ := h
  rw [returnBeliefs_eq hc, bind_of_success (sepBy_commaSeparated hne hids),
    bind_of_success (lit_visible (by decide)),
    bind_of_success (lit_blank (by decide) (by decide))]
  rfl

lemma returnBeliefs_of_not_readable (h : ¬ BlockReadable c ids) :
    returnBeliefs (blockText c ids ++ r) s = .failure (blockText c ids ++ r) s := by
  by_cases hc : c < 2 ^ 32
  · rw [returnBeliefs_eq hc]
    by_cases hids : ∀ id ∈ ids, id < 2 ^ 32
    · -- the list is empty, so the parser meets the bracket where it wants a number
      have hnil : ids = [] := by
        by_contra hne
        exact h ⟨hc, hne, hids⟩
      subst hnil
      have hskip : ∀ r, skip (']' :: r) = ']' :: r :=
        fun r => skip_of_startsVisible (t := [']']) (by decide)
      have hlist : ∀ r, sepBy (uint skip) (lit skip [',']) (']' :: r) s =
          .failure (']' :: r) s := by
        intro r
        unfold sepBy uint
        apply bind_of_failure (r := ']' :: r)
        rw [lexeme_apply, hskip]
        simp [uintAt, digitsOf]
      rw [commaSeparated, List.nil_append, bind_of_failure (hlist _)]
      rfl
    · rcases sepBy_of_large (s := s) hids with ⟨inp, hinp⟩ | ⟨ms, cs, hms⟩
      · rw [bind_of_failure hinp]
        rfl
      · have hskip : skip (',' :: cs) = ',' :: cs :=
          skip_of_startsVisible (t := [',']) (by decide)
        rw [bind_of_success hms,
          bind_of_failure (lit_of_none (by rw [hskip]; simp [afterText]))]
        rfl
  · rw [blockText_append]
    unfold returnBeliefs
    rw [bind_of_success (lit_blank (by decide) (by decide)),
      bind_of_success (field_blank (by decide) (by decide)),
      bind_of_failure (uint_of_large (by decide) (Nat.le_of_not_lt hc) (by simp))]
    rfl

/-- A block that does not begin with a brace is refused at once. -/
lemma returnBeliefs_of_bracket {cs : Text} (hr : skip r = ']' :: cs) :
    returnBeliefs r s = .failure r s := by
  unfold returnBeliefs
  exact bind_of_failure (lit_of_none (by rw [hr]; simp [afterText]))

end Blocks

section Signatures

variable {bs : NewBeliefState bso.width} {r : Text} {s : Semantics bso}

/-- The blocks that are written. -/
def writtenBlocks (bs : NewBeliefState bso.width) : List ℕ :=
  (List.range bso.noBlocks).filter (fun c => bs.test (bso.startingOffset c) = .dmcsTrue)

/-- What the parser does to the current state for a block. -/
def readBlock (bs : NewBeliefState bso.width) (s : Semantics bso) (c : ℕ) : Semantics bso :=
  ⟨s.parsedResult, s.currentParentID, (localIds bso bs c).foldl
    (fun current id => current.set (bso.startingOffset c + id) .dmcsTrue) s.currentBeliefState⟩

lemma activateBits_localIds {c : ℕ} (hc : c < bso.noBlocks) :
    activateBits (c, localIds bso bs c) s = some (readBlock bs s c, ()) := by
  have hloop : ∀ (ids : List ℕ) (current : NewBeliefState bso.width),
      (∀ id ∈ ids, bso.startingOffset c + id < bso.width) →
      ids.foldlM (fun current id =>
        if c < bso.noBlocks ∧ bso.startingOffset c + id < bso.width then
          some (current.set (bso.startingOffset c + id) .dmcsTrue) else none) current =
        some (ids.foldl (fun current id => current.set (bso.startingOffset c + id) .dmcsTrue)
          current) := by
    intro ids
    induction ids with
    | nil => exact fun _ _ => rfl
    | cons id ids ih =>
        intro current hids
        rw [List.foldlM_cons, if_pos ⟨hc, hids id List.mem_cons_self⟩]
        exact ih _ (fun id' hid' => hids id' (List.mem_cons_of_mem id hid'))
  unfold activateBits
  simp only
  rw [hloop _ _ (fun id hid => bso.startingOffset_add_lt hc ((mem_localIds hc).1 hid).2.1)]
  rfl

/-- The written blocks as a list of the grammar. -/
lemma blocks_closedListText (bs : NewBeliefState bso.width) :
    ClosedListText skip (action returnBeliefs activateBits) ']'
      (fun c => blockText c (localIds bso bs c)) (fun c => BlockReadable c (localIds bso bs c))
      (fun _ => ()) (readBlock bs) (writtenBlocks bs) where
  comma r := skip_of_startsVisible (t := [',']) (by decide)
  reads := by
    intro c hc hgood r s
    have hlt : c < bso.noBlocks := List.mem_range.1 (List.mem_filter.1 hc).1
    rw [action_of_success (returnBeliefs_of_readable hgood), activateBits_localIds hlt]
  rejects := by
    intro c _ hbad r s
    exact ⟨s, action_of_failure (returnBeliefs_of_not_readable hbad)⟩
  open_ne := by
    intro c _ r
    rw [blockText_append]
    exact ⟨'{', _, (skipper_blanks (by decide)).trans
      (skip_of_startsVisible (t := ['{']) (by decide)), by decide⟩
  close_fails := by
    intro r cs hr s
    exact ⟨r, action_of_failure (returnBeliefs_of_bracket hr)⟩

/-- The text between the brackets of a signature: the line break in front moves to the end. -/
lemma flatMap_writeReturnBeliefs (l : List ℕ) :
    '\n' :: l.flatMap (writeReturnBeliefs bso bs) =
      (l.filter (fun c => bs.test (bso.startingOffset c) = .dmcsTrue)).flatMap
        (fun c => blockText c (localIds bso bs c) ++ [',']) ++ ['\n'] := by
  induction l with
  | nil => rfl
  | cons c l ih =>
      rw [List.flatMap_cons, List.filter_cons]
      by_cases hc : bs.test (bso.startingOffset c) = .dmcsTrue
      · rw [if_pos (by simpa using hc), List.flatMap_cons, List.append_assoc, ← ih]
        unfold writeReturnBeliefs blockText
        rw [if_pos hc]
        simp only [List.append_assoc]
        rfl
      · rw [if_neg (by simpa using hc)]
        unfold writeReturnBeliefs at ih ⊢
        rw [if_neg hc]
        exact ih

/-- The signature of a state, and what follows it. -/
def signatureText (bs : NewBeliefState bso.width) (r : Text) : Text :=
  "\n    ".toList ++ '[' :: ((writtenBlocks bs).flatMap
    (fun c => blockText c (localIds bso bs c) ++ [',']) ++ ("\n   ".toList ++ ']' :: r))

/-- The grammar can read what is written for a state. -/
def SignatureReadable (bs : NewBeliefState bso.width) : Prop :=
  writtenBlocks bs ≠ [] ∧ ∀ c ∈ writtenBlocks bs, BlockReadable c (localIds bso bs c)

lemma skip_signature_tail (r : Text) : skip ("\n   ".toList ++ ']' :: r) = ']' :: r :=
  (skipper_blanks (by decide)).trans (skip_of_startsVisible (t := [']']) (by decide))

lemma returnSignature_of_readable (h : SignatureReadable bs) :
    returnSignature (signatureText bs r) s =
      .success () r ((writtenBlocks bs).foldl (readBlock bs) s) := by
  unfold returnSignature signatureText
  rw [bind_of_success (lit_blank (by decide) (by decide)), bind_of_success
    ((blocks_closedListText bs).closedList_good h.1 h.2 (skip_signature_tail r) s)]
  rfl

lemma returnSignature_of_not_readable (h : ¬ SignatureReadable bs) :
    ∃ s', returnSignature (signatureText bs r) s = .failure (signatureText bs r) s' := by
  unfold returnSignature signatureText
  rw [bind_of_success (lit_blank (by decide) (by decide))]
  by_cases hgood : ∀ c ∈ writtenBlocks bs, BlockReadable c (localIds bso bs c)
  · have hnil : writtenBlocks bs = [] := by
      by_contra hne
      exact h ⟨hne, hgood⟩
    have hfail := (blocks_closedListText bs).closedList_nil (skip_signature_tail r) s
    rw [hnil, List.flatMap_nil, List.nil_append, bind_of_failure hfail]
    exact ⟨s, rfl⟩
  · obtain ⟨s', hs'⟩ :=
      (blocks_closedListText bs).closedList_bad hgood ("\n   ".toList ++ ']' :: r) s
    rw [bind_of_failure hs']
    exact ⟨s', rfl⟩

end Signatures

section Plans

variable {parent : ℕ} {bs : NewBeliefState bso.width} {r : Text} {s : Semantics bso}

/-- The entry of a parent, from the line break in front of it up to its comma. -/
def planText (parent : ℕ) (bs : NewBeliefState bso.width) : Text :=
  "\n  ".toList ++ '{' :: ("\n    ".toList ++ ("ContextId".toList ++ ':' ::
    ([' '] ++ decimal parent ++ ',' :: ("\n    ".toList ++ ("ReturnSignature".toList ++ ':' ::
      signatureText bs ("\n  ".toList ++ ['}']))))))

lemma writeReturnSignature_eq (parent : ℕ) (bs : NewBeliefState bso.width) :
    '\n' :: writeReturnSignature bso bs parent = planText parent bs ++ ",\n".toList := by
  have hhead : '\n' :: "  \x7b\n    ContextId: ".toList = "\n  ".toList ++ '{' ::
      ("\n    ".toList ++ ("ContextId".toList ++ [':', ' '])) := by decide
  have hmiddle : ",\n    ReturnSignature:\n    [\n".toList = ',' :: ("\n    ".toList ++
      ("ReturnSignature".toList ++ ':' :: ("\n    ".toList ++ ['[', '\n']))) := by decide
  have htail : '\n' :: "   ]\n  \x7d,\n".toList = "\n   ".toList ++ ']' ::
      ("\n  ".toList ++ '}' :: ",\n".toList) := by decide
  have hblocks : ∀ r : Text,
      '\n' :: ((List.range bso.noBlocks).flatMap (writeReturnBeliefs bso bs) ++ r) =
        (writtenBlocks bs).flatMap (fun c => blockText c (localIds bso bs c) ++ [',']) ++
          '\n' :: r := by
    intro r
    rw [← List.cons_append, flatMap_writeReturnBeliefs, List.append_assoc]
    rfl
  unfold writeReturnSignature planText signatureText
  simp only [List.append_assoc, ← List.cons_append, hhead, hmiddle]
  simp only [List.cons_append, List.nil_append]
  rw [hblocks, htail]

/-- The grammar can read the entry of a parent. -/
def PlanReadable (parent : ℕ) (bs : NewBeliefState bso.width) : Prop :=
  parent < 2 ^ 32 ∧ SignatureReadable bs

/-- The state the parser builds for a parent. -/
def planState (bs : NewBeliefState bso.width) : NewBeliefState bso.width :=
  parseInterface bso ((writtenBlocks bs).map (fun c => (c, localIds bso bs c)))

lemma foldl_readBlock (l : List ℕ) (s : Semantics bso) :
    l.foldl (readBlock bs) s = ⟨s.parsedResult, s.currentParentID,
      (l.map (fun c => (c, localIds bso bs c))).foldl (fun g entry => entry.2.foldl
        (fun g address => g.set (bso.startingOffset entry.1 + address) .dmcsTrue) g)
        s.currentBeliefState⟩ := by
  induction l generalizing s with
  | nil => rfl
  | cons c l ih =>
      rw [List.foldl_cons, ih]
      rfl

lemma signatureText_append (bs : NewBeliefState bso.width) (r r' : Text) :
    signatureText bs r ++ r' = signatureText bs (r ++ r') := by
  unfold signatureText
  simp only [List.append_assoc, List.cons_append]

lemma planText_append (parent : ℕ) (bs : NewBeliefState bso.width) (r : Text) :
    planText parent bs ++ r = "\n  ".toList ++ '{' :: ("\n    ".toList ++ ("ContextId".toList ++
      ':' :: ([' '] ++ decimal parent ++ ',' :: ("\n    ".toList ++ ("ReturnSignature".toList ++
        ':' :: signatureText bs ("\n  ".toList ++ '}' :: r)))))) := by
  unfold planText
  simp only [List.append_assoc, List.cons_append, signatureText_append, List.nil_append]

lemma returnPlan_of_readable (h : PlanReadable parent bs) :
    returnPlan (planText parent bs ++ r) s =
      .success () r ⟨s.parsedResult, parent, planState bs⟩ := by
  have hparent : ∀ r, NoDigit r →
      action (uint skip) getCurrentParentID ([' '] ++ decimal parent ++ r) s =
      .success () r ⟨s.parsedResult, parent, (NewBeliefState.empty bso.width).setEpsilonAll bso⟩ :=
    fun r hr => action_of_success (uint_decimal (by decide) h.1 hr)
  rw [planText_append]
  unfold returnPlan
  rw [bind_of_success (lit_blank (by decide) (by decide)),
    bind_of_success (field_blank (by decide) (by decide)),
    bind_of_success (hparent _ (by simp)),
    bind_of_success (lit_comma _ _),
    bind_of_success (field_blank (by decide) (by decide)),
    bind_of_success (returnSignature_of_readable h.2), lit_blank (by decide) (by decide),
    foldl_readBlock]
  rfl

lemma returnPlan_of_not_readable (h : ¬ PlanReadable parent bs) :
    ∃ s', returnPlan (planText parent bs ++ r) s = .failure (planText parent bs ++ r) s' := by
  rw [planText_append]
  unfold returnPlan
  rw [bind_of_success (lit_blank (by decide) (by decide)),
    bind_of_success (field_blank (by decide) (by decide))]
  by_cases hparent : parent < 2 ^ 32
  · have haction : ∀ r, NoDigit r →
        action (uint skip) getCurrentParentID ([' '] ++ decimal parent ++ r) s =
          .success () r
            ⟨s.parsedResult, parent, (NewBeliefState.empty bso.width).setEpsilonAll bso⟩ :=
      fun r hr => action_of_success (uint_decimal (by decide) hparent hr)
    obtain ⟨s', hs'⟩ := returnSignature_of_not_readable (r := "\n  ".toList ++ '}' :: r)
      (s := ⟨s.parsedResult, parent, (NewBeliefState.empty bso.width).setEpsilonAll bso⟩)
      (fun hsig => h ⟨hparent, hsig⟩)
    rw [bind_of_success (haction _ (by simp)), bind_of_success (lit_comma _ _),
      bind_of_success (field_blank (by decide) (by decide)), bind_of_failure hs']
    exact ⟨s', rfl⟩
  · have haction : ∀ r, NoDigit r →
        action (uint skip) getCurrentParentID ([' '] ++ decimal parent ++ r) s =
          .failure (decimal parent ++ r) s :=
      fun r hr => action_of_failure (uint_of_large (by decide) (Nat.le_of_not_lt hparent) hr)
    rw [bind_of_failure (haction _ (by simp))]
    exact ⟨s, rfl⟩

/-- What the parser does for an entry. -/
def readPlan (s : Semantics bso) (e : ℕ × NewBeliefState bso.width) : Semantics bso :=
  ⟨if e.1 ∈ s.parsedResult.map Prod.fst then s.parsedResult
    else s.parsedResult ++ [(e.1, planState e.2)], e.1, planState e.2⟩

lemma plans_closedListText (entries : List (ℕ × NewBeliefState bso.width)) :
    ClosedListText skip (action returnPlan insertIntoMap) ']' (fun e => planText e.1 e.2)
      (fun e => PlanReadable e.1 e.2) (fun _ => ()) readPlan entries where
  comma r := skip_of_startsVisible (t := [',']) (by decide)
  reads := by
    intro e _ hgood r s
    rw [action_of_success (returnPlan_of_readable hgood)]
    rfl
  rejects := by
    intro e _ hbad r s
    obtain ⟨s', hs'⟩ := returnPlan_of_not_readable (r := ',' :: r) (s := s) hbad
    exact ⟨s', action_of_failure hs'⟩
  open_ne := by
    intro e _ r
    rw [planText_append]
    exact ⟨'{', _, (skipper_blanks (by decide)).trans
      (skip_of_startsVisible (t := ['{']) (by decide)), by decide⟩
  close_fails := by
    intro r cs hr s
    refine ⟨r, action_of_failure ?_⟩
    unfold returnPlan
    exact bind_of_failure (lit_of_none (by rw [hr]; simp [afterText]))

lemma writeReturnPlan_eq (entries : List (ℕ × NewBeliefState bso.width)) :
    writeReturnPlan bso entries ++ ['\n'] =
      '[' :: (entries.flatMap (fun e => planText e.1 e.2 ++ [',']) ++ "\n]\n\n".toList) := by
  have hrotate : '\n' :: entries.flatMap (fun e => writeReturnSignature bso e.2 e.1) =
      entries.flatMap (fun e => planText e.1 e.2 ++ [',']) ++ ['\n'] := by
    induction entries with
    | nil => rfl
    | cons e entries ih =>
        rw [List.flatMap_cons, List.flatMap_cons, List.append_assoc, ← ih, ← List.cons_append,
          writeReturnSignature_eq]
        simp only [List.append_assoc]
        rfl
  calc writeReturnPlan bso entries ++ ['\n']
      = '[' :: (('\n' :: entries.flatMap (fun e => writeReturnSignature bso e.2 e.1)) ++
          "]\n\n".toList) := by
        unfold writeReturnPlan
        simp only [List.append_assoc]
        rfl
    _ = _ := by
        rw [hrotate]
        simp only [List.append_assoc]
        rfl

/-- A plan is accepted when every entry can be read, and each parent gets its state. -/
lemma parseStream_of_readable {entries : List (ℕ × NewBeliefState bso.width)} (hne : entries ≠ [])
    (hnodup : (entries.map Prod.fst).Nodup) (hgood : ∀ e ∈ entries, PlanReadable e.1 e.2) :
    parseStream bso (writeReturnPlan bso entries) =
      .ok (entries.map (fun e => (e.1, planState e.2))) := by
  have hresult : ∀ (l : List (ℕ × NewBeliefState bso.width)) (s : Semantics bso),
      (s.parsedResult.map Prod.fst ++ l.map Prod.fst).Nodup →
      (l.foldl readPlan s).parsedResult =
        s.parsedResult ++ l.map (fun e => (e.1, planState e.2)) := by
    intro l
    induction l with
    | nil => exact fun s _ => (List.append_nil _).symm
    | cons e l ih =>
        intro s hs
        have hnew : e.1 ∉ s.parsedResult.map Prod.fst := by
          intro hmem
          exact (List.nodup_append.1 hs).2.2 _ hmem _ List.mem_cons_self rfl
        have hstep : (readPlan s e).parsedResult = s.parsedResult ++ [(e.1, planState e.2)] := by
          unfold readPlan
          exact if_neg hnew
        rw [List.foldl_cons, ih, hstep]
        · simp
        · rw [hstep]
          simpa using hs
  have htail : skip "\n]\n\n".toList = ']' :: "\n\n".toList := by decide
  have hlist := (plans_closedListText entries).closedList_good hne hgood htail (Semantics.init bso)
  have hstart : start ('[' :: (entries.flatMap (fun e => planText e.1 e.2 ++ [',']) ++
      "\n]\n\n".toList)) (Semantics.init bso) =
      .success () "\n\n".toList (entries.foldl readPlan (Semantics.init bso)) := by
    unfold start
    rw [bind_of_success (lit_visible (by decide)), bind_of_success hlist]
    rfl
  have hend : skip "\n\n".toList = [] := by decide
  unfold parseStream parseString phraseParse
  rw [writeReturnPlan_eq, hstart]
  simp only [hend, if_true]
  show Except.ok _ = _
  rw [hresult entries (Semantics.init bso) hnodup]
  rfl

/-- A plan with an entry that cannot be read is refused. -/
lemma parseStream_of_not_readable {entries : List (ℕ × NewBeliefState bso.width)}
    (hbad : ¬ ∀ e ∈ entries, PlanReadable e.1 e.2) :
    parseStream bso (writeReturnPlan bso entries) = .error .failed := by
  obtain ⟨s', hs'⟩ := (plans_closedListText entries).closedList_bad hbad "\n]\n\n".toList
    (Semantics.init bso)
  have hstart : start ('[' :: (entries.flatMap (fun e => planText e.1 e.2 ++ [',']) ++
      "\n]\n\n".toList)) (Semantics.init bso) =
      .failure ('[' :: (entries.flatMap (fun e => planText e.1 e.2 ++ [',']) ++
        "\n]\n\n".toList)) s' := by
    unfold start
    rw [bind_of_success (lit_visible (by decide)), bind_of_failure hs']
    rfl
  unfold parseStream parseString phraseParse
  rw [writeReturnPlan_eq, hstart]
  rfl

end Plans

/-! ## The round trip -/

section RoundTrip

/-- An interface state: it has `TRUE` beliefs only in blocks whose epsilon bit is set. -/
structure InterfaceState (bso : BeliefStateOffset) where
  state : NewBeliefState bso.width
  epsilon_of_true : ∀ i, state.test i = .dmcsTrue →
    state.test (bso.startingOffset (bso.blockOf i)) = .dmcsTrue

/-- What a return plan is written from: at least one parent, each with one interface state. -/
structure ReturnPlanList (bso : BeliefStateOffset) where
  entries : List (ℕ × InterfaceState bso)
  entries_ne_nil : entries ≠ []
  parents_nodup : (entries.map Prod.fst).Nodup

def ReturnPlanList.text (plan : ReturnPlanList bso) : Text :=
  writeReturnPlan bso (plan.entries.map (fun e => (e.1, e.2.state)))

/-- The plan is accepted, and the state parsed for every parent has all epsilon bits set and as
`TRUE` beliefs exactly those of the state it was written from. -/
def RoundTrip (plan : ReturnPlanList bso) : Prop :=
  ∃ parsed, parseStream bso plan.text = .ok parsed ∧
    ∀ e ∈ plan.entries, ∃ st, parsed.lookup e.1 = some st ∧
      (∀ c < bso.noBlocks, st.test (bso.startingOffset c) = .dmcsTrue) ∧
      ∀ c < bso.noBlocks, ∀ address, 1 ≤ address → address ≤ bso.sizeBs →
        (st.test (bso.startingOffset c + address) = .dmcsTrue ↔
          e.2.state.test (bso.startingOffset c + address) = .dmcsTrue)

/-- The parser of return plans can take in a state written for a parent: some block is defined,
every defined block has a `TRUE` belief, and all numbers that are written fit into 32 bits. -/
structure Writable (parent : ℕ) (bs : NewBeliefState bso.width) : Prop where
  parent_lt : parent < 2 ^ 32
  exists_block : ∃ c < bso.noBlocks, bs.test (bso.startingOffset c) = .dmcsTrue
  block : ∀ c < bso.noBlocks, bs.test (bso.startingOffset c) = .dmcsTrue →
    c < 2 ^ 32 ∧
    (∃ address, 1 ≤ address ∧ address ≤ bso.sizeBs ∧
      bs.test (bso.startingOffset c + address) = .dmcsTrue) ∧
    ∀ address, 1 ≤ address → address ≤ bso.sizeBs →
      bs.test (bso.startingOffset c + address) = .dmcsTrue → address < 2 ^ 32

variable {bs : NewBeliefState bso.width}

lemma mem_writtenBlocks {c : ℕ} :
    c ∈ writtenBlocks bs ↔ c < bso.noBlocks ∧ bs.test (bso.startingOffset c) = .dmcsTrue := by
  simp [writtenBlocks]

lemma planReadable_iff {parent : ℕ} : PlanReadable parent bs ↔ Writable parent bs := by
  constructor
  · rintro ⟨hparent, hne, hblocks⟩
    refine ⟨hparent, ?_, ?_⟩
    · obtain ⟨c, hc⟩ := List.exists_mem_of_ne_nil _ hne
      exact ⟨c, mem_writtenBlocks.1 hc⟩
    · intro c hc heps
      obtain ⟨hlt, hids, hall⟩ := hblocks c (mem_writtenBlocks.2 ⟨hc, heps⟩)
      refine ⟨hlt, ?_, ?_⟩
      · obtain ⟨address, haddress⟩ := List.exists_mem_of_ne_nil _ hids
        exact ⟨address, (mem_localIds hc).1 haddress⟩
      · intro address hone hsize htrue
        exact hall address ((mem_localIds hc).2 ⟨hone, hsize, htrue⟩)
  · intro h
    refine ⟨h.parent_lt, ?_, ?_⟩
    · obtain ⟨c, hc⟩ := h.exists_block
      exact List.ne_nil_of_mem (mem_writtenBlocks.2 hc)
    · intro c hc
      obtain ⟨hlt, heps⟩ := mem_writtenBlocks.1 hc
      obtain ⟨hc32, ⟨address, haddress⟩, hall⟩ := h.block c hlt heps
      refine ⟨hc32, List.ne_nil_of_mem ((mem_localIds hlt).2 haddress), ?_⟩
      intro id hid
      obtain ⟨hone, hsize, htrue⟩ := (mem_localIds hlt).1 hid
      exact hall id hone hsize htrue

/-- The bits of an interface are epsilon bits and listed beliefs. -/
lemma parseInterface_status {entries : List (ℕ × List ℕ)} {i : ℕ} (hi : i < bso.width) :
    (parseInterface bso entries).status_bit.getLsbD i = true ↔
      (∃ c < bso.noBlocks, i = bso.startingOffset c) ∨
        ∃ entry ∈ entries, ∃ address ∈ entry.2, i = bso.startingOffset entry.1 + address := by
  have hepsilon : ∀ (l : List ℕ) (g : NewBeliefState bso.width),
      (l.foldl (fun g c => g.setEpsilon bso c) g).status_bit.getLsbD i = true ↔
        g.status_bit.getLsbD i = true ∨ ∃ c ∈ l, i = bso.startingOffset c := by
    intro l
    induction l with
    | nil => simp
    | cons c l ih =>
        intro g
        rw [List.foldl_cons, ih, NewBeliefState.setEpsilon_status]
        by_cases hc : i = bso.startingOffset c
        · rw [if_pos ⟨hc, hi⟩]
          exact ⟨fun _ => Or.inr ⟨c, List.mem_cons_self, hc⟩, fun _ => Or.inl rfl⟩
        · simp [hc]
  have hloop : ∀ (l : List (ℕ × List ℕ)) (g : NewBeliefState bso.width),
      (l.foldl (fun g entry => entry.2.foldl
        (fun g address => g.set (bso.startingOffset entry.1 + address) .dmcsTrue) g)
        g).status_bit.getLsbD i = true ↔
        g.status_bit.getLsbD i = true ∨
          ∃ entry ∈ l, ∃ address ∈ entry.2, i = bso.startingOffset entry.1 + address := by
    intro l
    induction l with
    | nil => simp
    | cons entry l ih =>
        intro g
        rw [List.foldl_cons, ih, NewContext.foldl_set_status (by decide)]
        simp only [hi, true_and, List.mem_cons, exists_eq_or_imp, or_assoc]
  unfold parseInterface NewBeliefState.setEpsilonAll
  rw [hloop, hepsilon, NewBeliefState.empty_status]
  simp

/-- The state parsed for a parent is the interface of the state written for it. -/
lemma planState_test (bs : InterfaceState bso) {c : ℕ} (hc : c < bso.noBlocks) :
    (planState bs.state).test (bso.startingOffset c) = .dmcsTrue ∧
      ∀ address, 1 ≤ address → address ≤ bso.sizeBs →
        ((planState bs.state).test (bso.startingOffset c + address) = .dmcsTrue ↔
          bs.state.test (bso.startingOffset c + address) = .dmcsTrue) := by
  have hint : WellFormed.Interface bso (planState bs.state) :=
    WellFormed.interface_parseInterface _
  refine ⟨NewBeliefState.test_eq_true.2 ⟨hint.epsilon c hc, ?_⟩, ?_⟩
  · exact (hint.value_eq _).trans (hint.epsilon c hc)
  · intro address hone hsize
    have hlt := bso.startingOffset_add_lt hc hsize
    have hstatus : (planState bs.state).test (bso.startingOffset c + address) = .dmcsTrue ↔
        (planState bs.state).status_bit.getLsbD (bso.startingOffset c + address) = true := by
      rw [NewBeliefState.test_eq_true]
      exact ⟨fun h => h.1, fun h => ⟨h, (hint.value_eq _).trans h⟩⟩
    rw [hstatus]
    unfold planState
    rw [parseInterface_status hlt]
    constructor
    · rintro (⟨c', -, heq⟩ | ⟨entry, hentry, id, hid, heq⟩)
      · -- a belief bit is no epsilon bit
        have hblock := bso.blockOf_add (c := c) hsize
        rw [heq, bso.blockOf_startingOffset] at hblock
        rw [hblock] at heq
        omega
      · obtain ⟨c', hc', rfl⟩ := List.mem_map.1 hentry
        obtain ⟨-, -, htrue⟩ := (mem_localIds (mem_writtenBlocks.1 hc').1).1 hid
        rw [heq]
        exact htrue
    · intro htrue
      have heps := bs.epsilon_of_true _ htrue
      rw [bso.blockOf_add hsize] at heps
      exact Or.inr ⟨(c, localIds bso bs.state c),
        List.mem_map_of_mem (mem_writtenBlocks.2 ⟨hc, heps⟩), address,
        (mem_localIds hc).2 ⟨hone, hsize, htrue⟩, rfl⟩

lemma lookup_map_of_nodup {α β : Type} (f : α → β) {l : List (ℕ × α)}
    (hnodup : (l.map Prod.fst).Nodup) {e : ℕ × α} (he : e ∈ l) :
    (l.map (fun e => (e.1, f e.2))).lookup e.1 = some (f e.2) := by
  induction l with
  | nil => exact absurd he List.not_mem_nil
  | cons e' l ih =>
      rw [List.map_cons, List.nodup_cons] at hnodup
      rw [List.map_cons, List.lookup_cons]
      rcases List.mem_cons.1 he with rfl | he
      · simp
      · have hne : (e.1 == e'.1) = false := by
          rw [beq_eq_false_iff_ne]
          rintro heq
          exact hnodup.1 (heq ▸ List.mem_map_of_mem he)
        rw [hne]
        exact ih hnodup.2 he

/-- The round trip succeeds exactly for plans all of whose states are writable.  One plan that is
not writable fails the parse of all of them. -/
theorem roundTrip_iff (bso : BeliefStateOffset) (plan : ReturnPlanList bso) :
    RoundTrip plan ↔ ∀ e ∈ plan.entries, Writable e.1 e.2.state := by
  have hkeys : ((plan.entries.map (fun e => (e.1, e.2.state))).map Prod.fst).Nodup := by
    rw [List.map_map]
    exact plan.parents_nodup
  have hreadable : (∀ e ∈ plan.entries.map (fun e => (e.1, e.2.state)), PlanReadable e.1 e.2) ↔
      ∀ e ∈ plan.entries, Writable e.1 e.2.state := by
    simp only [List.forall_mem_map, planReadable_iff]
  constructor
  · rintro ⟨parsed, hparsed, -⟩
    by_contra hbad
    rw [← hreadable] at hbad
    have hrefused : parseStream bso plan.text = .error .failed := parseStream_of_not_readable hbad
    rw [hrefused] at hparsed
    cases hparsed
  · intro hgood
    refine ⟨_, parseStream_of_readable (by simpa using plan.entries_ne_nil) hkeys
      (hreadable.2 hgood), ?_⟩
    intro e he
    refine ⟨planState e.2.state, ?_, fun c hc => (planState_test e.2 hc).1,
      fun c hc => (planState_test e.2 hc).2⟩
    rw [List.map_map]
    exact lookup_map_of_nodup (fun bs : InterfaceState bso => planState bs.state)
      plan.parents_nodup he

/-- One context with one belief: its block is defined and nothing in it is believed. -/
def definedEmpty : InterfaceState (BeliefStateOffset.ofSucc 0 0) where
  state := (NewBeliefState.empty _).setEpsilon (BeliefStateOffset.ofSucc 0 0) 0
  epsilon_of_true := by
    intro i hi
    rw [NewBeliefState.test_eq_true, NewBeliefState.setEpsilon_status,
      NewBeliefState.empty_status] at hi
    have hzero : i = 0 := by
      by_contra hne
      rw [if_neg (fun h => hne h.1)] at hi
      exact absurd hi.1 (by decide)
    subst hzero
    decide

/-- The plan for the client, with the number the generator gives it. -/
def clientPlan : ReturnPlanList (BeliefStateOffset.ofSucc 0 0) :=
  ⟨[(1023, definedEmpty)], List.cons_ne_nil _ _, List.nodup_singleton _⟩

/-- A block without a `TRUE` belief is written as an empty list, which the grammar refuses. -/
theorem roundTrip_fails_on_clientPlan : ¬ RoundTrip clientPlan := by
  rintro ⟨parsed, hparsed, -⟩
  have hbad : ¬ ∀ e ∈ clientPlan.entries.map (fun e => (e.1, e.2.state)),
      PlanReadable e.1 e.2 := by
    intro hall
    obtain ⟨-, -, hblocks⟩ := hall (1023, definedEmpty.state) (by simp [clientPlan])
    exact (hblocks 0 (by decide)).2.1 (by decide)
  have hrefused : parseStream _ clientPlan.text = .error .failed := parseStream_of_not_readable hbad
  rw [hrefused] at hparsed
  cases hparsed

end RoundTrip

end ReturnPlanGrammar

end Dmcs
