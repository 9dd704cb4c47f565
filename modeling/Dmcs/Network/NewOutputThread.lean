import Dmcs.Mcs.ReturnedBeliefState
import Dmcs.Network.RequestStream

/-!
# The output thread of a connection (`NewOutputThread`)

The contexts of a server put models and end markers of the queries of one invoker on the
`OUTPUT_MQ` of its connection, in any interleaving of the queries.  The output thread collects what
it receives until an end marker comes, of whichever query, and writes the batch as one
`BackwardMessage`, sorted and without repetitions.

Message number `i` holds what was received after exactly `i` end markers (`Delivered.content`).  So
nothing is lost up to the last end marker, nothing is made up, and no model comes later than an end
marker that was received after it.

## The argument

`startup` is a fold over what is received: a model is put on the list of the batch, and an end
marker closes the batch.  `batches` is the same fold without the code around it, and `unfinished`
what it leaves.  The batch is written as `remove_duplication` makes it of the sorted list; by
`RemoveDuplication` it has the same elements, once each, and the marker at the end.

The id of every message must be that of the invoker the thread was made for; an assertion checks
this, and the sequences of one invoker are those that pass it.
-/

namespace Dmcs

open QueryID ReturnedBeliefState

variable {bso : BeliefStateOffset}

namespace NewOutputThread

/-- `HEADER_ANS`. -/
def headerAns : RequestStream.Header := "DMCS ANS".toList

/-- What is written for a batch: the header and the list of the `BackwardMessage`. -/
structure Answer (bso : BeliefStateOffset) where
  header : RequestStream.Header
  rbsl : List (ReturnedBeliefState bso)

/-- The batch collected so far, what was written, and whether the thread has left its loop. -/
structure State (bso : BeliefStateOffset) where
  outputList : List (ReturnedBeliefState bso)
  written : List (Answer bso)
  stopped : Bool

/-- The thread starts. -/
def State.init : State bso := ⟨[], [], false⟩

/-- `write_result`. -/
def writeResult (outputList : List (ReturnedBeliefState bso)) : Answer bso :=
  ⟨headerAns, sortUnique outputList⟩

/-- `startup`, on the elements of its `OUTPUT_MQ`; at the end of the list it waits.  `none` is the
assertion that all answers are for the invoker of the connection. -/
def startup (invoker : ℕ) : List (Option (ReturnedBeliefState bso)) → State bso →
    Option (State bso)
  | [], s => some s
  | none :: _, s => some { s with outputList := [], stopped := true }
  | some res :: queue, s =>
      if ctxIdFromQid res.qid ≠ invoker then none
      else
        let outputList := s.outputList ++ [res]
        if isEndMarker res then
          startup invoker queue { s with
            outputList := []
            written := s.written ++ [writeResult outputList] }
        else startup invoker queue { s with outputList := outputList }

/-- The answers deliver what was received: every message ends with its only end marker, the end
markers come in the order they were received, and message `i` has exactly the elements received
after `i` end markers, once each. -/
structure Delivered (received : List (ReturnedBeliefState bso)) (answers : List (Answer bso)) :
    Prop where
  header : ∀ a ∈ answers, a.header = headerAns
  endMarkers : answers.map (fun a => a.rbsl.getLast?) = (received.filter isEndMarker).map some
  models : ∀ a ∈ answers, ∀ rbs ∈ a.rbsl.dropLast, isEndMarker rbs = false
  nodup : ∀ a ∈ answers, a.rbsl.Nodup
  content : ∀ (i : ℕ) (a : Answer bso), answers[i]? = some a → ∀ rbs, rbs ∈ a.rbsl ↔
    ∃ before after, received = before ++ rbs :: after ∧ before.countP isEndMarker = i
  notLater : ∀ before between after model marker,
    received = before ++ model :: between ++ marker :: after → isEndMarker marker = true →
      ∃ (i j : ℕ) (a b : Answer bso), i ≤ j ∧ answers[i]? = some a ∧ answers[j]? = some b ∧
        model ∈ a.rbsl ∧
        b.rbsl.getLast? = some marker

/-! ## Batches -/

/-- What is received, cut after each end marker; `batch` was received before. -/
def batches (batch : List (ReturnedBeliefState bso)) :
    List (ReturnedBeliefState bso) → List (List (ReturnedBeliefState bso))
  | [] => []
  | res :: received =>
      if isEndMarker res then (batch ++ [res]) :: batches [] received
      else batches (batch ++ [res]) received

/-- Models, then an end marker. -/
def IsBatch (batch : List (ReturnedBeliefState bso)) : Prop :=
  ∃ models marker, batch = models ++ [marker] ∧ (∀ rbs ∈ models, isEndMarker rbs = false) ∧
    isEndMarker marker = true

section Batches

variable {invoker : ℕ} {batch received : List (ReturnedBeliefState bso)}
  {res rbs : ReturnedBeliefState bso}

lemma models_append (hbatch : ∀ rbs ∈ batch, isEndMarker rbs = false)
    (hres : isEndMarker res = false) : ∀ rbs ∈ batch ++ [res], isEndMarker rbs = false := by
  intro rbs hrbs
  rcases List.mem_append.mp hrbs with hrbs | hrbs
  · exact hbatch rbs hrbs
  · rw [List.mem_singleton.mp hrbs]
    exact hres

/-- The loop writes the batches. -/
lemma startup_eq (hinvoker : ∀ rbs ∈ received, ctxIdFromQid rbs.qid = invoker)
    (written : List (Answer bso)) :
    startup invoker (received.map some ++ [none]) ⟨batch, written, false⟩ =
      some ⟨[], written ++ (batches batch received).map writeResult, true⟩ := by
  induction received generalizing batch written with
  | nil => simp [startup, batches]
  | cons res received ih =>
      have hres := hinvoker res (List.mem_cons_self ..)
      have hrest : ∀ rbs ∈ received, ctxIdFromQid rbs.qid = invoker := fun rbs hrbs =>
        hinvoker rbs (List.mem_cons_of_mem _ hrbs)
      rw [List.map_cons, List.cons_append, startup, if_neg (not_not.mpr hres)]
      cases hend : isEndMarker res with
      | true =>
          simp only [if_true, batches, hend, List.map_cons]
          rw [ih hrest, List.append_assoc, List.singleton_append]
      | false => simp only [Bool.false_eq_true, if_false, batches, hend, ih hrest]

lemma isBatch_of_mem (hbatch : ∀ rbs ∈ batch, isEndMarker rbs = false) :
    ∀ b ∈ batches batch received, IsBatch b := by
  induction received generalizing batch with
  | nil =>
      intro b hb
      cases hb
  | cons res received ih =>
      intro b hb
      unfold batches at hb
      cases hend : isEndMarker res with
      | true =>
          rw [if_pos hend] at hb
          rcases List.mem_cons.mp hb with rfl | hb
          · exact ⟨batch, res, rfl, hbatch, hend⟩
          · exact ih (by simp) b hb
      | false =>
          rw [hend, if_neg Bool.false_ne_true] at hb
          exact ih (models_append hbatch hend) b hb

/-- Every end marker ends a batch. -/
lemma getLast_batches :
    (batches batch received).map List.getLast? = (received.filter isEndMarker).map some := by
  induction received generalizing batch with
  | nil => rfl
  | cons res received ih =>
      unfold batches
      cases hend : isEndMarker res with
      | true => simp [hend, ih]
      | false => simp [hend, ih]

lemma countP_models (hbatch : ∀ rbs ∈ batch, isEndMarker rbs = false) :
    batch.countP isEndMarker = 0 := by
  rw [List.countP_eq_zero]
  intro rbs hrbs
  rw [hbatch rbs hrbs]
  exact Bool.false_ne_true

lemma IsBatch.countP_eq (hbatch : IsBatch batch) : batch.countP isEndMarker = 1 := by
  obtain ⟨models, marker, rfl, hmodels, hmarker⟩ := hbatch
  rw [List.countP_append, countP_models hmodels, List.countP_singleton, if_pos hmarker]

/-- Nothing in a batch comes after its end marker. -/
lemma IsBatch.countP_before (hbatch : IsBatch batch)
    {before after : List (ReturnedBeliefState bso)} (h : batch = before ++ rbs :: after) :
    before.countP isEndMarker = 0 := by
  obtain ⟨models, marker, rfl, hmodels, -⟩ := hbatch
  have hdrop := congrArg List.dropLast h
  rw [List.dropLast_concat, List.dropLast_append_of_ne_nil (List.cons_ne_nil _ _)] at hdrop
  refine countP_models (fun rbs hrbs => hmodels rbs ?_)
  rw [hdrop]
  exact List.mem_append_left _ hrbs

/-- An element is in the first part of a list, or in the second. -/
lemma append_eq_split {before after : List (ReturnedBeliefState bso)}
    (h : batch ++ received = before ++ rbs :: after) :
    (∃ rest, batch = before ++ rbs :: rest) ∨
      ∃ before', before = batch ++ before' ∧ received = before' ++ rbs :: after := by
  rcases List.append_eq_append_iff.mp h with ⟨before', hbefore, hreceived⟩ | ⟨rest, hbatch, hrest⟩
  · exact Or.inr ⟨before', hbefore, hreceived⟩
  · cases rest with
    | nil => exact Or.inr ⟨[], by rw [hbatch, List.append_nil, List.append_nil], hrest.symm⟩
    | cons x rest =>
        obtain ⟨rfl, -⟩ := List.cons_eq_cons.mp hrest
        exact Or.inl ⟨rest, hbatch⟩

/-- The elements of a batch are those received after as many end markers as there are batches
before it. -/
lemma mem_batches (hbatch : ∀ rbs ∈ batch, isEndMarker rbs = false) {i : ℕ}
    {b : List (ReturnedBeliefState bso)} (hb : (batches batch received)[i]? = some b) :
    rbs ∈ b ↔ ∃ before after, batch ++ received = before ++ rbs :: after ∧
      before.countP isEndMarker = i := by
  induction received generalizing batch i with
  | nil => simp [batches] at hb
  | cons res received ih =>
      have hassoc : batch ++ res :: received = (batch ++ [res]) ++ received := by
        rw [List.append_assoc, List.singleton_append]
      unfold batches at hb
      rw [hassoc]
      cases hend : isEndMarker res with
      | false =>
          rw [hend, if_neg Bool.false_ne_true] at hb
          exact ih (models_append hbatch hend) hb
      | true =>
          rw [if_pos hend] at hb
          have hfirst : IsBatch (batch ++ [res]) := ⟨batch, res, rfl, hbatch, hend⟩
          cases i with
          | zero =>
              obtain rfl := Option.some_injective _ hb
              constructor
              · intro hrbs
                obtain ⟨before, rest, hsplit⟩ := List.append_of_mem hrbs
                refine ⟨before, rest ++ received, ?_, hfirst.countP_before hsplit⟩
                rw [hsplit, List.append_assoc, List.cons_append]
              · rintro ⟨before, after, hsplit, hcount⟩
                rcases append_eq_split hsplit with ⟨rest, hrest⟩ | ⟨before', rfl, -⟩
                · rw [hrest]
                  exact List.mem_append_right _ (List.mem_cons_self ..)
                · rw [List.countP_append, hfirst.countP_eq] at hcount
                  omega
          | succ i =>
              rw [List.getElem?_cons_succ] at hb
              rw [ih (by simp) hb]
              constructor
              · rintro ⟨before, after, hsplit, hcount⟩
                rw [List.nil_append] at hsplit
                refine ⟨(batch ++ [res]) ++ before, after, ?_, ?_⟩
                · rw [hsplit, List.append_assoc (batch ++ [res])]
                · rw [List.countP_append, hfirst.countP_eq, hcount, Nat.add_comm]
              · rintro ⟨before, after, hsplit, hcount⟩
                rcases append_eq_split hsplit with ⟨rest, hrest⟩ | ⟨before', rfl, hreceived⟩
                · rw [hfirst.countP_before hrest] at hcount
                  cases hcount
                · rw [List.countP_append, hfirst.countP_eq] at hcount
                  exact ⟨before', after, hreceived, by omega⟩

/-- An end marker is the last of the batch it belongs to. -/
lemma getLast_of_marker {before after : List (ReturnedBeliefState bso)}
    (hreceived : received = before ++ rbs :: after) (hend : isEndMarker rbs = true) :
    ∃ b, (batches [] received)[before.countP isEndMarker]? = some b ∧ b.getLast? = some rbs := by
  have hlast : ((batches [] received).map List.getLast?)[before.countP isEndMarker]? =
      some (some rbs) := by
    rw [getLast_batches, hreceived, List.filter_append, List.filter_cons_of_pos hend,
      List.map_append, List.map_cons, List.getElem?_append_right (by
        rw [List.length_map, List.countP_eq_length_filter]), List.length_map,
      List.countP_eq_length_filter, Nat.sub_self, List.getElem?_cons_zero]
  rw [List.getElem?_map, Option.map_eq_some_iff] at hlast
  exact hlast

/-- What was received after the last end marker. -/
def unfinished (batch : List (ReturnedBeliefState bso)) :
    List (ReturnedBeliefState bso) → List (ReturnedBeliefState bso)
  | [] => batch
  | res :: received =>
      if isEndMarker res then unfinished [] received else unfinished (batch ++ [res]) received

/-- One more model. -/
lemma batches_model (hres : isEndMarker res = false)
    (batch received : List (ReturnedBeliefState bso)) :
    batches batch (received ++ [res]) = batches batch received ∧
      unfinished batch (received ++ [res]) = unfinished batch received ++ [res] := by
  induction received generalizing batch with
  | nil => simp [batches, unfinished, hres]
  | cons x received ih =>
      rw [List.cons_append]
      unfold batches unfinished
      cases hend : isEndMarker x with
      | true => simp [ih]
      | false => simp [ih]

/-- One more end marker. -/
lemma batches_marker (hres : isEndMarker res = true)
    (batch received : List (ReturnedBeliefState bso)) :
    batches batch (received ++ [res]) =
        batches batch received ++ [unfinished batch received ++ [res]] ∧
      unfinished batch (received ++ [res]) = [] := by
  induction received generalizing batch with
  | nil => simp [batches, unfinished, hres]
  | cons x received ih =>
      rw [List.cons_append]
      unfold batches unfinished
      cases hend : isEndMarker x with
      | true => simp [ih]
      | false => simp [ih]

end Batches

section Answers

variable {received batch : List (ReturnedBeliefState bso)} {rbs : ReturnedBeliefState bso}

/-- The message of a batch. -/
lemma writeResult_batch (hbatch : IsBatch batch) :
    (writeResult batch).rbsl.getLast? = batch.getLast? ∧
      (∀ rbs ∈ (writeResult batch).rbsl.dropLast, isEndMarker rbs = false) ∧
      (writeResult batch).rbsl.Nodup ∧ ∀ rbs, rbs ∈ (writeResult batch).rbsl ↔ rbs ∈ batch := by
  obtain ⟨models, marker, rfl, hmodels, hmarker⟩ := hbatch
  obtain ⟨sorted, hsorted, hnodup, hmem⟩ := sortUnique_batch hmodels hmarker
  simp only [writeResult, hsorted, List.getLast?_concat, List.dropLast_concat, List.mem_append,
    hmem]
  exact ⟨trivial, hmodels, hnodup, fun _ => trivial⟩

/-- The batches of what was received, written one by one, deliver it. -/
lemma delivered_batches (received : List (ReturnedBeliefState bso)) :
    Delivered received ((batches [] received).map writeResult) := by
  have hbatch : ∀ b ∈ batches [] received, IsBatch b := isBatch_of_mem (by simp)
  have hcontent : ∀ (i : ℕ) (a : Answer bso), ((batches [] received).map writeResult)[i]? = some a →
      ∀ rbs, rbs ∈ a.rbsl ↔ ∃ before after, received = before ++ rbs :: after ∧
        before.countP isEndMarker = i := by
    intro i a ha rbs
    rw [List.getElem?_map, Option.map_eq_some_iff] at ha
    obtain ⟨b, hb, rfl⟩ := ha
    rw [(writeResult_batch (hbatch b (List.mem_of_getElem? hb))).2.2.2 rbs]
    exact mem_batches (by simp) hb
  have hmarker : ∀ before after marker, received = before ++ marker :: after →
      isEndMarker marker = true → ∃ b : Answer bso, ((batches [] received).map writeResult)[
        before.countP isEndMarker]? = some b ∧ b.rbsl.getLast? = some marker := by
    intro before after marker hsplit hend
    obtain ⟨b, hb, hlast⟩ := getLast_of_marker hsplit hend
    refine ⟨writeResult b, by rw [List.getElem?_map, hb]; rfl, ?_⟩
    rw [(writeResult_batch (hbatch b (List.mem_of_getElem? hb))).1, hlast]
  refine ⟨?_, ?_, ?_, ?_, hcontent, ?_⟩
  · intro a ha
    obtain ⟨b, -, rfl⟩ := List.mem_map.mp ha
    rfl
  · have hlast : (batches [] received).map List.getLast? = (received.filter isEndMarker).map some :=
      getLast_batches
    rw [← hlast, List.map_map]
    exact List.map_congr_left (fun b hb => (writeResult_batch (hbatch b hb)).1)
  · intro a ha
    obtain ⟨b, hb, rfl⟩ := List.mem_map.mp ha
    exact (writeResult_batch (hbatch b hb)).2.1
  · intro a ha
    obtain ⟨b, hb, rfl⟩ := List.mem_map.mp ha
    exact (writeResult_batch (hbatch b hb)).2.2.1
  · intro before between after model marker hsplit hend
    obtain ⟨b, hb, hlast⟩ := hmarker (before ++ model :: between) after marker hsplit hend
    have hle : before.countP isEndMarker ≤ (before ++ model :: between).countP isEndMarker := by
      rw [List.countP_append]
      exact Nat.le_add_right _ _
    have hlt := lt_of_le_of_lt hle (List.getElem?_eq_some_iff.mp hb).1
    have ha := List.getElem?_eq_getElem hlt
    refine ⟨_, _, _, b, hle, ha, hb, ?_, hlast⟩
    rw [hcontent _ _ ha]
    exact ⟨before, between ++ marker :: after, by rw [hsplit]; simp, rfl⟩

/-- If an end marker was received last, everything was written. -/
lemma Delivered.written {answers : List (Answer bso)} (h : Delivered received answers)
    (hlast : ∀ marker, received.getLast? = some marker → isEndMarker marker = true)
    (hrbs : rbs ∈ received) : ∃ a ∈ answers, rbs ∈ a.rbsl := by
  obtain ⟨before, after, hsplit⟩ := List.append_of_mem hrbs
  rcases List.eq_nil_or_concat after with rfl | ⟨between, marker, rfl⟩
  · have hend : isEndMarker rbs = true := hlast rbs (by rw [hsplit, List.getLast?_concat])
    have hmem : some rbs ∈ answers.map (fun a => a.rbsl.getLast?) := by
      rw [h.endMarkers]
      exact List.mem_map_of_mem (List.mem_filter.2 ⟨hrbs, hend⟩)
    obtain ⟨a, ha, hgetLast⟩ := List.mem_map.1 hmem
    exact ⟨a, ha, List.mem_of_getLast? hgetLast⟩
  · rw [List.concat_eq_append, ← List.cons_append, ← List.append_assoc] at hsplit
    have hend : isEndMarker marker = true := by
      apply hlast
      rw [hsplit, List.getLast?_concat]
    obtain ⟨i, j, a, b, -, ha, -, hmem, -⟩ := h.notLater before between [] rbs marker hsplit hend
    exact ⟨a, List.mem_of_getElem? ha, hmem⟩

end Answers

/-- Whatever the answers for one invoker are, and however its queries interleave: up to the final
`NULL` the thread runs without a failed assertion, stops there, and has delivered them.  A model may
be written in the message of another query, but never later than its own end marker. -/
theorem startup_delivers (invoker : ℕ) (received : List (ReturnedBeliefState bso))
    (hinvoker : ∀ rbs ∈ received, ctxIdFromQid rbs.qid = invoker) :
    ∃ s, startup invoker (received.map some ++ [none]) State.init = some s ∧ s.stopped = true ∧
      Delivered received s.written :=
  ⟨_, startup_eq hinvoker [], rfl, delivered_batches received⟩

/-- The blocks of one context with one belief. -/
def oneBlock : BeliefStateOffset := .ofSucc 0 1

/-- Two queries of invoker `1023`: a model of the second comes between the two models of the first,
and its end marker after that of the first. -/
def interleaved : List (ReturnedBeliefState oneBlock) :=
  [⟨some ⟨1, 1⟩, queryId 1023 1⟩, ⟨some ⟨3, 1⟩, queryId 1023 2⟩, ⟨some ⟨1, 1⟩, queryId 1023 1⟩,
    ⟨none, queryId 1023 1⟩, ⟨none, queryId 1023 2⟩]

/-- The answers to two queries of one invoker, interleaved. -/
theorem startup_delivers_interleaved :
    ∃ s, startup 1023 (interleaved.map some ++ [none]) State.init = some s ∧ s.stopped = true ∧
      Delivered interleaved s.written :=
  startup_delivers 1023 interleaved (by decide)

end NewOutputThread

end Dmcs
