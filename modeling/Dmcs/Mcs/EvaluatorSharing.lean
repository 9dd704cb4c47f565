import Mathlib.Logic.Function.Basic
import Dmcs.Lib.TransitionSystem
import Dmcs.Mcs.DLVEvaluator

/-!
# Two threads, one evaluator

The normal context and its cycle breaker share one evaluator: both put their `Heads` objects on
`EVAL_IN_MQ` and read models from `EVAL_OUT_MQ` until a `NULL`.  Every message on `EVAL_OUT_MQ`
carries the `Heads` object it answers, but `read_and_send` does not compare it with the one its
call has sent.

`Step` runs the two threads and the evaluator, which reads the solver output line by line, in any
interleaving.  A completed call leaves a `Record` of what it received.  `Record.Right` says that
these are the answers to its own heads, which is so in every run in which no call begins while
another is under way (`run_records_right`).

## The invariant

`Stage` describes a run in which calls do not overlap: no call is under way, or one call is, and
then everything in the two queues and in the evaluator belongs to it.  What the evaluator has still
to send (`remaining`), together with what is in the output queue and what was read, is what `solve`
sends for the heads, so when the `NULL` is read the record is right.

Without the condition the output queue holds answers for two calls at once.  They come in the order
of the heads, but whichever thread reads first gets them: in `run_answers_mixed` the cycle breaker
reads what the heads of the normal context are answered with.
-/

namespace Dmcs

open Paging

namespace EvaluatorSharing

variable {bso : BeliefStateOffset}

/-- The two users of the evaluator. -/
inductive User where
  | normalContext
  | cycleBreaker
  deriving DecidableEq

/-- The `Heads` object one call of `compute` sends.  `id` tells objects with equal contents
apart. -/
structure Call (bso : BeliefStateOffset) where
  user : User
  id : ℕ
  heads : Heads bso
  admissible : Admissible heads.k1 heads.k2

/-- What a completed call has received: the models and the final `NULL`, each with the object it
came with, and `models_counter` if the call read it. -/
structure Record (bso : BeliefStateOffset) where
  call : Call bso
  received : List (Call bso × NewBeliefState bso.width)
  null : Call bso
  counter : Option ℕ

/-- Where a thread is in `compute`. -/
inductive Phase (bso : BeliefStateOffset) where
  | idle
  | reading (call : Call bso) (received : List (Call bso × NewBeliefState bso.width))
  | counting (call : Call bso) (received : List (Call bso × NewBeliefState bso.width))
      (null : Call bso)

/-- The evaluator inside `solve`: the object it solves, the solver output not read yet, and a model
counted but not sent yet. -/
structure Solving (bso : BeliefStateOffset) where
  call : Call bso
  lines : List (OutputLine bso.width)
  pending : Option (NewBeliefState bso.width)

/-- The queues, the evaluator and the threads. -/
structure State (bso : BeliefStateOffset) where
  evalIn : List (Call bso)
  evalOut : List (Call bso × Option (NewBeliefState bso.width))
  evaluator : Option (Solving bso)
  modelsCounter : ℕ
  user : User → Phase bso
  completed : List (Record bso)

/-- Nothing has been asked. -/
def State.init : State bso := ⟨[], [], none, 0, fun _ => .idle, []⟩

/-- The loops of `read_all` and `read_until_k2` end: for a bounded request, when `k2` models were
seen. -/
def stops (h : Heads bso) (n : ℕ) : Bool := decide (¬ (h.k1 = 0 ∧ h.k2 = 0) ∧ ¬ n < h.k2)

/-- The first loop of `read_until_k2` is running: models are counted and not sent. -/
def skips (h : Heads bso) (n : ℕ) : Bool := decide (¬ (h.k1 = 0 ∧ h.k2 = 0) ∧ n < h.k1 - 1)

section Step

variable (solver : Solver bso) (ctxId : ℕ) (may : State bso → Call bso → Prop)

/-- The steps of the three threads; `may` restricts when a call may begin. -/
inductive Step : State bso → State bso → Prop
  /-- `compute` sends its heads. -/
  | send {s : State bso} (call : Call bso) (h : s.user call.user = .idle) (hmay : may s call) :
      Step s { s with
        evalIn := s.evalIn ++ [call]
        user := Function.update s.user call.user (.reading call []) }
  /-- The evaluator takes the next heads and resets its counter. -/
  | take {s : State bso} {call : Call bso} {rest : List (Call bso)} (h : s.evaluator = none)
      (hin : s.evalIn = call :: rest) :
      Step s { s with
        evalIn := rest
        evaluator := some ⟨call, solver call.heads.heads call.heads.input, none⟩
        modelsCounter := 0 }
  /-- The evaluator reads a line and discards it. -/
  | discard {s : State bso} {call : Call bso} {line : OutputLine bso.width}
      {lines : List (OutputLine bso.width)} (h : s.evaluator = some ⟨call, line :: lines, none⟩)
      (hgo : stops call.heads s.modelsCounter = false)
      (hline : line = .cost ∨
        ∃ m, line = .answerSet m ∧ m.consistentWith call.heads.input ctxId = false) :
      Step s { s with evaluator := some ⟨call, lines, none⟩ }
  /-- The evaluator counts a model before the range. -/
  | skip {s : State bso} {call : Call bso} {m : NewBeliefState bso.width}
      {lines : List (OutputLine bso.width)}
      (h : s.evaluator = some ⟨call, .answerSet m :: lines, none⟩)
      (hskip : skips call.heads s.modelsCounter = true)
      (hm : m.consistentWith call.heads.input ctxId = true) :
      Step s { s with
        evaluator := some ⟨call, lines, none⟩
        modelsCounter := s.modelsCounter + 1 }
  /-- The evaluator counts a model of the range and unites it with the input. -/
  | count {s : State bso} {call : Call bso} {m : NewBeliefState bso.width}
      {lines : List (OutputLine bso.width)}
      (h : s.evaluator = some ⟨call, .answerSet m :: lines, none⟩)
      (hgo : stops call.heads s.modelsCounter = false)
      (hskip : skips call.heads s.modelsCounter = false)
      (hm : m.consistentWith call.heads.input ctxId = true) :
      Step s { s with
        evaluator := some ⟨call, lines, some (m.union call.heads.input)⟩
        modelsCounter := s.modelsCounter + 1 }
  /-- The evaluator sends the model it has counted. -/
  | emit {s : State bso} {call : Call bso} {m : NewBeliefState bso.width}
      {lines : List (OutputLine bso.width)} (h : s.evaluator = some ⟨call, lines, some m⟩) :
      Step s { s with
        evalOut := s.evalOut ++ [(call, some m)]
        evaluator := some ⟨call, lines, none⟩ }
  /-- The output or the range is exhausted: the evaluator sends `NULL`. -/
  | finish {s : State bso} {call : Call bso} {lines : List (OutputLine bso.width)}
      (h : s.evaluator = some ⟨call, lines, none⟩)
      (hend : lines = [] ∨ stops call.heads s.modelsCounter = true) :
      Step s { s with
        evalOut := s.evalOut ++ [(call, none)]
        evaluator := none }
  /-- `read_and_send` takes a model. -/
  | receive {s : State bso} {u : User} {call tag : Call bso} {m : NewBeliefState bso.width}
      {received : List (Call bso × NewBeliefState bso.width)}
      {rest : List (Call bso × Option (NewBeliefState bso.width))}
      (h : s.user u = .reading call received) (hout : s.evalOut = (tag, some m) :: rest) :
      Step s { s with
        evalOut := rest
        user := Function.update s.user u (.reading call (received ++ [(tag, m)])) }
  /-- `read_and_send` takes a `NULL`; for a bounded request the counter is read next. -/
  | receiveNull {s : State bso} {u : User} {call tag : Call bso}
      {received : List (Call bso × NewBeliefState bso.width)}
      {rest : List (Call bso × Option (NewBeliefState bso.width))}
      (h : s.user u = .reading call received) (hout : s.evalOut = (tag, none) :: rest)
      (hk : ¬ (call.heads.k1 = 0 ∧ call.heads.k2 = 0)) :
      Step s { s with
        evalOut := rest
        user := Function.update s.user u (.counting call received tag) }
  /-- `read_and_send` takes a `NULL`; for the request `(0, 0)` the call ends. -/
  | receiveLast {s : State bso} {u : User} {call tag : Call bso}
      {received : List (Call bso × NewBeliefState bso.width)}
      {rest : List (Call bso × Option (NewBeliefState bso.width))}
      (h : s.user u = .reading call received) (hout : s.evalOut = (tag, none) :: rest)
      (hk : call.heads.k1 = 0 ∧ call.heads.k2 = 0) :
      Step s { s with
        evalOut := rest
        user := Function.update s.user u .idle
        completed := ⟨call, received, tag, none⟩ :: s.completed }
  /-- `getModelsCounter`. -/
  | readCounter {s : State bso} {u : User} {call tag : Call bso}
      {received : List (Call bso × NewBeliefState bso.width)}
      (h : s.user u = .counting call received tag) :
      Step s { s with
        user := Function.update s.user u .idle
        completed := ⟨call, received, tag, some s.modelsCounter⟩ :: s.completed }

/-- No call of the other thread is under way. -/
def Exclusive (s : State bso) (_ : Call bso) : Prop := ∀ u, s.user u = .idle

/-- The call has received the answers to its own heads, and their count. -/
structure Record.Right (r : Record bso) : Prop where
  received : r.received = (DLVEvaluator.solve solver ctxId r.call.heads).sent.map
    (fun m => (r.call, m))
  null : r.null = r.call
  counter : ∀ n, r.counter = some n →
    n = (DLVEvaluator.solve solver ctxId r.call.heads).modelsCounter

end Step

/-! ## What is left of an evaluation -/

section Remaining

variable (ctxId : ℕ)

/-- What the evaluator will still send, and the counter at the end, from the lines not read yet and
the counter so far. -/
def remaining (h : Heads bso) : List (OutputLine bso.width) → ℕ → DLVEvaluator.Progress bso.width
  | [], n => ⟨n, []⟩
  | .cost :: lines, n => if stops h n then ⟨n, []⟩ else remaining h lines n
  | .answerSet m :: lines, n =>
      if stops h n then ⟨n, []⟩
      else if m.consistentWith h.input ctxId then
        if skips h n then remaining h lines (n + 1)
        else ⟨(remaining h lines (n + 1)).modelsCounter,
          m.union h.input :: (remaining h lines (n + 1)).sent⟩
      else remaining h lines n

lemma remaining_of_stops {h : Heads bso} {n : ℕ} (hstop : stops h n = true)
    (lines : List (OutputLine bso.width)) : remaining ctxId h lines n = ⟨n, []⟩ := by
  cases lines with
  | nil => rfl
  | cons line lines => cases line <;> simp [remaining, hstop]

lemma remaining_all {h : Heads bso} (h0 : h.k1 = 0 ∧ h.k2 = 0) :
    ∀ (lines : List (OutputLine bso.width)) (n : ℕ),
      remaining ctxId h lines n =
        ⟨n + (DLVEvaluator.linesModels ctxId h.input lines).length,
          DLVEvaluator.linesModels ctxId h.input lines⟩ := by
  intro lines
  induction lines with
  | nil => intro n; simp [remaining, DLVEvaluator.linesModels]
  | cons line lines ih =>
      intro n
      cases line with
      | cost => simp [remaining, stops, h0, DLVEvaluator.linesModels, ih]
      | answerSet m =>
          by_cases hm : m.consistentWith h.input ctxId = true
          · simp [remaining, stops, skips, h0, DLVEvaluator.linesModels, ih, hm]
            omega
          · simp [remaining, stops, h0, DLVEvaluator.linesModels, ih, hm]

lemma remaining_bounded {h : Heads bso} (h1 : 1 ≤ h.k1) :
    ∀ (lines : List (OutputLine bso.width)) (n : ℕ), n ≤ h.k2 →
      remaining ctxId h lines n =
        ⟨min h.k2 (n + (DLVEvaluator.linesModels ctxId h.input lines).length),
          ((DLVEvaluator.linesModels ctxId h.input lines).take (h.k2 - n)).drop
            (h.k1 - 1 - n)⟩ := by
  have hne : ¬ (h.k1 = 0 ∧ h.k2 = 0) := by omega
  intro lines
  induction lines with
  | nil => intro n hn; simp [remaining, DLVEvaluator.linesModels, hn]
  | cons line lines ih =>
      intro n hn
      by_cases hstop : n < h.k2
      · have hgo : stops h n = false := by simp [stops, hstop]
        cases line with
        | cost => simpa [remaining, hgo, DLVEvaluator.linesModels] using ih n hn
        | answerSet m =>
            by_cases hm : m.consistentWith h.input ctxId = true
            · have hsub : h.k2 - n = (h.k2 - (n + 1)) + 1 := by omega
              simp only [remaining, hgo, hm, DLVEvaluator.linesModels, if_true,
                Bool.false_eq_true, if_false, List.length_cons, ih (n + 1) hstop]
              by_cases hskip : n < h.k1 - 1
              · have hdrop : h.k1 - 1 - n = (h.k1 - 1 - (n + 1)) + 1 := by omega
                rw [if_pos (by simp [skips, hne, hskip]), hsub, hdrop, List.take_succ_cons,
                  List.drop_succ_cons]
                simp only [DLVEvaluator.Progress.mk.injEq, and_true]
                omega
              · have hdrop : h.k1 - 1 - n = 0 := by omega
                have hdrop' : h.k1 - 1 - (n + 1) = 0 := by omega
                rw [if_neg (by simp [skips, hskip]), hsub, hdrop, hdrop', List.take_succ_cons]
                simp only [DLVEvaluator.Progress.mk.injEq, List.drop_zero, and_true]
                omega
            · simpa [remaining, hgo, hm, DLVEvaluator.linesModels] using ih n hn
      · have heq : n = h.k2 := by omega
        rw [remaining_of_stops ctxId (by simp [stops, hne, hstop])]
        simp [heq]

/-- Line by line the evaluator does what `solve` does. -/
theorem remaining_eq_solve (solver : Solver bso) {h : Heads bso} (hadm : Admissible h.k1 h.k2) :
    remaining ctxId h (solver h.heads h.input) 0 = DLVEvaluator.solve solver ctxId h := by
  obtain ⟨hsent, hcount⟩ := DLVEvaluator.solve_spec ctxId solver h hadm
  rcases hadm with h0 | ⟨h1, -⟩
  · rw [remaining_all ctxId h0]
    rw [if_pos h0] at hcount
    rw [h0.1, h0.2, page_zero] at hsent
    cases hsolve : DLVEvaluator.solve solver ctxId h
    rw [hsolve] at hsent hcount
    simp only at hsent hcount
    rw [hsent, hcount, Nat.zero_add]
  · rw [remaining_bounded ctxId h1 _ _ (Nat.zero_le _)]
    rw [if_neg (by omega)] at hcount
    rw [page_pos h1] at hsent
    cases hsolve : DLVEvaluator.solve solver ctxId h
    rw [hsolve] at hsent hcount
    simp only at hsent hcount
    rw [hsent, hcount, Nat.zero_add, Nat.sub_zero, Nat.sub_zero]

end Remaining

/-! ## One call at a time -/

section Invariant

variable {solver : Solver bso} {ctxId : ℕ} {s s' : State bso}

/-- The stages of a call that has the evaluator for itself. -/
inductive Stage (solver : Solver bso) (ctxId : ℕ) (s : State bso) : Prop
  | idle (huser : ∀ u, s.user u = .idle) (hin : s.evalIn = []) (hout : s.evalOut = [])
      (heval : s.evaluator = none)
  | queued (c : Call bso) (huser : s.user c.user = .reading c [])
      (hothers : ∀ u, u ≠ c.user → s.user u = .idle) (hin : s.evalIn = [c])
      (hout : s.evalOut = []) (heval : s.evaluator = none)
  | solving (c : Call bso) (got out : List (NewBeliefState bso.width))
      (lines : List (OutputLine bso.width)) (pending : Option (NewBeliefState bso.width))
      (huser : s.user c.user = .reading c (got.map (fun m => (c, m))))
      (hothers : ∀ u, u ≠ c.user → s.user u = .idle) (hin : s.evalIn = [])
      (hout : s.evalOut = out.map (fun m => (c, some m)))
      (heval : s.evaluator = some ⟨c, lines, pending⟩)
      (hsent : got ++ out ++ pending.toList ++
        (remaining ctxId c.heads lines s.modelsCounter).sent =
          (DLVEvaluator.solve solver ctxId c.heads).sent)
      (hcount : (remaining ctxId c.heads lines s.modelsCounter).modelsCounter =
        (DLVEvaluator.solve solver ctxId c.heads).modelsCounter)
  | solved (c : Call bso) (got out : List (NewBeliefState bso.width))
      (huser : s.user c.user = .reading c (got.map (fun m => (c, m))))
      (hothers : ∀ u, u ≠ c.user → s.user u = .idle) (hin : s.evalIn = [])
      (hout : s.evalOut = out.map (fun m => (c, some m)) ++ [(c, none)])
      (heval : s.evaluator = none)
      (hsent : got ++ out = (DLVEvaluator.solve solver ctxId c.heads).sent)
      (hcount : s.modelsCounter = (DLVEvaluator.solve solver ctxId c.heads).modelsCounter)
  | counted (c : Call bso)
      (huser : s.user c.user = .counting c
        ((DLVEvaluator.solve solver ctxId c.heads).sent.map (fun m => (c, m))) c)
      (hothers : ∀ u, u ≠ c.user → s.user u = .idle) (hin : s.evalIn = [])
      (hout : s.evalOut = []) (heval : s.evaluator = none)
      (hcount : s.modelsCounter = (DLVEvaluator.solve solver ctxId c.heads).modelsCounter)

/-- A thread that is not idle is the one whose call is under way. -/
private lemma user_eq {c : Call bso} (hothers : ∀ u, u ≠ c.user → s.user u = .idle) {u : User}
    (h : s.user u ≠ .idle) : u = c.user := by
  by_contra hne
  exact h (hothers u hne)

private lemma update_others {c : Call bso} {p : Phase bso}
    (hothers : ∀ u, u ≠ c.user → s.user u = .idle) :
    ∀ u, u ≠ c.user → Function.update s.user c.user p u = .idle := by
  intro u hu
  rw [Function.update_of_ne hu]
  exact hothers u hu

private lemma update_idle {c : Call bso} (hothers : ∀ u, u ≠ c.user → s.user u = .idle) :
    ∀ u, Function.update s.user c.user .idle u = .idle := by
  intro u
  by_cases hu : u = c.user
  · rw [hu, Function.update_self]
  · rw [Function.update_of_ne hu]
    exact hothers u hu

/-- What a step of the evaluator sees: the call it solves and what is left to do. -/
lemma Stage.of_evaluator (hs : Stage solver ctxId s) {c : Call bso}
    {lines : List (OutputLine bso.width)} {pending : Option (NewBeliefState bso.width)}
    (h : s.evaluator = some ⟨c, lines, pending⟩) :
    ∃ got out : List (NewBeliefState bso.width),
      s.user c.user = .reading c (got.map (fun m => (c, m))) ∧
      (∀ u, u ≠ c.user → s.user u = .idle) ∧ s.evalIn = [] ∧
      s.evalOut = out.map (fun m => (c, some m)) ∧
      got ++ out ++ pending.toList ++ (remaining ctxId c.heads lines s.modelsCounter).sent =
        (DLVEvaluator.solve solver ctxId c.heads).sent ∧
      (remaining ctxId c.heads lines s.modelsCounter).modelsCounter =
        (DLVEvaluator.solve solver ctxId c.heads).modelsCounter := by
  cases hs with
  | solving c' got out lines' pending' huser hothers hin hout heval hsent hcount =>
      rw [heval, Option.some.injEq, Solving.mk.injEq] at h
      obtain ⟨rfl, rfl, rfl⟩ := h
      exact ⟨got, out, huser, hothers, hin, hout, hsent, hcount⟩
  | idle _ _ _ heval => simp [heval] at h
  | queued _ _ _ _ _ heval => simp [heval] at h
  | solved _ _ _ _ _ _ _ heval => simp [heval] at h
  | counted _ _ _ _ _ heval => simp [heval] at h

/-- A call begins when no other is under way. -/
lemma Stage.send (hs : Stage solver ctxId s) {c : Call bso} (hmay : Exclusive s c) :
    Stage solver ctxId { s with
      evalIn := s.evalIn ++ [c]
      user := Function.update s.user c.user (.reading c []) } := by
  cases hs with
  | idle huser hin hout heval =>
      refine .queued c (Function.update_self ..) (update_others (fun u _ => huser u)) ?_ hout heval
      simp [hin]
  | queued c' huser _ _ _ _ => simp [hmay c'.user] at huser
  | solving c' _ _ _ _ huser _ _ _ _ _ _ => simp [hmay c'.user] at huser
  | solved c' _ _ huser _ _ _ _ _ _ => simp [hmay c'.user] at huser
  | counted c' huser _ _ _ _ _ => simp [hmay c'.user] at huser

/-- The evaluator starts on the only call there is. -/
lemma Stage.take (hs : Stage solver ctxId s) {c : Call bso} {rest : List (Call bso)}
    (hin : s.evalIn = c :: rest) :
    Stage solver ctxId { s with
      evalIn := rest
      evaluator := some ⟨c, solver c.heads.heads c.heads.input, none⟩
      modelsCounter := 0 } := by
  cases hs with
  | queued c' huser hothers hin' hout _ =>
      rw [hin', List.cons.injEq] at hin
      obtain ⟨rfl, rfl⟩ := hin
      have hsolve := remaining_eq_solve ctxId solver c'.admissible
      exact .solving c' [] [] _ none huser hothers rfl hout rfl (by simp [hsolve]) (by rw [hsolve])
  | idle _ hin' _ _ => simp [hin'] at hin
  | solving _ _ _ _ _ _ _ hin' _ _ _ _ => simp [hin'] at hin
  | solved _ _ _ _ _ hin' _ _ _ _ => simp [hin'] at hin
  | counted _ _ _ hin' _ _ _ => simp [hin'] at hin

/-- The evaluator reads on, whatever it makes of the lines, as long as nothing is lost of what it
has still to send. -/
lemma Stage.advance (hs : Stage solver ctxId s) {c : Call bso}
    {lines lines' : List (OutputLine bso.width)} {pending : Option (NewBeliefState bso.width)}
    {n : ℕ} (h : s.evaluator = some ⟨c, lines, none⟩)
    (hrest : remaining ctxId c.heads lines s.modelsCounter =
      ⟨(remaining ctxId c.heads lines' n).modelsCounter,
        pending.toList ++ (remaining ctxId c.heads lines' n).sent⟩) :
    Stage solver ctxId { s with
      evaluator := some ⟨c, lines', pending⟩
      modelsCounter := n } := by
  obtain ⟨got, out, huser, hothers, hin, hout, hsent, hcount⟩ := hs.of_evaluator h
  rw [hrest] at hsent hcount
  refine .solving c got out lines' pending huser hothers hin hout rfl ?_ hcount
  simpa using hsent

/-- The model the evaluator has counted goes to the output queue. -/
lemma Stage.emit (hs : Stage solver ctxId s) {c : Call bso} {m : NewBeliefState bso.width}
    {lines : List (OutputLine bso.width)} (h : s.evaluator = some ⟨c, lines, some m⟩) :
    Stage solver ctxId { s with
      evalOut := s.evalOut ++ [(c, some m)]
      evaluator := some ⟨c, lines, none⟩ } := by
  obtain ⟨got, out, huser, hothers, hin, hout, hsent, hcount⟩ := hs.of_evaluator h
  refine .solving c got (out ++ [m]) lines none huser hothers hin ?_ rfl ?_ hcount
  · simp [hout]
  · simpa using hsent

/-- The evaluator ends with a `NULL`. -/
lemma Stage.finish (hs : Stage solver ctxId s) {c : Call bso}
    {lines : List (OutputLine bso.width)} (h : s.evaluator = some ⟨c, lines, none⟩)
    (hrest : remaining ctxId c.heads lines s.modelsCounter = ⟨s.modelsCounter, []⟩) :
    Stage solver ctxId { s with
      evalOut := s.evalOut ++ [(c, none)]
      evaluator := none } := by
  obtain ⟨got, out, huser, hothers, hin, hout, hsent, hcount⟩ := hs.of_evaluator h
  rw [hrest] at hsent hcount
  refine .solved c got out huser hothers hin ?_ rfl ?_ hcount
  · simp [hout]
  · simpa using hsent

/-- The model a thread takes is one for its call. -/
lemma Stage.receive (hs : Stage solver ctxId s) {u : User} {call tag : Call bso}
    {m : NewBeliefState bso.width} {received : List (Call bso × NewBeliefState bso.width)}
    {rest : List (Call bso × Option (NewBeliefState bso.width))}
    (h : s.user u = .reading call received) (hout' : s.evalOut = (tag, some m) :: rest) :
    Stage solver ctxId { s with
      evalOut := rest
      user := Function.update s.user u (.reading call (received ++ [(tag, m)])) } := by
  cases hs with
  | solving c got out lines pending huser hothers hin hout heval hsent hcount =>
      obtain rfl := user_eq hothers (by rw [h]; simp)
      rw [huser, Phase.reading.injEq] at h
      obtain ⟨rfl, rfl⟩ := h
      cases out with
      | nil => simp [hout] at hout'
      | cons m' out =>
          rw [hout, List.map_cons, List.cons.injEq, Prod.mk.injEq, Option.some.injEq] at hout'
          obtain ⟨⟨rfl, rfl⟩, rfl⟩ := hout'
          refine .solving c (got ++ [m']) out lines pending ?_ (update_others hothers) hin rfl heval
            ?_ hcount
          · simp
          · simpa using hsent
  | solved c got out huser hothers hin hout heval hsent hcount =>
      obtain rfl := user_eq hothers (by rw [h]; simp)
      rw [huser, Phase.reading.injEq] at h
      obtain ⟨rfl, rfl⟩ := h
      cases out with
      | nil => simp [hout] at hout'
      | cons m' out =>
          rw [hout, List.map_cons, List.cons_append, List.cons.injEq, Prod.mk.injEq,
            Option.some.injEq] at hout'
          obtain ⟨⟨rfl, rfl⟩, rfl⟩ := hout'
          refine .solved c (got ++ [m']) out ?_ (update_others hothers) hin rfl heval ?_ hcount
          · simp
          · simpa using hsent
  | idle huser _ _ _ => simp [huser u] at h
  | queued c _ _ _ hout _ => simp [hout] at hout'
  | counted c _ _ _ hout _ _ => simp [hout] at hout'

/-- What a thread that takes a `NULL` sees: it has received the whole answer to its call, and
nothing else is under way. -/
lemma Stage.of_null (hs : Stage solver ctxId s) {u : User} {call tag : Call bso}
    {received : List (Call bso × NewBeliefState bso.width)}
    {rest : List (Call bso × Option (NewBeliefState bso.width))}
    (h : s.user u = .reading call received) (hout' : s.evalOut = (tag, none) :: rest) :
    u = call.user ∧ tag = call ∧ rest = [] ∧
      received = (DLVEvaluator.solve solver ctxId call.heads).sent.map (fun m => (call, m)) ∧
      (∀ u, u ≠ call.user → s.user u = .idle) ∧ s.evalIn = [] ∧ s.evaluator = none ∧
      s.modelsCounter = (DLVEvaluator.solve solver ctxId call.heads).modelsCounter := by
  cases hs with
  | solved c got out huser hothers hin hout heval hsent hcount =>
      obtain rfl := user_eq hothers (by rw [h]; simp)
      rw [huser, Phase.reading.injEq] at h
      obtain ⟨rfl, rfl⟩ := h
      cases out with
      | nil =>
          rw [hout, List.map_nil, List.nil_append, List.cons.injEq, Prod.mk.injEq] at hout'
          obtain ⟨⟨rfl, -⟩, rfl⟩ := hout'
          rw [List.append_nil] at hsent
          exact ⟨rfl, rfl, rfl, by rw [hsent], hothers, hin, heval, hcount⟩
      | cons m' out => simp [hout] at hout'
  | solving c got out lines pending huser hothers hin hout heval hsent hcount =>
      cases out <;> simp [hout] at hout'
  | idle huser _ _ _ => simp [huser u] at h
  | queued c _ _ _ hout _ => simp [hout] at hout'
  | counted c _ _ _ hout _ _ => simp [hout] at hout'

/-- What a thread that reads the counter sees. -/
lemma Stage.of_counting (hs : Stage solver ctxId s) {u : User} {call tag : Call bso}
    {received : List (Call bso × NewBeliefState bso.width)}
    (h : s.user u = .counting call received tag) :
    u = call.user ∧ Record.Right solver ctxId ⟨call, received, tag, some s.modelsCounter⟩ ∧
      (∀ u, u ≠ call.user → s.user u = .idle) ∧ s.evalIn = [] ∧ s.evalOut = [] ∧
      s.evaluator = none := by
  cases hs with
  | counted c huser hothers hin hout heval hcount =>
      obtain rfl := user_eq hothers (by rw [h]; simp)
      rw [huser, Phase.counting.injEq] at h
      obtain ⟨rfl, rfl, rfl⟩ := h
      refine ⟨rfl, ⟨rfl, rfl, ?_⟩, hothers, hin, hout, heval⟩
      intro n hn
      rw [← Option.some_injective _ hn, hcount]
  | idle huser _ _ _ => simp [huser u] at h
  | queued c huser hothers _ _ _ =>
      obtain rfl := user_eq hothers (by rw [h]; simp)
      simp [huser] at h
  | solving c _ _ _ _ huser hothers _ _ _ _ _ =>
      obtain rfl := user_eq hothers (by rw [h]; simp)
      simp [huser] at h
  | solved c _ _ huser hothers _ _ _ _ _ =>
      obtain rfl := user_eq hothers (by rw [h]; simp)
      simp [huser] at h

/-- The first loop of `read_until_k2` ends no later than the second. -/
private lemma stops_of_skips {h : Heads bso} (hadm : Admissible h.k1 h.k2) {n : ℕ}
    (hskip : skips h n = true) : stops h n = false := by
  simp only [skips, decide_eq_true_eq] at hskip
  simp only [stops, decide_eq_false_iff_not]
  rcases hadm with h0 | ⟨h1, h2⟩
  · exact absurd h0 hskip.1
  · omega

/-- A step of a run with exclusive calls. -/
lemma Stage.step (hs : Stage solver ctxId s) (h : Step solver ctxId Exclusive s s') :
    Stage solver ctxId s' := by
  cases h with
  | send call hidle hmay => exact hs.send hmay
  | take heval hin => exact hs.take hin
  | @discard call line lines heval hgo hline =>
      apply hs.advance heval
      rcases hline with rfl | ⟨m, rfl, hm⟩
      · simp [remaining, hgo]
      · simp [remaining, hgo, hm]
  | @skip call m lines heval hskip hm =>
      apply hs.advance heval
      simp [remaining, stops_of_skips call.admissible hskip, hm, hskip]
  | count heval hgo hskip hm =>
      apply hs.advance heval
      simp [remaining, hgo, hm, hskip]
  | emit heval => exact hs.emit heval
  | @finish call lines heval hend =>
      apply hs.finish heval
      rcases hend with rfl | hstop
      · rfl
      · exact remaining_of_stops ctxId hstop lines
  | receive huser hout => exact hs.receive huser hout
  | receiveNull huser hout hk =>
      obtain ⟨rfl, rfl, rfl, rfl, hothers, hin, heval, hcount⟩ := hs.of_null huser hout
      exact .counted _ (Function.update_self ..) (update_others hothers) hin rfl heval hcount
  | receiveLast huser hout hk =>
      obtain ⟨rfl, rfl, rfl, -, hothers, hin, heval, -⟩ := hs.of_null huser hout
      exact .idle (update_idle hothers) hin rfl heval
  | readCounter huser =>
      obtain ⟨rfl, -, hothers, hin, hout, heval⟩ := hs.of_counting huser
      exact .idle (update_idle hothers) hin hout heval

/-- The record a step adds is right. -/
lemma Stage.step_completed (hs : Stage solver ctxId s) (h : Step solver ctxId Exclusive s s')
    (hrec : ∀ r ∈ s.completed, Record.Right solver ctxId r) :
    ∀ r ∈ s'.completed, Record.Right solver ctxId r := by
  cases h with
  | receiveLast huser hout hk =>
      obtain ⟨rfl, rfl, rfl, rfl, -⟩ := hs.of_null huser hout
      exact List.forall_mem_cons.mpr ⟨⟨rfl, rfl, by simp⟩, hrec⟩
  | readCounter huser =>
      obtain ⟨-, hright, -⟩ := hs.of_counting huser
      exact List.forall_mem_cons.mpr ⟨hright, hrec⟩
  | _ => exact hrec

end Invariant

/-- In every run in which no call begins while one of the other thread is under way, every call
receives the models and the `NULL` for the heads it has sent, and reads their count.  The runs are
those of both threads and of the evaluator, in any interleaving of their steps. -/
theorem run_records_right (solver : Solver bso) (ctxId : ℕ) (s : State bso)
    (hrun : Relation.ReflTransGen (Step solver ctxId Exclusive) State.init s) :
    ∀ r ∈ s.completed, Record.Right solver ctxId r := by
  have hinv := TransitionSystem.invariant_of_step
    (I := fun s => Stage solver ctxId s ∧ ∀ r ∈ s.completed, Record.Right solver ctxId r)
    ⟨.idle (fun _ => rfl) rfl rfl rfl, by simp [State.init]⟩
    (fun s s' hs h => ⟨hs.1.step h, hs.1.step_completed h hs.2⟩) hrun
  exact hinv.2

/-! ## Two overlapping calls -/

/-- Two contexts with one belief each. -/
def twoBeliefs : BeliefStateOffset := .ofSucc 1 0

/-- The only local model of context `0`. -/
def onlyModel : NewBeliefState twoBeliefs.width :=
  ((NewBeliefState.empty _).setEpsilon twoBeliefs 0).set 1 .dmcsTrue

/-- The solver of context `0`. -/
def oneLine : Solver twoBeliefs := fun _ _ => [.answerSet onlyModel]

/-- The call of the normal context, for an empty input. -/
def normalCall : Call twoBeliefs :=
  ⟨.normalContext, 0, ⟨NewBeliefState.empty _, NewBeliefState.empty _, 0, 0⟩, by decide⟩

/-- The call of the cycle breaker, for a guess of the other context. -/
def breakerCall : Call twoBeliefs :=
  ⟨.cycleBreaker, 1, ⟨(NewBeliefState.empty _).setEpsilon twoBeliefs 1, NewBeliefState.empty _, 0,
    0⟩, by decide⟩

/-- Both threads send their heads; the evaluator answers the normal context first, and the cycle
breaker reads that answer. -/
theorem run_answers_mixed :
    ¬ ∀ s : State twoBeliefs,
        Relation.ReflTransGen (Step oneLine 0 (fun _ _ => True)) State.init s →
          ∀ r ∈ s.completed, Record.Right oneLine 0 r := by
  intro h
  let reading := Function.update (Function.update (fun _ => Phase.idle) User.normalContext
    (.reading normalCall [])) User.cycleBreaker (.reading breakerCall [])
  let s₂ : State twoBeliefs := ⟨[normalCall, breakerCall], [], none, 0, reading, []⟩
  let s₅ : State twoBeliefs := ⟨[breakerCall], [(normalCall, some onlyModel), (normalCall, none)],
    none, 1, reading, []⟩
  have h₂ : Relation.ReflTransGen (Step oneLine 0 (fun _ _ => True)) State.init s₂ :=
    (Relation.ReflTransGen.single (Step.send normalCall rfl trivial)).tail
      (Step.send breakerCall rfl trivial)
  have h₅ : Relation.ReflTransGen (Step oneLine 0 (fun _ _ => True)) s₂ s₅ :=
    (((Relation.ReflTransGen.single (Step.take rfl rfl)).tail
      (Step.count rfl rfl rfl rfl)).tail (Step.emit rfl)).tail (Step.finish rfl (Or.inl rfl))
  have h₇ := ((h₂.trans h₅).tail (Step.receive (u := .cycleBreaker) rfl rfl)).tail
    (Step.receiveLast (u := .cycleBreaker) rfl rfl ⟨rfl, rfl⟩)
  have hnull := (h _ h₇ _ (List.mem_cons_self ..)).null
  exact absurd (congrArg Call.user hnull) (by decide)

/-- A run in which both threads complete a call, one after the other. -/
theorem run_records_right_twoCalls :
    Record.Right oneLine 0 ⟨normalCall, [(normalCall, onlyModel)], normalCall, none⟩ ∧
      Record.Right oneLine 0 ⟨breakerCall,
        [(breakerCall, onlyModel.union breakerCall.heads.input)], breakerCall, none⟩ := by
  have hsend : Step oneLine 0 Exclusive State.init _ := Step.send normalCall rfl (fun _ => rfl)
  have hfirst := ((((((Relation.ReflTransGen.single hsend).tail (Step.take rfl rfl)).tail
    (Step.count rfl rfl rfl rfl)).tail (Step.emit rfl)).tail (Step.finish rfl (Or.inl rfl))).tail
      (Step.receive (u := .normalContext) rfl rfl)).tail
        (Step.receiveLast (u := .normalContext) rfl rfl ⟨rfl, rfl⟩)
  have hagain := hfirst.tail (Step.send breakerCall rfl (fun u => by cases u <;> rfl))
  have hrun := (((((hagain.tail (Step.take rfl rfl)).tail (Step.count rfl rfl rfl rfl)).tail
    (Step.emit rfl)).tail (Step.finish rfl (Or.inl rfl))).tail
      (Step.receive (u := .cycleBreaker) rfl rfl)).tail
        (Step.receiveLast (u := .cycleBreaker) rfl rfl ⟨rfl, rfl⟩)
  have hright := run_records_right oneLine 0 _ hrun
  exact ⟨hright _ (List.mem_cons_of_mem _ List.mem_cons_self), hright _ List.mem_cons_self⟩

end EvaluatorSharing

end Dmcs
