import Dmcs.Mcs.JoinIsolation
import Dmcs.Mcs.NormalContext

/-!
# Requests over a joiner (`NormalContext::process_request`, `LeafJoiner`)

`process_request` pulls its inputs from the joiner one at a time, each call with a new query id, and
stops as soon as the requested range is served.  The joiner of a context without neighbours hands
out the empty state once.  `startup` takes one request after the other.

`Delivers` says that a joiner hands out given inputs and can be left at any time.
`streamRequest_starts` then reduces the loop to `processInputs` on these inputs: it sends the same
states, and the next request finds the joiner at rest.

## The layers

`BaseJoiner` is the interface that `process_request` uses: a state, `first_join` and `next_join`.
`leafJoiner` and `streamingJoiner` are the two joiners of the code.  `streamRequest` is the loop of
`process_request` over any of them, with the query counter and the cache of the thread.

`Delivers` is defined by recursion on a list of inputs: the joiner is at rest, and the next call
hands out the first input and leaves a joiner that delivers the others.  So the loop over such a
joiner computes what `processInputs` computes on the list, by induction on it, as far as it gets
before the range is used up.
-/

namespace Dmcs

open NewContext Odometer Paging QueryID StreamingJoiner

variable {bso : BeliefStateOffset}

/-- The virtual functions of `BaseJoiner`.  The argument before the state is the fuel for loops. -/
structure BaseJoiner (bso : BeliefStateOffset) where
  State : Type
  firstJoin : Finset ℕ → Qid → ℕ → State → Except Fault (ReturnedBeliefState bso × State)
  nextJoin : Finset ℕ → Qid → ℕ → State → Except Fault (ReturnedBeliefState bso × State)

/-- `LeafJoiner`. -/
def leafJoiner (bso : BeliefStateOffset) : BaseJoiner bso where
  State := Unit
  firstJoin := fun _ qid _ s => .ok (⟨some (NewBeliefState.empty bso.width), qid⟩, s)
  nextJoin := fun _ qid _ s => .ok (⟨none, qid⟩, s)

/-- `StreamingJoiner`, with its neighbours and the network. -/
def streamingJoiner (J : JoinerConfig) (env : Environment bso) : BaseJoiner bso where
  State := StreamingJoiner.State bso
  firstJoin := fun history qid fuel s => StreamingJoiner.firstJoin J env history qid fuel s
  nextJoin := fun history qid fuel s => StreamingJoiner.nextJoin J env history qid fuel s

namespace NormalContext

/-- Why a request is not answered: an assertion on the request, a call of the joiner that fails, or
an assertion of `process_input`. -/
inductive RequestFault
  | refused
  | joiner (f : Fault)
  | processing

/-- What the thread of a context keeps from one request to the next. -/
structure Thread (B : BaseJoiner bso) where
  joiner : B.State
  queryCounter : ℕ
  cache : CachePosition

variable (nc : NormalContext bso) (B : BaseJoiner bso) (history : Finset ℕ)

/-- The loop of `process_request`: the input at hand is processed, and the next one is asked for
unless the range is served.  Every call takes a new id. -/
def requestLoop (parent fuel : ℕ) : ℕ → Option (NewBeliefState bso.width) → ℕ → ℕ → Thread B →
    Except RequestFault (List (NewBeliefState bso.width) × Thread B)
  | 0, _, _, _, _ => .error (.joiner .fuel)
  | _ + 1, none, _, _, t => .ok ([], t)
  | calls + 1, some input, k1, k2, t =>
      match nc.processInput input parent k1 k2 t.cache with
      | none => .error .processing
      | some r =>
          if r.finished then .ok (r.sent, { t with cache := r.cache })
          else
            match B.nextJoin history (queryId nc.ctxId (t.queryCounter + 1)) fuel t.joiner with
            | .error f => .error (.joiner f)
            | .ok (rbs, joiner) =>
                (requestLoop parent fuel calls rbs.beliefState r.k1 r.k2
                  ⟨joiner, t.queryCounter + 1, r.cache⟩).map (fun o => (r.sent ++ o.1, o.2))

/-- `process_request`, with its assertion on the range. -/
def streamRequest (parent fuel k1 k2 : ℕ) (t : Thread B) :
    Except RequestFault (List (NewBeliefState bso.width) × Thread B) :=
  if GoodRequest k1 k2 then
    match B.firstJoin history (queryId nc.ctxId (t.queryCounter + 1)) fuel t.joiner with
    | .error f => .error (.joiner f)
    | .ok (rbs, joiner) =>
        nc.requestLoop B history parent fuel fuel rbs.beliefState k1 k2
          ⟨joiner, t.queryCounter + 1, t.cache⟩
  else .error .refused

/-- A message at the `REQUEST_MQ`. -/
structure RequestMessage where
  history : Finset ℕ
  parent : ℕ
  k1 : ℕ
  k2 : ℕ

/-- The loop of `startup`, up to the request to shut down: what is sent for each request, with the
marker for the end of models. -/
def startup (fuel : ℕ) : List RequestMessage → Thread B →
    Except RequestFault (List (List (Option (NewBeliefState bso.width))) × Thread B)
  | [], t => .ok ([], t)
  | m :: ms, t =>
      if ¬ GoodRequest m.k1 m.k2 ∨ nc.ctxId ∈ m.history then .error .refused
      else
        match nc.streamRequest B (insert nc.ctxId m.history) m.parent fuel m.k1 m.k2 t with
        | .error f => .error f
        | .ok (sent, t) =>
            (startup fuel ms t).map (fun o => ((sent.map some ++ [none]) :: o.1, o.2))

end NormalContext

namespace BaseJoiner

variable (B : BaseJoiner bso) (history : Finset ℕ) (atRest : B.State → Prop)

/-- With enough fuel a call comes back with the given state, or with `NULL`. -/
def Returns (call : ℕ → Except Fault (ReturnedBeliefState bso × B.State))
    (input : Option (NewBeliefState bso.width)) (s : B.State) : Prop :=
  ∃ N qid, ∀ fuel ≥ N, call fuel = .ok (⟨input, qid⟩, s)

/-- What `next_join` hands out from a state on, whatever ids it is called with; between the calls
and afterwards the joiner is at rest. -/
def Delivers : List (NewBeliefState bso.width) → B.State → Prop
  | [], s => atRest s ∧ ∀ qid, Plain qid →
      ∃ s', B.Returns (fun fuel => B.nextJoin history qid fuel s) none s' ∧ atRest s'
  | input :: inputs, s => atRest s ∧ ∀ qid, Plain qid →
      ∃ s', B.Returns (fun fuel => B.nextJoin history qid fuel s) (some input) s' ∧
        Delivers inputs s'

/-- What `first_join` and then `next_join` hand out from a state at rest on. -/
def Starts : List (NewBeliefState bso.width) → B.State → Prop
  | [], s => ∀ qid, Plain qid →
      ∃ s', B.Returns (fun fuel => B.firstJoin history qid fuel s) none s' ∧ atRest s'
  | input :: inputs, s => ∀ qid, Plain qid →
      ∃ s', B.Returns (fun fuel => B.firstJoin history qid fuel s) (some input) s' ∧
        B.Delivers history atRest inputs s'

end BaseJoiner

/-! ## The loop -/

namespace NormalContext

variable {nc : NormalContext bso} {B : BaseJoiner bso} {history : Finset ℕ}
  {atRest : B.State → Prop}

/-- The outcome of a request for inputs that were handed out: the states that `processInputs` sends,
its cache, and a joiner at rest; the query counter stays below a bound. -/
def Outcome (atRest : B.State → Prop) (counter : ℕ)
    (processed : Option (List (NewBeliefState bso.width) × CachePosition)) :
    Except RequestFault (List (NewBeliefState bso.width) × Thread B) → Prop
  | .ok (sent, t) => processed = some (sent, t.cache) ∧ atRest t.joiner ∧ t.queryCounter ≤ counter
  | .error f => f = .processing ∧ processed = none

lemma Outcome.map {counter : ℕ}
    {processed : Option (List (NewBeliefState bso.width) × CachePosition)}
    {result : Except RequestFault (List (NewBeliefState bso.width) × Thread B)}
    (h : Outcome atRest counter processed result) (sent : List (NewBeliefState bso.width)) :
    Outcome atRest counter (processed.map (fun o => (sent ++ o.1, o.2)))
      (result.map (fun o => (sent ++ o.1, o.2))) := by
  cases result with
  | error f => exact ⟨h.1, by rw [h.2]; rfl⟩
  | ok o => exact ⟨by rw [h.1]; rfl, h.2⟩

/-- An input that does not end the request, and the next one from the joiner. -/
lemma requestLoop_next {parent fuel calls k1 k2 : ℕ} {input : NewBeliefState bso.width}
    {t : Thread B} {r : ComputeResult (NewBeliefState bso.width)}
    (hr : nc.processInput input parent k1 k2 t.cache = some r) (hf : r.finished = false)
    {next : Option (NewBeliefState bso.width)} {qid : Qid} {s : B.State}
    (hcall : B.nextJoin history (queryId nc.ctxId (t.queryCounter + 1)) fuel t.joiner =
      .ok (⟨next, qid⟩, s)) :
    nc.requestLoop B history parent fuel (calls + 1) (some input) k1 k2 t =
      (nc.requestLoop B history parent fuel calls next r.k1 r.k2
        ⟨s, t.queryCounter + 1, r.cache⟩).map (fun o => (r.sent ++ o.1, o.2)) := by
  rw [requestLoop, hr]
  simp only [hf, Bool.false_eq_true, if_false, hcall]

lemma processInputs_next {parent k1 k2 : ℕ} {input : NewBeliefState bso.width}
    {inputs : List (NewBeliefState bso.width)} {cache : CachePosition}
    {r : ComputeResult (NewBeliefState bso.width)}
    (hr : nc.processInput input parent k1 k2 cache = some r) (hf : r.finished = false) :
    nc.processInputs parent (input :: inputs) k1 k2 cache =
      (nc.processInputs parent inputs r.k1 r.k2 r.cache).map (fun o => (r.sent ++ o.1, o.2)) := by
  rw [processInputs, hr]
  simp only [hf, Bool.false_eq_true, if_false]

lemma requestLoop_queryCounter_le {parent fuel : ℕ} (calls : ℕ) :
    ∀ {input : Option (NewBeliefState bso.width)} {k1 k2 : ℕ} {t : Thread B}
      {o : List (NewBeliefState bso.width) × Thread B},
      nc.requestLoop B history parent fuel calls input k1 k2 t = .ok o →
        t.queryCounter ≤ o.2.queryCounter := by
  induction calls with
  | zero =>
      intro input k1 k2 t o ho
      cases ho
  | succ calls ih =>
      intro input k1 k2 t o ho
      cases input with
      | none =>
          cases ho
          exact Nat.le_refl _
      | some input =>
          rw [requestLoop] at ho
          cases hr : nc.processInput input parent k1 k2 t.cache with
          | none =>
              rw [hr] at ho
              cases ho
          | some r =>
              simp only [hr] at ho
              split at ho
              · cases ho
                exact Nat.le_refl _
              · split at ho
                · cases ho
                · next rbs joiner _ =>
                    cases hrest : nc.requestLoop B history parent fuel calls rbs.beliefState r.k1
                        r.k2 ⟨joiner, t.queryCounter + 1, r.cache⟩ with
                    | error f =>
                        rw [hrest] at ho
                        cases ho
                    | ok o' =>
                        rw [hrest] at ho
                        cases ho
                        exact le_trans (Nat.le_succ _) (ih hrest)

/-- The query counter has run through its 24 bits before a request came back. -/
def Exhausted (counter : ℕ)
    (result : Except RequestFault (List (NewBeliefState bso.width) × Thread B)) : Prop :=
  2 ^ 24 ≤ counter ∧ ∀ o, result = .ok o → 2 ^ 24 ≤ o.2.queryCounter

lemma Exhausted.map {counter : ℕ}
    {result : Except RequestFault (List (NewBeliefState bso.width) × Thread B)}
    (h : Exhausted counter result) (sent : List (NewBeliefState bso.width)) :
    Exhausted counter (result.map (fun o => (sent ++ o.1, o.2))) := by
  refine ⟨h.1, fun o ho => ?_⟩
  cases result with
  | error f => cases ho
  | ok o' =>
      cases ho
      exact h.2 o' rfl

/-- With enough fuel a request always ends in the same way: with the outcome of `processInputs`, or
not before the query counter has run out. -/
def Follows (atRest : B.State → Prop) (counter : ℕ)
    (processed : Option (List (NewBeliefState bso.width) × CachePosition))
    (run : ℕ → ℕ → Except RequestFault (List (NewBeliefState bso.width) × Thread B)) : Prop :=
  (∃ result, Outcome atRest counter processed result ∧
    ∃ N, ∀ fuel ≥ N, ∀ calls ≥ N, run fuel calls = result) ∨
  ∃ N, ∀ fuel ≥ N, ∀ calls ≥ N, Exhausted counter (run fuel calls)

/-- An input that ends the request, or makes it fail. -/
lemma follows_of_last {parent k1 k2 counter : ℕ} {input : NewBeliefState bso.width}
    {inputs : List (NewBeliefState bso.width)} {t : Thread B} (ht : atRest t.joiner)
    (hcounter : t.queryCounter ≤ counter)
    (hlast : ∀ r, nc.processInput input parent k1 k2 t.cache = some r → r.finished = true) :
    Follows atRest counter (nc.processInputs parent (input :: inputs) k1 k2 t.cache)
      (fun fuel calls => nc.requestLoop B history parent fuel calls (some input) k1 k2 t) := by
  rw [processInputs]
  cases hr : nc.processInput input parent k1 k2 t.cache with
  | none =>
      refine Or.inl ⟨.error .processing, ⟨rfl, rfl⟩, 1, fun fuel _ calls hcalls => ?_⟩
      obtain ⟨calls, rfl⟩ : ∃ k, calls = k + 1 := ⟨calls - 1, by omega⟩
      beta_reduce
      rw [requestLoop, hr]
  | some r =>
      have hf := hlast r hr
      refine Or.inl ⟨.ok (r.sent, { t with cache := r.cache }), ⟨?_, ht, hcounter⟩, 1,
        fun fuel _ calls hcalls => ?_⟩
      · simp only [hf, if_true]
      · obtain ⟨calls, rfl⟩ : ∃ k, calls = k + 1 := ⟨calls - 1, by omega⟩
        beta_reduce
        rw [requestLoop, hr]
        simp only [hf, if_true]

/-- Another input is needed and the counter is at its end. -/
lemma exhausted_of_next {parent k1 k2 counter : ℕ} {input : NewBeliefState bso.width}
    {t : Thread B} {r : ComputeResult (NewBeliefState bso.width)}
    (hr : nc.processInput input parent k1 k2 t.cache = some r) (hf : r.finished = false)
    (hcounter : 2 ^ 24 ≤ t.queryCounter + 1) (hle : t.queryCounter + 1 ≤ counter)
    (fuel calls : ℕ) :
    Exhausted counter (nc.requestLoop B history parent fuel (calls + 1) (some input) k1 k2 t) := by
  cases hcall : B.nextJoin history (queryId nc.ctxId (t.queryCounter + 1)) fuel t.joiner with
  | error f =>
      rw [requestLoop, hr]
      simp only [hf, Bool.false_eq_true, if_false, hcall]
      exact ⟨by omega, fun o ho => by cases ho⟩
  | ok o =>
      obtain ⟨⟨next, qid⟩, s⟩ := o
      rw [requestLoop_next hr hf hcall]
      have hrest : Exhausted counter (nc.requestLoop B history parent fuel calls next r.k1 r.k2
          ⟨s, t.queryCounter + 1, r.cache⟩) :=
        ⟨by omega, fun o ho => le_trans hcounter (requestLoop_queryCounter_le calls ho)⟩
      exact hrest.map r.sent

/-- The loop over the inputs the joiner delivers is `processInputs`. -/
lemma requestLoop_delivers (hctx : nc.ctxId < 2 ^ 10) (parent : ℕ)
    (inputs : List (NewBeliefState bso.width)) :
    ∀ (input : NewBeliefState bso.width) (k1 k2 : ℕ) (t : Thread B),
      B.Delivers history atRest inputs t.joiner →
        Follows atRest (t.queryCounter + inputs.length + 1)
          (nc.processInputs parent (input :: inputs) k1 k2 t.cache)
          (fun fuel calls => nc.requestLoop B history parent fuel calls (some input) k1 k2 t) := by
  -- The induction is on the inputs after the one at hand. In each step the range may be used up, or
  -- the query counter, or the joiner is called once more.
  induction inputs with
  | nil =>
      intro input k1 k2 t ht
      by_cases hlast : ∀ r, nc.processInput input parent k1 k2 t.cache = some r → r.finished = true
      · exact follows_of_last ht.1 (Nat.le_succ _) hlast
      · push Not at hlast
        obtain ⟨r, hr, hf⟩ := hlast
        rw [ne_eq, Bool.not_eq_true] at hf
        by_cases hcounter : t.queryCounter + 1 < 2 ^ 24
        · obtain ⟨s', ⟨N, qid, hcall⟩, hrest⟩ := ht.2 (queryId nc.ctxId (t.queryCounter + 1))
            (plain_queryId hctx hcounter)
          have hdone : Outcome atRest (t.queryCounter + 1)
              (nc.processInputs parent [] r.k1 r.k2 r.cache)
              (.ok ([], (⟨s', t.queryCounter + 1, r.cache⟩ : Thread B))) :=
            ⟨rfl, hrest, Nat.le_refl _⟩
          rw [processInputs_next hr hf]
          refine Or.inl ⟨_, hdone.map r.sent, N + 2, fun fuel hfuel calls hcalls => ?_⟩
          obtain ⟨calls, rfl⟩ : ∃ k, calls = k + 2 := ⟨calls - 2, by omega⟩
          beta_reduce
          rw [requestLoop_next hr hf (hcall fuel (by omega))]
          rfl
        · refine Or.inr ⟨1, fun fuel _ calls hcalls => ?_⟩
          obtain ⟨calls, rfl⟩ : ∃ k, calls = k + 1 := ⟨calls - 1, by omega⟩
          exact exhausted_of_next hr hf (not_lt.mp hcounter) (Nat.le_refl _) fuel calls
  | cons input' inputs ih =>
      intro input k1 k2 t ht
      by_cases hlast : ∀ r, nc.processInput input parent k1 k2 t.cache = some r → r.finished = true
      · exact follows_of_last ht.1 (by omega) hlast
      · push Not at hlast
        obtain ⟨r, hr, hf⟩ := hlast
        rw [ne_eq, Bool.not_eq_true] at hf
        by_cases hcounter : t.queryCounter + 1 < 2 ^ 24
        · obtain ⟨s', ⟨N, qid, hcall⟩, hdelivers⟩ := ht.2 (queryId nc.ctxId (t.queryCounter + 1))
            (plain_queryId hctx hcounter)
          have hbound : t.queryCounter + 1 + inputs.length + 1 =
              t.queryCounter + (input' :: inputs).length + 1 := by
            rw [List.length_cons]
            omega
          rw [processInputs_next hr hf]
          have hrest := ih input' r.k1 r.k2 ⟨s', t.queryCounter + 1, r.cache⟩ hdelivers
          simp only [hbound] at hrest
          rcases hrest with ⟨result, hout, N', hN'⟩ | ⟨N', hN'⟩
          · beta_reduce at hN'
            refine Or.inl ⟨_, hout.map r.sent, max N N' + 1, fun fuel hfuel calls hcalls => ?_⟩
            obtain ⟨calls, rfl⟩ : ∃ k, calls = k + 1 := ⟨calls - 1, by omega⟩
            beta_reduce
            rw [requestLoop_next hr hf (hcall fuel (by omega)),
              hN' fuel (by omega) calls (by omega)]
          · refine Or.inr ⟨max N N' + 1, fun fuel hfuel calls hcalls => ?_⟩
            obtain ⟨calls, rfl⟩ : ∃ k, calls = k + 1 := ⟨calls - 1, by omega⟩
            beta_reduce
            rw [requestLoop_next hr hf (hcall fuel (by omega))]
            exact (hN' fuel (by omega) calls (by omega)).map r.sent
        · refine Or.inr ⟨1, fun fuel _ calls hcalls => ?_⟩
          obtain ⟨calls, rfl⟩ : ∃ k, calls = k + 1 := ⟨calls - 1, by omega⟩
          exact exhausted_of_next hr hf (not_lt.mp hcounter) (by omega) fuel calls

/-- `process_request` over a joiner that hands out `inputs` is `processInputs` on them, unless the
query counter runs out. -/
lemma streamRequest_starts (hctx : nc.ctxId < 2 ^ 10) (parent : ℕ) {k1 k2 : ℕ}
    (hgood : GoodRequest k1 k2) {inputs : List (NewBeliefState bso.width)} {t : Thread B}
    (ht : B.Starts history atRest inputs t.joiner) (hcounter : t.queryCounter + 1 < 2 ^ 24) :
    Follows atRest (t.queryCounter + inputs.length + 1)
      (nc.processInputs parent inputs k1 k2 t.cache)
      (fun fuel _ => nc.streamRequest B history parent fuel k1 k2 t) := by
  have hplain := plain_queryId hctx hcounter
  cases inputs with
  | nil =>
      obtain ⟨s', ⟨N, qid, hcall⟩, hrest⟩ := ht _ hplain
      refine Or.inl ⟨.ok ([], ⟨s', t.queryCounter + 1, t.cache⟩), ⟨rfl, hrest, Nat.le_refl _⟩,
        N + 1, fun fuel hfuel _ _ => ?_⟩
      obtain ⟨fuel, rfl⟩ : ∃ k, fuel = k + 1 := ⟨fuel - 1, by omega⟩
      have hfirst := hcall (fuel + 1) (by omega)
      beta_reduce at hfirst ⊢
      rw [streamRequest, if_pos hgood, hfirst]
      rfl
  | cons input inputs =>
      obtain ⟨s', ⟨N, qid, hcall⟩, hdelivers⟩ := ht _ hplain
      have hloop := requestLoop_delivers hctx parent inputs input k1 k2
        ⟨s', t.queryCounter + 1, t.cache⟩ hdelivers
      have hbound : t.queryCounter + 1 + inputs.length + 1 =
          t.queryCounter + (input :: inputs).length + 1 := by
        rw [List.length_cons]
        omega
      have hrun : ∀ fuel ≥ N, nc.streamRequest B history parent fuel k1 k2 t =
          nc.requestLoop B history parent fuel fuel (some input) k1 k2
            ⟨s', t.queryCounter + 1, t.cache⟩ := by
        intro fuel hfuel
        have hfirst := hcall fuel hfuel
        simp only at hfirst
        rw [streamRequest, if_pos hgood, hfirst]
      simp only [hbound] at hloop
      rcases hloop with ⟨result, hout, N', hN'⟩ | ⟨N', hN'⟩
      · beta_reduce at hN'
        refine Or.inl ⟨result, hout, max N N', fun fuel hfuel _ _ => ?_⟩
        beta_reduce
        rw [hrun fuel (by omega), hN' fuel (by omega) fuel (by omega)]
      · refine Or.inr ⟨max N N', fun fuel hfuel _ _ => ?_⟩
        beta_reduce
        rw [hrun fuel (by omega)]
        exact hN' fuel (by omega) fuel (by omega)

/-- A request that comes back was a good one, and has used up query ids. -/
lemma streamRequest_ok {parent fuel k1 k2 : ℕ} {t : Thread B}
    {o : List (NewBeliefState bso.width) × Thread B}
    (ho : nc.streamRequest B history parent fuel k1 k2 t = .ok o) :
    GoodRequest k1 k2 ∧ t.queryCounter < o.2.queryCounter := by
  rw [streamRequest] at ho
  split at ho
  · next hgood =>
      split at ho
      · cases ho
      · exact ⟨hgood, requestLoop_queryCounter_le fuel ho⟩
  · cases ho

/-! ## Contexts that do not guess -/

/-- The first step is not recorded. -/
lemma pageStep_zero_ne_none {α : Type*} (M : List α) (k1 k2 : ℕ) (cache : CachePosition) :
    pageStep M 0 k1 k2 cache ≠ none := by
  rw [pageStep, if_neg (Nat.lt_irrefl 0)]
  split_ifs <;> simp

lemma pageStep_zero_cache {α : Type*} {M : List α} {k1 k2 : ℕ} {cache : CachePosition}
    {r : ComputeResult α} (hr : pageStep M 0 k1 k2 cache = some r) : r.cache = cache := by
  rw [pageStep, if_neg (Nat.lt_irrefl 0)] at hr
  split_ifs at hr <;> simp only [Option.map_some, Option.some.injEq] at hr <;> rw [← hr]

/-- A context without guessing neighbours sends its page of the models of all inputs and leaves the
cache alone. -/
lemma processInputs_unguessed (hguess : nc.guessingNeighbors = none) {parent : ℕ}
    {interface : NewBeliefState bso.width} (hp : nc.returnPlan parent = some interface)
    (inputs : List (NewBeliefState bso.width)) :
    ∀ {k1 k2 : ℕ} {cache : CachePosition}, Admissible k1 k2 →
      nc.processInputs parent inputs k1 k2 cache =
        some (page k1 k2 (inputs.flatMap (nc.answerModels interface)), cache) := by
  induction inputs with
  | nil =>
      intro k1 k2 cache _
      rw [processInputs, List.flatMap_nil, page_nil]
  | cons input inputs ih =>
      intro k1 k2 cache hadm
      have hinput : nc.processInput input parent k1 k2 cache =
          pageStep (nc.answerModels interface input) 0 k1 k2 cache := by
        rw [processInput, mustGuess, hguess]
        simp only [Bool.false_eq_true, if_false]
        exact nc.compute_eq_pageStep hp input 0 k1 k2 cache hadm
      rw [processInputs, hinput]
      cases hr : pageStep (nc.answerModels interface input) 0 k1 k2 cache with
      | none => exact absurd hr (pageStep_zero_ne_none _ _ _ _)
      | some r =>
          have hcache : r.cache = cache := pageStep_zero_cache hr
          rw [← pageRun_singleton, ← List.drop_zero (l := [_]), ← pageFrom] at hr
          have hout := pageFrom_some hadm hr
          have hflat : ([nc.answerModels interface input].drop 0).flatten =
              nc.answerModels interface input := by simp
          simp only [List.flatMap_cons, hcache]
          cases hf : r.finished with
          | true =>
              obtain ⟨h1, h2⟩ := hout.finished.mp hf
              rw [hflat] at h2
              simp only [if_true]
              rw [page_append h1, if_pos h2, List.append_nil, hout.sent, hflat]
          | false =>
              have happend := hout.append hf (inputs.flatMap (nc.answerModels interface))
              rw [hflat] at happend
              simp only [Bool.false_eq_true, if_false]
              rw [ih (hout.admissible hf), happend]
              rfl

variable {parent k1 k2 : ℕ} {interface : NewBeliefState bso.width} {t t' : Thread B}
  {inputs sent : List (NewBeliefState bso.width)}

/-- A request that comes back before the counter has run out is answered with its page, and leaves
the joiner at rest. -/
lemma sent_of_starts (hctx : nc.ctxId < 2 ^ 10) (hguess : nc.guessingNeighbors = none)
    (hp : nc.returnPlan parent = some interface) (ht : B.Starts history atRest inputs t.joiner)
    (hrun : ∃ N, ∀ fuel ≥ N,
      nc.streamRequest B history parent fuel k1 k2 t = .ok (sent, t'))
    (hcounter : t'.queryCounter < 2 ^ 24) :
    sent = page k1 k2 (inputs.flatMap (nc.answerModels interface)) ∧ atRest t'.joiner := by
  obtain ⟨N, hN⟩ := hrun
  obtain ⟨hgood, hlt⟩ := streamRequest_ok (hN N le_rfl)
  simp only at hlt
  rcases streamRequest_starts hctx parent hgood ht (by omega) with
    ⟨result, hout, N', hN'⟩ | ⟨N', hN'⟩
  · have hresult := (hN' (max N N') (Nat.le_max_right _ _) N' le_rfl).symm.trans
      (hN (max N N') (Nat.le_max_left _ _))
    rw [processInputs_unguessed hguess hp inputs hgood.admissible, hresult] at hout
    obtain ⟨hsent, hrest, -⟩ := hout
    rw [Option.some.injEq, Prod.mk.injEq] at hsent
    exact ⟨hsent.1.symm, hrest⟩
  · have hlate := (hN' (max N N') (Nat.le_max_right _ _) N' le_rfl).2 _
      (hN (max N N') (Nat.le_max_left _ _))
    simp only at hlate
    omega

variable (nc parent) in
/-- A request for few enough inputs comes back. -/
lemma exists_streamRequest (hctx : nc.ctxId < 2 ^ 10) (hguess : nc.guessingNeighbors = none)
    (hp : nc.returnPlan parent = some interface) (hgood : GoodRequest k1 k2)
    (ht : B.Starts history atRest inputs t.joiner)
    (hcounter : t.queryCounter + inputs.length + 1 < 2 ^ 24) :
    ∃ t', (∃ N, ∀ fuel ≥ N, nc.streamRequest B history parent fuel k1 k2 t =
        .ok (page k1 k2 (inputs.flatMap (nc.answerModels interface)), t')) ∧
      atRest t'.joiner ∧ t'.queryCounter ≤ t.queryCounter + inputs.length + 1 := by
  rcases streamRequest_starts hctx parent hgood ht (by omega) with
    ⟨result, hout, N, hN⟩ | ⟨N, hN⟩
  · rw [processInputs_unguessed hguess hp inputs hgood.admissible] at hout
    cases result with
    | error f => cases hout.2
    | ok o =>
        obtain ⟨hsent, hrest, hle⟩ := hout
        rw [Option.some.injEq, Prod.mk.injEq] at hsent
        refine ⟨o.2, ⟨N, fun fuel hfuel => (hN fuel hfuel N le_rfl).trans ?_⟩, hrest, hle⟩
        rw [hsent.1]
  · exact absurd (hN N le_rfl N le_rfl).1 (not_le.mpr hcounter)

end NormalContext

end Dmcs
