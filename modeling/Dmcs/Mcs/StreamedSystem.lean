import Dmcs.Mcs.JoinedAnswers
import Dmcs.Mcs.StreamedJoins
import Dmcs.Mcs.UniqueEquilibrium

/-!
# The running system

`Answers` joins whole answers.  In the running system a context asks its neighbours for packs while
its own states are asked for page by page: the states of a page are computed from inputs that
`process_request` pulls from the joiner, the joiner pulls packs from the neighbours, each with its
own query, and each of these queries is a request to a context that does the same.  `Streams` is
this system, with any order of arrival at every joiner, any pack sizes, and threads that may have
served other requests before.

In an acyclic system all of this comes to one list of states for each context, whose pages the
requests are answered with: the equilibria of the sub-system (`streams_pages`).  The machine sets
bounds to it (`Bounded`): `ask_first_packs` waits for fewer than 64 neighbours, the ranges of the
packs are computed on `size_t`, and a query id has 24 bits for the query counter.

## The argument

`Streams` has one constructor for each kind of context, and its environment answers every query by a
stream of the context that is asked.  In an acyclic system the history never reaches a context
twice, so there are no cycle breakers, and the induction is over the contexts from those without
neighbours upwards.

At each context the neighbours answer with pages of fixed lists (induction hypothesis), so the
joiner hands out the joins pack by pack (`StreamedJoins`), and the loop of `process_request` serves
the page of the states computed from them (`StreamedRequest`).  The list of a context does not
depend on the request, on the order of arrival or on what was served before: `streamedModels`
computes it from the lists of the neighbours.
-/

namespace Dmcs

open Levels NewContext Odometer Paging StreamingJoiner

variable {bso : BeliefStateOffset}

/-- A system with the joiners of its contexts.  A context without neighbours has a `LeafJoiner`.
The ids of the contexts fit the field of a query id. -/
structure StreamingSystem (bso : BeliefStateOffset) extends System bso where
  joiner : ∀ c, toSystem.neighborIds c ≠ [] → JoinerConfig
  joiner_neighbors : ∀ c h, (joiner c h).neighbors.map Neighbor.neighborId = toSystem.neighborIds c
  noBlocks_le : bso.noBlocks ≤ 2 ^ 10

namespace StreamingSystem

open Dmcs.System NormalContext

variable (sys : StreamingSystem bso)

/-- The joiner of a context, its state at start-up, and the states it has between two requests. -/
structure ContextJoiner (bso : BeliefStateOffset) extends BaseJoiner bso where
  init : State
  atRest : State → Prop

/-- The joiner `NormalContext` builds. -/
def contextJoiner (c : ℕ) (env : Environment bso) : ContextJoiner bso :=
  if h : sys.neighborIds c = [] then
    { leafJoiner bso with
      init := ()
      atRest := fun _ => True }
  else
    { streamingJoiner (sys.joiner c h) env with
      init := StreamingJoiner.State.init (sys.joiner c h)
      atRest := Idle (sys.joiner c h) }

/-- `Streams history parent c k1 k2 sent`: the request `(k1, k2)` with this history, sent by
`parent` to context `c`, is answered by the states `sent`.  Nothing is said about the answers to
ranges that fail the assertion on requests. -/
inductive Streams : Finset ℕ → ℕ → ℕ → ℕ → ℕ → List (NewBeliefState bso.width) → Prop
  /-- The normal context, whose queries are requests of this kind.  Its thread is at rest when it
  takes the request, and the query counter does not run out before it comes back. -/
  | normal {history : Finset ℕ} {parent c k1 k2 : ℕ} {sent : List (NewBeliefState bso.width)}
      (hc : c ∉ history) (env : Environment bso)
      {t t' : Thread (sys.contextJoiner c env).toBaseJoiner}
      (henv : ∀ time, ∀ nb : Neighbor, nb.neighborId ∈ sys.neighborIds c →
        ∀ message : ForwardMessage, message.history = insert c history →
          Admissible message.k1 message.k2 → message.k2 + 1 < 2 ^ 64 →
            Streams (insert c history) c nb.neighborId message.k1 message.k2
              (env.answer time nb message))
      (hrest : (sys.contextJoiner c env).atRest t.joiner)
      (hrun : ∃ N, ∀ fuel ≥ N, (sys.normalContext c).streamRequest
        (sys.contextJoiner c env).toBaseJoiner (insert c history) parent fuel k1 k2 t =
          .ok (sent, t'))
      (hcounter : t'.queryCounter < 2 ^ 24) :
      Streams history parent c k1 k2 sent
  /-- The cycle breaker. -/
  | breaker {history : Finset ℕ} {parent c k1 k2 : ℕ} {sent : List (NewBeliefState bso.width)}
      {cache cache' : CachePosition} (hc : c ∈ history) (hadm : Admissible k1 k2)
      (hk2 : k2 < 2 ^ 64)
      (hsent : (sys.cycleBreaker c).serve cache ⟨parent, k1, k2, sys.interface, rfl, hadm, hk2⟩ =
        some (sent.map some ++ [none], cache')) :
      Streams history parent c k1 k2 sent

/-- The neighbours of a context answer the queries of a request as the system does. -/
def StreamsBelow (c : ℕ) (history : Finset ℕ) (env : Environment bso) : Prop :=
  ∀ time, ∀ nb : Neighbor, nb.neighborId ∈ sys.neighborIds c → ∀ message : ForwardMessage,
    message.history = history → Admissible message.k1 message.k2 → message.k2 + 1 < 2 ^ 64 →
      sys.Streams history c nb.neighborId message.k1 message.k2 (env.answer time nb message)

/-! ## The lists behind the pages -/

/-- The inputs of a context whose neighbours hold these lists. -/
def streamedInputs (models : ℕ → List (NewBeliefState bso.width)) (c : ℕ) :
    List (NewBeliefState bso.width) :=
  if h : sys.neighborIds c = [] then [NewBeliefState.empty bso.width]
  else handedOut (sys.joiner c h).packSize ((sys.neighborIds c).map models)

/-- The states a context sends for these inputs. -/
def streamedModels (models : ℕ → List (NewBeliefState bso.width)) (c : ℕ) :
    List (NewBeliefState bso.width) :=
  (sys.streamedInputs models c).flatMap ((sys.newContext c).answerModels sys.interface)

/-- The bounds within which the joiners below a context work: fewer than 64 neighbours, packs whose
ranges stay below the largest `size_t`, and no more inputs than a query counter can count. -/
structure Bounded (r : ℕ) : Prop where
  neighbors_lt : ∀ c h, sys.Reaches r c → (sys.joiner c h).neighbors.length < 64
  models_lt : ∀ models, sys.streamedModels models = models → ∀ c h, sys.Reaches r c →
    ∀ d ∈ sys.neighborIds c, (models d).length + 2 * (sys.joiner c h).packSize < 2 ^ 64
  inputs_lt : ∀ models, sys.streamedModels models = models → ∀ c, sys.Reaches r c →
    (sys.streamedInputs models c).length + 1 < 2 ^ 24

variable {sys} {c d r parent k1 k2 : ℕ} {history : Finset ℕ} {E S : NewBeliefState bso.width}
  {models : ℕ → List (NewBeliefState bso.width)} {sent : List (NewBeliefState bso.width)}

/-- In an acyclic system the contexts have lists that fit together. -/
lemma exists_models (h : sys.Acyclic) : ∃ models, sys.streamedModels models = models := by
  obtain ⟨level, hlevel⟩ := h.exists_level
  have hup : GoesUp level sys.streamedModels := by
    intro n M M' hagree c hc
    have hmap : (sys.neighborIds c).map M = (sys.neighborIds c).map M' := by
      refine List.map_congr_left (fun d hd => hagree d ?_)
      have := hlevel c d (mem_neighborIds.mp hd).2
      omega
    rw [streamedModels, streamedModels, streamedInputs, streamedInputs, hmap]
  obtain ⟨models, hmodels, -⟩ := hup.existsUnique
  exact ⟨models, hmodels⟩

/-- Products of lists with the same elements have the same elements. -/
lemma mem_product_map_congr {α : Type*} {f g : ℕ → List α} {ds : List ℕ}
    (h : ∀ d ∈ ds, ∀ x, x ∈ f d ↔ x ∈ g d) (xs : List α) :
    xs ∈ product (ds.map f) ↔ xs ∈ product (ds.map g) := by
  induction ds generalizing xs with
  | nil => rfl
  | cons d ds ih =>
      simp only [List.map_cons, product, List.mem_flatMap, List.mem_map]
      refine exists_congr (fun x => and_congr (h d List.mem_cons_self x) ?_)
      refine exists_congr (fun ys => and_congr_left (fun _ => ih (fun d hd => ?_) ys))
      exact h d (List.mem_cons_of_mem _ hd)

/-- The inputs are, in some order, the joins of whole answers. -/
lemma mem_streamedInputs {answers : ℕ → List (NewBeliefState bso.width)}
    (h : ∀ d ∈ sys.neighborIds c, ∀ S, S ∈ answers d ↔ S ∈ models d)
    (T : NewBeliefState bso.width) :
    T ∈ sys.streamedInputs models c ↔ T ∈ joinedInputs ((sys.neighborIds c).map answers) := by
  rw [streamedInputs]
  split
  · next hleaf => rw [hleaf, List.map_nil, joinedInputs, if_pos rfl]
  · next hne =>
      rw [(handedOut_perm _ _).mem_iff, joinedInputs_eq (by simpa using hne), List.mem_filterMap,
        List.mem_filterMap]
      exact exists_congr (fun xs => and_congr_left (fun _ => (mem_product_map_congr h xs).symm))

/-- A request that goes on comes from above. -/
lemma above_insert (hhistory : ∀ x ∈ history, Relation.TransGen sys.Imports x c)
    (hcd : sys.Imports c d) : ∀ x ∈ insert c history, Relation.TransGen sys.Imports x d := by
  intro x hx
  rcases Finset.mem_insert.mp hx with rfl | hx
  · exact .single hcd
  · exact (hhistory x hx).tail hcd

variable (parent) in
/-- Asked for everything on its own, a context answers with the elements of its list. -/
lemma exists_answers_models (h : sys.Acyclic) (hmodels : sys.streamedModels models = models)
    (hc : c < bso.noBlocks) :
    ∃ sent, sys.Answers ∅ parent c sent ∧ ∀ S, S ∈ sent ↔ S ∈ models c := by
  -- the contexts of a history depend on the context asked, so it is never one of them
  refine History.induction (Finset.range bso.noBlocks)
    (motive := fun history c => (∀ x ∈ history, Relation.TransGen sys.Imports x c) → ∀ parent,
      ∃ sent, sys.Answers history parent c sent ∧ ∀ S, S ∈ sent ↔ S ∈ models c) ?_ ∅
    (Finset.mem_range.mpr hc) (by simp) parent
  intro history c hc ih hhistory parent
  have hnot : c ∉ history := fun hmem => h c (hhistory c hmem)
  have hbelow : ∀ d ∈ sys.neighborIds c, ∃ sent, sys.Answers (insert c history) c d sent ∧
      ∀ S, S ∈ sent ↔ S ∈ models d := by
    intro d hd
    have hcd := (mem_neighborIds.mp hd).2
    exact ih hnot d (Finset.mem_range.mpr hcd.lt) (above_insert hhistory hcd) c
  choose! answers hanswers hmem using hbelow
  refine ⟨_, .normal hnot answers hanswers (processRequest_normalRequest c parent _), fun S => ?_⟩
  conv_rhs => rw [← hmodels, streamedModels]
  simp only [List.mem_flatMap, mem_streamedInputs hmem]

/-- The list of a context holds the equilibria of its sub-system. -/
lemma mem_models_iff [sys.StrictAddresses] (h : sys.Acyclic) (hall : ∀ i < bso.width,
    sys.interface.status_bit.getLsbD i = true ∧ sys.interface.value_bit.getLsbD i = true)
    (hmodels : sys.streamedModels models = models) (hc : c < bso.noBlocks) :
    S ∈ models c ↔ sys.IsEquilibrium c S := by
  obtain ⟨sent, hsent, hmem⟩ := exists_answers_models 0 h hmodels hc
  rw [← hmem, h.mem_answers hall hc hsent]

/-! ## Every request is answered with its page -/

/-- The sub-systems below a context have equilibria. -/
def EquilibriaBelow (sys : StreamingSystem bso) (c : ℕ) : Prop :=
  ∀ d, Relation.TransGen sys.Imports c d → ∃ E, sys.IsEquilibrium d E

lemma EquilibriaBelow.of_imports (h : sys.EquilibriaBelow c) (hcd : sys.Imports c d) :
    sys.EquilibriaBelow d :=
  fun e he => h e (.head hcd he)

lemma Bounded.of_imports (h : sys.Bounded c) (hcd : sys.Imports c d) : sys.Bounded d :=
  ⟨fun e hne he => h.neighbors_lt e hne (.head hcd he),
    fun models hmodels e hne he => h.models_lt models hmodels e hne (.head hcd he),
    fun models hmodels e he => h.inputs_lt models hmodels e (.head hcd he)⟩

/-- The joiner's neighbours, in the order of the context's. -/
lemma neighborId_neighbor (hne : sys.neighborIds c ≠ []) {i : ℕ}
    (hi : i < (sys.joiner c hne).neighbors.length) :
    (sys.neighborIds c)[i]? = some ((sys.joiner c hne).neighbor i).neighborId := by
  rw [← sys.joiner_neighbors c hne, List.getElem?_map, List.getElem?_eq_getElem hi,
    JoinerConfig.neighbor, List.getD_eq_getElem _ _ hi]
  rfl

/-- Neighbours that answer the queries of a request with pages of their lists. -/
def AnswersPages (sys : StreamingSystem bso) (models : ℕ → List (NewBeliefState bso.width)) (c : ℕ)
    (history : Finset ℕ) (env : Environment bso) : Prop :=
  ∀ time, ∀ nb : Neighbor, nb.neighborId ∈ sys.neighborIds c → ∀ message : ForwardMessage,
    message.history = history → Admissible message.k1 message.k2 → message.k2 + 1 < 2 ^ 64 →
      env.answer time nb message = page message.k1 message.k2 (models nb.neighborId)

/-- Neighbours that answer with pages of these lists, one after the other. -/
def pageEnvironment (models : ℕ → List (NewBeliefState bso.width)) : Environment bso where
  answer := fun _ nb message => page message.k1 message.k2 (models nb.neighborId)
  arrive := fun _ ls => ls.flatten
  interleaving := interleaving_flatten

lemma AnswersPages.pagesServed {env : Environment bso}
    (henv : sys.AnswersPages models c history env) (hbounded : sys.Bounded c)
    (hmodels : sys.streamedModels models = models) (hne : sys.neighborIds c ≠ []) :
    PagesServed (sys.joiner c hne) env history ((sys.neighborIds c).map models) := by
  have hlen : ((sys.neighborIds c).map models).length = (sys.joiner c hne).neighbors.length := by
    rw [List.length_map, ← sys.joiner_neighbors c hne, List.length_map]
  refine ⟨hlen, fun L hL => ?_, fun i L hL time qid k1 k2 hadm hk2 => ?_⟩
  · obtain ⟨d, hd, rfl⟩ := List.mem_map.mp hL
    exact hbounded.models_lt models hmodels c hne .refl d hd
  · obtain ⟨hi, -⟩ := List.getElem?_eq_some_iff.mp hL
    have hi' := neighborId_neighbor hne (hlen ▸ hi)
    rw [answerOf, henv time _ (List.mem_of_getElem? hi') _ rfl hadm hk2]
    rw [List.getElem?_map, hi'] at hL
    rw [Option.some.inj hL]

variable (sys c) in
lemma atRest_init (env : Environment bso) :
    (sys.contextJoiner c env).atRest (sys.contextJoiner c env).init := by
  by_cases hleaf : sys.neighborIds c = []
  · rw [contextJoiner, dif_pos hleaf]
    trivial
  · rw [contextJoiner, dif_neg hleaf]
    exact idle_init _

/-- The joiner of a context hands out its inputs. -/
lemma AnswersPages.starts {env : Environment bso} (henv : sys.AnswersPages models c history env)
    (hbounded : sys.Bounded c) (hmodels : sys.streamedModels models = models)
    (hne : ∀ d ∈ sys.neighborIds c, models d ≠ []) :
    ∀ s, (sys.contextJoiner c env).atRest s → (sys.contextJoiner c env).Starts history
      (sys.contextJoiner c env).atRest (sys.streamedInputs models c) s := by
  by_cases hleaf : sys.neighborIds c = []
  · rw [contextJoiner, streamedInputs, dif_pos hleaf, dif_pos hleaf]
    exact fun s _ => starts_leafJoiner history s
  · rw [contextJoiner, streamedInputs, dif_neg hleaf, dif_neg hleaf]
    refine fun s hs => (henv.pagesServed hbounded hmodels hleaf).starts_handedOut
      (hbounded.neighbors_lt c hleaf .refl) (fun L hL => ?_) hs
    obtain ⟨d, hd, rfl⟩ := List.mem_map.mp hL
    exact hne d hd

/-! ## Acyclic systems -/

section Acyclic

variable [sys.StrictAddresses] (h : sys.Acyclic) (hall : ∀ i < bso.width,
  sys.interface.status_bit.getLsbD i = true ∧ sys.interface.value_bit.getLsbD i = true)
  (hmodels : sys.streamedModels models = models)

include h hall hmodels

lemma EquilibriaBelow.models_ne_nil (hbelow : sys.EquilibriaBelow c) :
    ∀ d ∈ sys.neighborIds c, models d ≠ [] := by
  intro d hd
  have hcd := (mem_neighborIds.mp hd).2
  obtain ⟨E, hE⟩ := hbelow d (.single hcd)
  exact List.ne_nil_of_mem ((mem_models_iff h hall hmodels hcd.lt).mpr hE)

/-- Every streamed answer is a page of the list of its context. -/
lemma Streams.eq_page (hsent : sys.Streams history parent c k1 k2 sent) (hc : c < bso.noBlocks)
    (hhistory : ∀ x ∈ history, Relation.TransGen sys.Imports x c) (hbelow : sys.EquilibriaBelow c)
    (hbounded : sys.Bounded c) : sent = page k1 k2 (models c) := by
  induction hsent with
  | normal hnot env henv hrest hrun hcounter ih =>
      rename_i history parent c k1 k2 sent t t'
      have hpages : sys.AnswersPages models c (insert c history) env := by
        intro time nb hnb message hmessage hadm hk2
        have hcd := (mem_neighborIds.mp hnb).2
        exact ih time nb hnb message hmessage hadm hk2 hcd.lt (above_insert hhistory hcd)
          (hbelow.of_imports hcd) (hbounded.of_imports hcd)
      have hstarts := hpages.starts hbounded hmodels (hbelow.models_ne_nil h hall hmodels)
        t.joiner hrest
      rw [← hmodels]
      exact (sent_of_starts (lt_of_lt_of_le hc sys.noBlocks_le) rfl rfl hstarts hrun hcounter).1
  | breaker hmem => exact absurd (hhistory _ hmem) (h _)

/-- Neighbours that stream their answers answer with pages. -/
lemma StreamsBelow.answersPages {env : Environment bso}
    (henv : sys.StreamsBelow c (insert c history) env) (hbelow : sys.EquilibriaBelow c)
    (hbounded : sys.Bounded c) (hhistory : ∀ x ∈ history, Relation.TransGen sys.Imports x c) :
    sys.AnswersPages models c (insert c history) env := by
  intro time nb hnb message hmessage hadm hk2
  have hcd := (mem_neighborIds.mp hnb).2
  exact (henv time nb hnb message hmessage hadm hk2).eq_page h hall hmodels hcd.lt
    (above_insert hhistory hcd) (hbelow.of_imports hcd) (hbounded.of_imports hcd)

variable (parent) in
/-- A thread at rest whose counter has room answers every request with its page. -/
lemma exists_streamRequest_page {env : Environment bso} (hc : c < bso.noBlocks)
    (hbelow : sys.EquilibriaBelow c) (hbounded : sys.Bounded c)
    (henv : sys.AnswersPages models c history env)
    {t : Thread (sys.contextJoiner c env).toBaseJoiner}
    (hrest : (sys.contextJoiner c env).atRest t.joiner) (hgood : GoodRequest k1 k2)
    (hcounter : t.queryCounter + (sys.streamedInputs models c).length + 1 < 2 ^ 24) :
    ∃ t', (∃ N, ∀ fuel ≥ N, (sys.normalContext c).streamRequest
        (sys.contextJoiner c env).toBaseJoiner history parent fuel k1 k2 t =
          .ok (page k1 k2 (models c), t')) ∧
      (sys.contextJoiner c env).atRest t'.joiner ∧
        t'.queryCounter ≤ t.queryCounter + (sys.streamedInputs models c).length + 1 := by
  have hstarts := henv.starts hbounded hmodels (hbelow.models_ne_nil h hall hmodels) t.joiner hrest
  obtain ⟨t', hrun, hrest', hle⟩ := exists_streamRequest (sys.normalContext c) parent
    (lt_of_lt_of_le hc sys.noBlocks_le) rfl rfl hgood hstarts hcounter
  have hlist : (sys.streamedInputs models c).flatMap ((sys.normalContext c).answerModels
      sys.interface) = models c := congrFun hmodels c
  rw [hlist] at hrun
  exact ⟨t', hrun, hrest', hle⟩

/-- Every request is answered. -/
lemma exists_streams (hc : c < bso.noBlocks)
    (hhistory : ∀ x ∈ history, Relation.TransGen sys.Imports x c) (hadm : Admissible k1 k2)
    (hk2 : k2 + 1 < 2 ^ 64) (hbelow : sys.EquilibriaBelow c) (hbounded : sys.Bounded c) :
    sys.Streams history parent c k1 k2 (page k1 k2 (models c)) := by
  refine History.induction (Finset.range bso.noBlocks)
    (motive := fun history c => (∀ x ∈ history, Relation.TransGen sys.Imports x c) →
      sys.EquilibriaBelow c → sys.Bounded c → ∀ parent k1 k2, Admissible k1 k2 →
        k2 + 1 < 2 ^ 64 → sys.Streams history parent c k1 k2 (page k1 k2 (models c))) ?_ history
    (Finset.mem_range.mpr hc) hhistory hbelow hbounded parent k1 k2 hadm hk2
  intro history c hc ih hhistory hbelow hbounded parent k1 k2 hadm hk2
  have hnot : c ∉ history := fun hmem => h c (hhistory c hmem)
  have henv : sys.AnswersPages models c (insert c history) (pageEnvironment models) :=
    fun _ _ _ _ _ _ _ => rfl
  have hinit := atRest_init sys c (pageEnvironment models)
  have hroom := hbounded.inputs_lt models hmodels c .refl
  obtain ⟨t', hrun, -, hle⟩ := exists_streamRequest_page parent h hall hmodels
    (Finset.mem_range.mp hc) hbelow hbounded henv
    (t := ⟨(sys.contextJoiner c (pageEnvironment models)).init, 0, .init⟩) hinit
    ((goodRequest_iff hadm (by omega)).mpr hk2) (by simpa using hroom)
  refine .normal hnot (pageEnvironment models) (fun time nb hnb message _ hadm hk2 => ?_) hinit
    hrun ?_
  · have hcd := (mem_neighborIds.mp hnb).2
    exact ih hnot nb.neighborId (Finset.mem_range.mpr hcd.lt) (above_insert hhistory hcd)
      (hbelow.of_imports hcd) (hbounded.of_imports hcd) c _ _ hadm hk2
  · simp only at hle
    omega

/-- A thread answers the messages it takes, one after the other, with their pages. -/
lemma startup_pages {env : Environment bso} (hc : c < bso.noBlocks)
    (hbelow : sys.EquilibriaBelow c) (hbounded : sys.Bounded c) (ms : List RequestMessage)
    (hms : ∀ m ∈ ms, GoodRequest m.k1 m.k2 ∧ c ∉ m.history ∧
      sys.AnswersPages models c (insert c m.history) env)
    (t : Thread (sys.contextJoiner c env).toBaseJoiner)
    (hrest : (sys.contextJoiner c env).atRest t.joiner)
    (hcounter : t.queryCounter + ms.length * ((sys.streamedInputs models c).length + 1) < 2 ^ 24) :
    ∃ t', ∃ N, ∀ fuel ≥ N,
      (sys.normalContext c).startup (sys.contextJoiner c env).toBaseJoiner fuel ms t =
        .ok (ms.map (fun m => (page m.k1 m.k2 (models c)).map some ++ [none]), t') := by
  induction ms generalizing t with
  | nil => exact ⟨t, 0, fun _ _ => rfl⟩
  | cons m ms ih =>
      obtain ⟨hgood, hnot, henv⟩ := hms m List.mem_cons_self
      rw [List.length_cons, Nat.succ_mul] at hcounter
      obtain ⟨t₁, ⟨N, hrun⟩, hrest₁, hle⟩ := exists_streamRequest_page m.parent h hall hmodels
        hc hbelow hbounded henv hrest hgood (by omega)
      obtain ⟨t', N', hN'⟩ := ih (fun m hm => hms m (List.mem_cons_of_mem _ hm)) t₁ hrest₁
        (by omega)
      refine ⟨t', max N N', fun fuel hfuel => ?_⟩
      have haccepted : ¬ (¬ GoodRequest m.k1 m.k2 ∨ (sys.normalContext c).ctxId ∈ m.history) :=
        not_or.mpr ⟨not_not.mpr hgood, hnot⟩
      rw [startup, if_neg haccepted]
      have hfirst := hrun fuel (by omega)
      simp only [show (sys.normalContext c).ctxId = c from rfl, hfirst]
      rw [hN' fuel (by omega)]
      rfl

end Acyclic

/-! ## The equilibria, page by page -/

/-- In an acyclic system with return plans that keep all bits, the equilibria of a context can be
listed such that every request is answered with its page of the list, and with nothing else:
whatever the pack sizes, the order of arrival at each joiner and the requests the threads served
before.  A thread at rest comes back with it as long as its query counter has room for one query per
input. -/
theorem streams_pages [sys.StrictAddresses] (h : sys.Acyclic) (hall : ∀ i < bso.width,
    sys.interface.status_bit.getLsbD i = true ∧ sys.interface.value_bit.getLsbD i = true)
    (hr : r < bso.noBlocks) (hbelow : sys.EquilibriaBelow r) (hbounded : sys.Bounded r) :
    ∃ models, sys.streamedModels models = models ∧ (∀ S, S ∈ models r ↔ sys.IsEquilibrium r S) ∧
      ∀ parent k1 k2, Admissible k1 k2 → k2 + 1 < 2 ^ 64 →
        sys.Streams ∅ parent r k1 k2 (page k1 k2 (models r)) ∧
          (∀ sent, sys.Streams ∅ parent r k1 k2 sent → sent = page k1 k2 (models r)) ∧
            ∀ env : Environment bso, sys.StreamsBelow r {r} env →
              ∀ t : Thread (sys.contextJoiner r env).toBaseJoiner,
                (sys.contextJoiner r env).atRest t.joiner →
                t.queryCounter + (sys.streamedInputs models r).length + 1 < 2 ^ 24 →
                  ∃ t', (∃ N, ∀ fuel ≥ N, (sys.normalContext r).streamRequest
                      (sys.contextJoiner r env).toBaseJoiner {r} parent fuel k1 k2 t =
                        .ok (page k1 k2 (models r), t')) ∧
                    (sys.contextJoiner r env).atRest t'.joiner := by
  obtain ⟨models, hmodels⟩ := exists_models h
  refine ⟨models, hmodels, fun S => mem_models_iff h hall hmodels hr, ?_⟩
  intro parent k1 k2 hadm hk2
  refine ⟨exists_streams h hall hmodels hr (by simp) hadm hk2 hbelow hbounded, fun sent hsent => ?_,
    fun env henv t hrest hcounter => ?_⟩
  · exact hsent.eq_page h hall hmodels hr (by simp) hbelow hbounded
  · have hpages : sys.AnswersPages models r {r} env :=
      StreamsBelow.answersPages h hall hmodels
      (show sys.StreamsBelow r (insert r ∅) env from henv) hbelow hbounded (by simp)
    obtain ⟨t', hrun, hrest', -⟩ := exists_streamRequest_page parent h hall hmodels hr hbelow
      hbounded hpages hrest ((goodRequest_iff hadm (by omega)).mpr hk2) hcounter
    exact ⟨t', hrun, hrest'⟩

/-- From start-up on, the thread of a context answers the good requests it takes with pages of its
equilibria, as long as its query counter has room for one query per input and request. -/
theorem startup_sends_pages [sys.StrictAddresses] (h : sys.Acyclic) (hall : ∀ i < bso.width,
    sys.interface.status_bit.getLsbD i = true ∧ sys.interface.value_bit.getLsbD i = true)
    (hr : r < bso.noBlocks) (hbelow : sys.EquilibriaBelow r) (hbounded : sys.Bounded r) :
    ∃ models, sys.streamedModels models = models ∧ (∀ S, S ∈ models r ↔ sys.IsEquilibrium r S) ∧
      ∀ (env : Environment bso) (ms : List RequestMessage),
        (∀ m ∈ ms, GoodRequest m.k1 m.k2 ∧ (∀ x ∈ m.history, Relation.TransGen sys.Imports x r) ∧
          sys.StreamsBelow r (insert r m.history) env) →
        ms.length * ((sys.streamedInputs models r).length + 1) < 2 ^ 24 →
          ∃ t', ∃ N, ∀ fuel ≥ N, (sys.normalContext r).startup
            (sys.contextJoiner r env).toBaseJoiner fuel ms
              ⟨(sys.contextJoiner r env).init, 0, .init⟩ =
                .ok (ms.map (fun m => (page m.k1 m.k2 (models r)).map some ++ [none]), t') := by
  obtain ⟨models, hmodels⟩ := exists_models h
  refine ⟨models, hmodels, fun S => mem_models_iff h hall hmodels hr, ?_⟩
  intro env ms hms hcounter
  refine startup_pages h hall hmodels hr hbelow hbounded ms (fun m hm => ?_) _
    (atRest_init sys r env) (by simpa using hcounter)
  obtain ⟨hgood, hhistory, henv⟩ := hms m hm
  exact ⟨hgood, fun hmem => h r (hhistory r hmem),
    henv.answersPages h hall hmodels hbelow hbounded hhistory⟩

/-! ## A chain -/

/-- A system whose joiners all have the same pack size. -/
def withPacks (sys : System bso) (packSize : ℕ) (hsize : packSize < 2 ^ 64)
    (hfew : bso.noBlocks ≤ 2 ^ 10) : StreamingSystem bso where
  toSystem := sys
  joiner := fun c hne =>
    sys.placedJoiner c packSize hsize hne ((length_neighborIds_le sys c).trans hfew)
  joiner_neighbors := fun c _ => sys.neighborIds_placedNeighbors c
  noBlocks_le := hfew

/-- Context `0` believes what context `1` believes, and context `1` may believe it or not. -/
def chain : System twoBlocks :=
  ofRules [1] [firstBelief 0 1 false]
    (fun c heads =>
      if c = 1 then [fun _ => true, fun _ => false]
      else [fun _ => decide (twoBlocks.startingOffset c + 1 ∈ heads)])
    ⟨BitVec.allOnes _, BitVec.allOnes _⟩ (by decide) (by decide)

/-- The chain, joined one state at a time. -/
def chainSystem : StreamingSystem twoBlocks := withPacks chain 1 one_lt_word (by decide)

instance : chain.StrictAddresses := strictAddresses_ofRules (by decide)

instance : chainSystem.StrictAddresses := inferInstanceAs chain.StrictAddresses

lemma chain_imports {c d : ℕ} (h : chain.Imports c d) : c = 0 ∧ d = 1 := by
  obtain ⟨r, hr, rfl, l, hl, rfl⟩ := exists_rule_of_imports h
  rw [List.mem_singleton.mp hr] at hl ⊢
  rw [List.mem_singleton.mp hl]
  exact ⟨rfl, rfl⟩

lemma chain_acyclic : chainSystem.Acyclic := by
  intro c hc
  obtain ⟨d, hcd, hrest⟩ := Relation.TransGen.head'_iff.mp hc
  obtain ⟨rfl, rfl⟩ := chain_imports hcd
  rcases Relation.ReflTransGen.cases_head hrest with h | ⟨e, he, -⟩
  · cases h
  · cases (chain_imports he).1

lemma chain_interface : ∀ i < twoBlocks.width,
    chainSystem.interface.status_bit.getLsbD i = true ∧
      chainSystem.interface.value_bit.getLsbD i = true := by
  intro i hi
  have hbit : (BitVec.allOnes twoBlocks.width).getLsbD i = true := by simp [hi]
  exact ⟨hbit, hbit⟩

lemma chain_equilibrium {c : ℕ} (hc : c < twoBlocks.noBlocks) :
    ∃ E, chainSystem.IsEquilibrium c E := by
  refine chain_acyclic.exists_equilibrium (fun d hd heads _ => ?_)
  have hd' : d < twoBlocks.noBlocks := Reaches.lt hc hd
  show (if d < twoBlocks.noBlocks then _ else _) ≠ []
  rw [if_pos hd', ne_eq, List.map_eq_nil_iff]
  beta_reduce
  split <;> simp

lemma chain_equilibriaBelow : chainSystem.EquilibriaBelow 0 := by
  intro d hd
  obtain ⟨e, -, hed⟩ := Relation.TransGen.tail'_iff.mp hd
  exact chain_equilibrium hed.lt

section Chain

variable {models : ℕ → List (NewBeliefState twoBlocks.width)}
  (hmodels : chainSystem.streamedModels models = models)

include hmodels

lemma chain_models_length : (models 1).length = 2 := by
  have hleaf : chainSystem.streamedInputs models 1 = [NewBeliefState.empty _] := dif_pos rfl
  rw [← hmodels, streamedModels, hleaf]
  decide +kernel

lemma chain_inputs_length {d : ℕ} (hd : chainSystem.Reaches 0 d) :
    (chainSystem.streamedInputs models d).length ≤ 2 := by
  rcases Relation.ReflTransGen.cases_head hd with rfl | ⟨e, he, hrest⟩
  · have hperm : (chainSystem.streamedInputs models 0).Perm
        ((product [models 1]).filterMap joinOne) := handedOut_perm 1 [models 1]
    have hproduct : (product [models 1]).length = 2 := by
      simp only [product, List.map_cons, List.map_nil, List.length_flatMap, List.length_cons,
        List.length_nil, List.map_const', List.sum_replicate, chain_models_length hmodels]
      rfl
    rw [hperm.length_eq, ← hproduct]
    exact List.length_filterMap_le joinOne _
  · obtain ⟨-, rfl⟩ := chain_imports he
    rcases Relation.ReflTransGen.cases_head hrest with rfl | ⟨e, he, -⟩
    · have hleaf : chainSystem.streamedInputs models 1 = [NewBeliefState.empty _] := dif_pos rfl
      rw [hleaf]
      exact Nat.le_succ 1
    · cases (chain_imports he).1

end Chain

lemma chain_bounded : chainSystem.Bounded 0 := by
  refine ⟨fun c hne _ => ?_, fun models hmodels c hne _ d hd => ?_, fun models hmodels c hc => ?_⟩
  · have hlen := congrArg List.length (chainSystem.joiner_neighbors c hne)
    have hle : (chain.neighborIds c).length ≤ 2 := length_neighborIds_le chain c
    rw [List.length_map] at hlen
    have hsame : (chainSystem.neighborIds c).length = (chain.neighborIds c).length := rfl
    omega
  · obtain ⟨rfl, rfl⟩ := chain_imports (mem_neighborIds.mp hd).2
    rw [chain_models_length hmodels]
    show 2 + 2 * 1 < 2 ^ 64
    norm_num
  · have := chain_inputs_length hmodels hc
    omega

/-- Every request to the chain is answered. -/
lemma chain_streams {models : ℕ → List (NewBeliefState twoBlocks.width)}
    (hmodels : chainSystem.streamedModels models = models) {history : Finset ℕ} {c : ℕ}
    (hc : chainSystem.Imports 0 c) (hhistory : ∀ x ∈ history,
      Relation.TransGen chainSystem.Imports x c) {k1 k2 : ℕ} (hadm : Admissible k1 k2)
    (hk2 : k2 + 1 < 2 ^ 64) (parent : ℕ) :
    chainSystem.Streams history parent c k1 k2 (page k1 k2 (models c)) :=
  exists_streams chain_acyclic chain_interface hmodels hc.lt hhistory hadm hk2
    (chain_equilibriaBelow.of_imports hc) (chain_bounded.of_imports hc)

/-- The first equilibrium of the chain. -/
theorem streams_pages_chain : ∃ L : List (NewBeliefState twoBlocks.width),
    (∀ S, S ∈ L ↔ chain.IsEquilibrium 0 S) ∧ chainSystem.Streams ∅ 1023 0 1 1 (page 1 1 L) ∧
      ∀ sent, chainSystem.Streams ∅ 1023 0 1 1 sent → sent = page 1 1 L := by
  obtain ⟨models, -, hmem, hpages⟩ := streams_pages chain_acyclic chain_interface (by decide)
    chain_equilibriaBelow chain_bounded
  obtain ⟨hsent, hall, -⟩ := hpages 1023 1 1 (by decide) (by norm_num)
  exact ⟨models 0, hmem, hsent, hall⟩

/-- The first two equilibria of the chain, one after the other. -/
theorem startup_sends_pages_chain : ∃ models : ℕ → List (NewBeliefState twoBlocks.width),
    (∀ S, S ∈ models 0 ↔ chain.IsEquilibrium 0 S) ∧
      ∃ t', ∃ N, ∀ fuel ≥ N, (chainSystem.normalContext 0).startup
        (chainSystem.contextJoiner 0 (pageEnvironment models)).toBaseJoiner fuel
          [⟨∅, 1023, 1, 1⟩, ⟨∅, 1023, 2, 2⟩]
            ⟨(chainSystem.contextJoiner 0 (pageEnvironment models)).init, 0, .init⟩ =
              .ok ([(page 1 1 (models 0)).map some ++ [none],
                (page 2 2 (models 0)).map some ++ [none]], t') := by
  obtain ⟨models, hmodels, hmem, hrun⟩ := startup_sends_pages chain_acyclic
    chain_interface (by decide) chain_equilibriaBelow chain_bounded
  refine ⟨models, hmem, hrun (pageEnvironment models) [⟨∅, 1023, 1, 1⟩, ⟨∅, 1023, 2, 2⟩] ?_ ?_⟩
  · intro m hm
    have hhistory : m.history = ∅ := by
      rcases List.mem_pair.mp hm with rfl | rfl <;> rfl
    refine ⟨?_, by simp [hhistory], ?_⟩
    · rcases List.mem_pair.mp hm with rfl | rfl <;> decide
    · intro time nb hnb message _ hadm hk2
      have himports := (mem_neighborIds.mp hnb).2
      rw [hhistory]
      exact chain_streams hmodels himports (above_insert (by simp) himports) hadm hk2 0
  · have := chain_inputs_length hmodels .refl
    simp only [List.length_cons, List.length_nil]
    omega

end StreamingSystem

end Dmcs
