import Mathlib.Data.Set.Card
import Dmcs.Mcs.StreamedSystem
import Dmcs.Network.NewDmcsc

/-!
# The client of a running system

In an acyclic system whose return plans keep all bits a state can be taken apart again: the block of
the context is the local state, and the blocks below a neighbour are the state the neighbour sent.
So no context sends a state twice when no evaluator does, and then the client's count of its answers
is right: it ends with as many equilibria as it wants, or with all there are.

## The argument

The client counts distinct answers and compares with what it wants, so it is right on lists without
repetition (`NewDmcsc`).  A context would send a state twice if its evaluator accepted a local state
twice for the same heads, or if two joined inputs were the same.  The second cannot happen when the
neighbours send no state twice: a joined input determines the states it was joined from.
`streams_nodup` is the induction over the system.

`client_finds_equilibria` puts the client on top, over a server that answers every admissible
request with its page.
-/

namespace Dmcs

open NewBeliefState Odometer Paging

variable {bso : BeliefStateOffset}

namespace System

variable {sys : System bso} {c d r : ℕ} {E E' S T u : NewBeliefState bso.width}

/-! ## Equilibria as joins -/

lemma IsEquilibrium.isEpsilon (h : sys.IsEquilibrium r E) (hc : sys.Reaches r c) :
    E.isEpsilon bso c = false :=
  isEpsilon_eq_false.mpr (h.wellFormed.value_le _ (epsilon_of_accepted (h.accepted c hc)))

lemma IsEquilibrium.reaches_of_isEpsilon (h : sys.IsEquilibrium r E)
    (hc : E.isEpsilon bso c = false) : sys.Reaches r c := by
  have hreach := h.defined _ (Or.inl (isEpsilon_eq_false.mp hc))
  rwa [bso.blockOf_startingOffset] at hreach

/-- An equilibrium is determined by its blocks. -/
lemma IsEquilibrium.eq_of_blockEq (h : sys.IsEquilibrium r E) (h' : sys.IsEquilibrium r E')
    (hblocks : ∀ c, sys.Reaches r c → BlockEq c E E') : E = E' := by
  have hbits : ∀ i, E.status_bit.getLsbD i = E'.status_bit.getLsbD i ∧
      E.value_bit.getLsbD i = E'.value_bit.getLsbD i := by
    intro i
    by_cases hi : sys.Reaches r (bso.blockOf i)
    · exact hblocks _ hi i rfl
    · have hE := mt (h.defined i) hi
      have hE' := mt (h'.defined i) hi
      rw [not_or, Bool.not_eq_true, Bool.not_eq_true] at hE hE'
      rw [hE.1, hE.2, hE'.1, hE'.2]
      exact ⟨rfl, rfl⟩
  exact ext_bits (fun i => (hbits i).1) (fun i => (hbits i).2)

end System

namespace StreamingSystem

open Dmcs.System

variable {sys : StreamingSystem bso} {c d r parent k1 k2 : ℕ} {S T u : NewBeliefState bso.width}
  {models : ℕ → List (NewBeliefState bso.width)}

/-! ## No state twice -/

/-- No evaluator lists a local state twice. -/
def EvaluatorsDistinct (sys : StreamingSystem bso) : Prop := ∀ c heads, (sys.acc c heads).Nodup

lemma nodup_product {α : Type*} {Ls : List (List α)} (h : ∀ L ∈ Ls, L.Nodup) :
    (product Ls).Nodup := by
  induction Ls with
  | nil => exact List.nodup_singleton _
  | cons L Ls ih =>
      rw [product, List.nodup_flatMap]
      refine ⟨fun x _ => ?_, (h L List.mem_cons_self).imp (fun {x y} hxy => ?_)⟩
      · exact (ih (fun L hL => h L (List.mem_cons_of_mem _ hL))).map (List.cons_injective)
      · intro xs hx hy
        obtain ⟨_, _, rfl⟩ := List.mem_map.mp hx
        obtain ⟨_, _, heq⟩ := List.mem_map.mp hy
        exact hxy (List.cons.inj heq).1.symm

/-- The input has no bit in the block of its context. -/
def Foreign (c : ℕ) (T : NewBeliefState bso.width) : Prop :=
  ∀ i, bso.blockOf i = c → T.status_bit.getLsbD i = false ∧ T.value_bit.getLsbD i = false

/-- The input, and with it the local state, can be read off what a context makes of them. -/
lemma union_injective {H H' : Finset ℕ} {m m' T' : NewBeliefState bso.width}
    (hm : m ∈ sys.acc c H) (hm' : m' ∈ sys.acc c H') (hT : Foreign c T) (hT' : Foreign c T')
    (h : m.union T = m'.union T') : m = m' ∧ T = T' := by
  have hstatus := fun i => congrArg (fun s => s.status_bit.getLsbD i) h
  have hvalue := fun i => congrArg (fun s => s.value_bit.getLsbD i) h
  simp only [union_status, union_value] at hstatus hvalue
  have houtside : ∀ {H : Finset ℕ} {m : NewBeliefState bso.width}, m ∈ sys.acc c H →
      ∀ i, bso.blockOf i ≠ c → m.status_bit.getLsbD i = false ∧ m.value_bit.getLsbD i = false := by
    intro H m hm i hi
    have hs : m.status_bit.getLsbD i = false := by
      rw [Bool.eq_false_iff]
      exact fun hs => hi (blockOf_of_mem_localBits ((acc_status hm).mp hs))
    exact ⟨hs, (acc_wellFormed hm).value_eq_false hs⟩
  constructor
  · refine ext_bits (fun i => ?_) (fun i => ?_)
    · by_cases hi : bso.blockOf i = c
      · simpa [(hT i hi).1, (hT' i hi).1] using hstatus i
      · rw [(houtside hm i hi).1, (houtside hm' i hi).1]
    · by_cases hi : bso.blockOf i = c
      · simpa [(hT i hi).2, (hT' i hi).2] using hvalue i
      · rw [(houtside hm i hi).2, (houtside hm' i hi).2]
  · refine ext_bits (fun i => ?_) (fun i => ?_)
    · by_cases hi : bso.blockOf i = c
      · rw [(hT i hi).1, (hT' i hi).1]
      · simpa [(houtside hm i hi).1, (houtside hm' i hi).1] using hstatus i
    · by_cases hi : bso.blockOf i = c
      · rw [(hT i hi).2, (hT' i hi).2]
      · simpa [(houtside hm i hi).2, (houtside hm' i hi).2] using hvalue i

lemma nodup_linesModels {H : Finset ℕ} {ms : List (NewBeliefState bso.width)}
    (hms : ∀ m ∈ ms, m ∈ sys.acc c H) (hnodup : ms.Nodup) (hT : Foreign c T) :
    (DLVEvaluator.linesModels c T (ms.map OutputLine.answerSet)).Nodup := by
  induction ms with
  | nil => exact List.nodup_nil
  | cons m ms ih =>
      obtain ⟨hnot, hnodup⟩ := List.nodup_cons.mp hnodup
      have hrest := ih (fun m hm => hms m (List.mem_cons_of_mem _ hm)) hnodup
      rw [List.map_cons, DLVEvaluator.linesModels]
      split
      · refine List.nodup_cons.mpr ⟨fun hmem => ?_, hrest⟩
        obtain ⟨m', hm', -, heq⟩ := (mem_linesModels T ms).mp hmem
        have hinj := union_injective (hms m List.mem_cons_self)
          (hms m' (List.mem_cons_of_mem _ hm')) hT hT heq
        exact hnot (hinj.1 ▸ hm')
      · exact hrest

section Acyclic

variable [sys.StrictAddresses] (h : sys.Acyclic) (hall : ∀ i < bso.width,
  sys.interface.status_bit.getLsbD i = true ∧ sys.interface.value_bit.getLsbD i = true)
  (hmodels : sys.streamedModels models = models)

include h hall hmodels

/-- A tuple that the joiner tries holds one equilibrium for each neighbour, and is joined as such.
-/
lemma exists_join (hne : sys.neighborIds c ≠ []) {xs : List (NewBeliefState bso.width)}
    (hxs : xs ∈ product ((sys.neighborIds c).map models)) :
    ∃ g : ℕ → NewBeliefState bso.width, xs = (sys.neighborIds c).map g ∧
      (∀ d ∈ sys.neighborIds c, sys.IsEquilibrium d (g d)) ∧
        ∀ u, StreamingJoiner.joinOne xs = some u ↔ IsJoin xs u := by
  obtain ⟨g, rfl, hg⟩ := (mem_product_map (nodup_neighborIds sys.toSystem c)).mp hxs
  have heq : ∀ d ∈ sys.neighborIds c, sys.IsEquilibrium d (g d) :=
    fun d hd => (mem_models_iff h hall hmodels (mem_neighborIds.mp hd).2.lt).mp (hg d hd)
  refine ⟨g, rfl, heq, fun u => joinOne_eq_some_iff (by simpa using hne) (fun s hs => ?_)⟩
  obtain ⟨d, hd, rfl⟩ := List.mem_map.mp hs
  exact (heq d hd).proper

/-- The states of the neighbours can be read off their join. -/
lemma join_injective (hne : sys.neighborIds c ≠ []) {xs ys : List (NewBeliefState bso.width)}
    (hxs : xs ∈ product ((sys.neighborIds c).map models))
    (hys : ys ∈ product ((sys.neighborIds c).map models))
    (hx : StreamingJoiner.joinOne xs = some u) (hy : StreamingJoiner.joinOne ys = some u) :
    xs = ys := by
  obtain ⟨f, rfl, hf, hjoin⟩ := exists_join h hall hmodels hne hxs
  obtain ⟨g, rfl, hg, hjoin'⟩ := exists_join h hall hmodels hne hys
  refine List.map_congr_left (fun d hd => ?_)
  refine (hf d hd).eq_of_blockEq (hg d hd) (fun e he => ?_)
  have hfu := ((hjoin u).mp hx).agrees _ (List.mem_map_of_mem hd) e ((hf d hd).isEpsilon he)
  have hgu := ((hjoin' u).mp hy).agrees _ (List.mem_map_of_mem hd) e ((hg d hd).isEpsilon he)
  exact hfu.trans hgu.symm

/-- No input has a bit of the context itself. -/
lemma foreign_of_mem_streamedInputs (hT : T ∈ sys.streamedInputs models c) : Foreign c T := by
  rw [streamedInputs] at hT
  split at hT
  · rw [List.mem_singleton.mp hT]
    intro i _
    simp
  · next hne =>
      obtain ⟨xs, hxs, hx⟩ :=
        List.mem_filterMap.mp ((StreamingJoiner.handedOut_perm _ _).mem_iff.mp hT)
      obtain ⟨g, rfl, hg, hjoin⟩ := exists_join h hall hmodels hne hxs
      have hu := (hjoin T).mp hx
      have hempty : T.isEpsilon bso c = true := by
        by_contra hnot
        rw [Bool.not_eq_true] at hnot
        obtain ⟨s, hs, hsc⟩ := hu.covered c hnot
        obtain ⟨d, hd, rfl⟩ := List.mem_map.mp hs
        have hreach := (hg d hd).reaches_of_isEpsilon hsc
        exact h c (Relation.TransGen.head' (mem_neighborIds.mp hd).2 hreach)
      rintro i rfl
      exact hu.proper.bits_of_isEpsilon hempty

lemma nodup_streamedInputs (hbelow : ∀ d ∈ sys.neighborIds c, (models d).Nodup) :
    (sys.streamedInputs models c).Nodup := by
  rw [streamedInputs]
  split
  · exact List.nodup_singleton _
  · next hne =>
      have hproduct : (product ((sys.neighborIds c).map models)).Nodup := by
        refine nodup_product (fun L hL => ?_)
        obtain ⟨d, hd, rfl⟩ := List.mem_map.mp hL
        exact hbelow d hd
      rw [(StreamingJoiner.handedOut_perm _ _).nodup_iff]
      refine List.pairwise_filterMap.mpr (hproduct.imp_of_mem (fun {xs ys} hxs hys hne' => ?_))
      rintro u hx v hy rfl
      exact hne' (join_injective h hall hmodels hne hxs hys hx hy)

/-- A context that gets no input twice sends no state twice. -/
lemma nodup_models_of_below (hdistinct : sys.EvaluatorsDistinct) (hc : c < bso.noBlocks)
    (hbelow : ∀ d ∈ sys.neighborIds c, (models d).Nodup) : (models c).Nodup := by
  have hanswer : ∀ T ∈ sys.streamedInputs models c,
      (sys.newContext c).answerModels sys.interface T =
        DLVEvaluator.evaluatorModels (sys.newContext c).solver c (sys.bridgeRules c) T := by
    intro T _
    rw [NewContext.answerModels]
    simp only [inter_interface_of_all hall, List.map_id']
    rfl
  rw [← hmodels, streamedModels, List.nodup_flatMap]
  refine ⟨fun T hT => ?_, (nodup_streamedInputs h hall hmodels hbelow).imp_of_mem
    (fun {T T'} hT hT' hne => ?_)⟩
  · rw [hanswer T hT]
    exact nodup_linesModels (fun m hm => hm) (hdistinct c _)
      (foreign_of_mem_streamedInputs h hall hmodels hT)
  · intro S hS hS'
    rw [hanswer T hT] at hS
    rw [hanswer T' hT'] at hS'
    obtain ⟨m, hm, -, rfl⟩ := (mem_evaluatorModels hc T).mp hS
    obtain ⟨m', hm', -, heq⟩ := (mem_evaluatorModels hc T').mp hS'
    exact hne (union_injective hm hm' (foreign_of_mem_streamedInputs h hall hmodels hT)
      (foreign_of_mem_streamedInputs h hall hmodels hT') heq).2

/-- No context sends a state twice. -/
lemma nodup_models (hdistinct : sys.EvaluatorsDistinct) (hc : c < bso.noBlocks) :
    (models c).Nodup := by
  obtain ⟨level, hlevel⟩ := h.exists_level
  induction hn : level c using Nat.strong_induction_on generalizing c with
  | _ n ih =>
      refine nodup_models_of_below h hall hmodels hdistinct hc (fun d hd => ?_)
      have hcd := (mem_neighborIds.mp hd).2
      exact ih (level d) (hn ▸ hlevel c d hcd) hcd.lt rfl

end Acyclic

/-- The states sent for a request are different from each other. -/
theorem streams_nodup [sys.StrictAddresses] {history : Finset ℕ}
    {sent : List (NewBeliefState bso.width)}
    (h : sys.Acyclic) (hall : ∀ i < bso.width,
      sys.interface.status_bit.getLsbD i = true ∧ sys.interface.value_bit.getLsbD i = true)
    (hc : c < bso.noBlocks) (hbelow : sys.EquilibriaBelow c) (hbounded : sys.Bounded c)
    (hdistinct : sys.EvaluatorsDistinct)
    (hhistory : ∀ x ∈ history, Relation.TransGen sys.Imports x c)
    (hsent : sys.Streams history parent c k1 k2 sent) : sent.Nodup := by
  obtain ⟨models, hmodels⟩ := exists_models h
  have hnodup := nodup_models h hall hmodels hdistinct hc
  rw [hsent.eq_page h hall hmodels hc hhistory hbelow hbounded, page]
  split
  · exact hnodup
  · exact hnodup.sublist ((List.drop_sublist _ _).trans (List.take_sublist _ _))

/-! ## The client -/

section Reading

open BlockReading NewDmcsc

variable {α : Type*} [DecidableEq α] {want : ℕ} {l : List α}

/-- In a list without repetitions a full block ends the round. -/
lemma reads_of_le (hl : l.Nodup) (hle : want ≤ l.length) : reads want l = want := by
  by_cases hzero : (l.take want).toFinset.card = 0
  · exact reads_of_empty hzero
  · have hcard : (l.take want).toFinset.card = want := by
      rw [List.toFinset_card_of_nodup (hl.sublist (List.take_sublist _ _)), List.length_take,
        min_eq_left hle]
    rw [reads_of_found hzero, hcard, Nat.sub_self, reads_zero, Nat.add_zero]

/-- At the end of the list a round reads one more block. -/
lemma reads_of_length_lt (hl : l.Nodup) (hlt : l.length < want) (hne : l ≠ []) :
    reads want l = want + (want - l.length) := by
  have hcard : (l.take want).toFinset.card = l.length := by
    rw [List.take_of_length_le hlt.le, List.toFinset_card_of_nodup hl]
  have hpos := List.length_pos_iff.mpr hne
  rw [reads_of_found (by omega), hcard, List.drop_of_length_le hlt.le, reads_of_empty (by simp)]

/-- Over a list without repetitions the client stops after one round, or after two when the first
has seen the end of the list.  It reads up to one range behind what it wants. -/
lemma rounds_of_nodup (hl : l.Nodup) (hwant : 0 < want) :
    ∃ j, (∀ i ≤ j, (rounds want l i).start +
        reads (rounds want l i).size (l.drop (rounds want l i).start) ≤ 2 * want) ∧
      (∀ i < j, Continues want l i) ∧ ¬ Continues want l j ∧
        seen want l j = min want l.toFinset.card := by
  have hcard : l.toFinset.card = l.length := List.toFinset_card_of_nodup hl
  have hzero : ∀ i ≤ 0, i = 0 := fun i hi => Nat.le_zero.mp hi
  -- the list ends within the first range, or it fills this range
  rcases Nat.lt_or_ge l.length want with hlt | hge
  · by_cases hne : l = []
    · have hfirst : seen want l 0 = want ∨ l = [] := Or.inr hne
      obtain ⟨hstop, hseen⟩ := seen_eq_min_of_first hfirst
      refine ⟨0, fun i hi => ?_, fun i hi => absurd hi (Nat.not_lt_zero i), hstop, hseen⟩
      rw [hzero i hi, rounds, hne, List.drop_nil, reads_of_empty (by simp)]
      simp only
      omega
    · have hpos := List.length_pos_iff.mpr hne
      have hreads := reads_of_length_lt hl hlt hne
      have hfirst : seen want l 0 = l.length := by
        rw [seen, rounds]
        simp only
        rw [List.take_of_length_le (by omega), hcard]
      have hsecond : seen want l 1 = l.length := by
        have hmono := seen_mono want l (Nat.zero_le 1)
        have hle := seen_le want l 1
        omega
      refine ⟨1, fun i hi => ?_, fun i hi => ?_, ?_, ?_⟩
      · rcases Nat.le_one_iff_eq_zero_or_eq_one.mp hi with rfl | rfl
        · rw [rounds, List.drop_zero, hreads]
          simp only
          omega
        · rw [rounds, Round.next]
          simp only
          rw [show (l.take (rounds want l 0).covered).toFinset.card = l.length from hfirst, rounds]
          simp only [Nat.zero_add]
          rw [List.drop_of_length_le hlt.le, reads_of_empty (by simp)]
          omega
      · rw [Nat.lt_one_iff.mp hi]
        refine ⟨?_, hfirst ▸ hlt⟩
        show 0 < seen want l 0
        omega
      · rintro ⟨hdiff, -⟩
        have hsub : 0 < seen want l 1 - seen want l 0 := hdiff
        omega
      · rw [hsecond, hcard, min_eq_right hlt.le]
  · have hreads := reads_of_le hl hge
    have hfirst : seen want l 0 = want := by
      rw [seen, rounds]
      simp only
      rw [hreads, List.toFinset_card_of_nodup (hl.sublist (List.take_sublist _ _)),
        List.length_take, min_eq_left hge]
    obtain ⟨hstop, hseen⟩ := seen_eq_min_of_first (Or.inl hfirst)
    refine ⟨0, fun i hi => ?_, fun i hi => absurd hi (Nat.not_lt_zero i), hstop, hseen⟩
    rw [hzero i hi, rounds, List.drop_zero, hreads]
    simp only
    omega

/-- Pages of a list without repetitions. -/
lemma serves_page {L : List α} (hL : L.Nodup) : Serves (fun k1 k2 => page k1 k2 L) L := by
  have hpage : ∀ a b, 1 ≤ a → a ≤ b → page a b L = (L.drop (a - 1)).take (b - a + 1) := by
    intro a b ha hab
    rw [page_pos ha, List.drop_take]
    congr 1
    omega
  refine ⟨fun a b ha hab => ?_, fun a b ha hab => by rw [hpage a b ha hab]⟩
  rw [hpage a b ha hab]
  exact hL.sublist ((List.take_sublist _ _).trans (List.drop_sublist _ _))

/-- The client of a server that answers the ranges below the largest `size_t` with pages of a list
without repetitions: it ends after valid requests, with what it wants of the list. -/
lemma finds_of_pages {server : ℕ → ℕ → List α} {L : List α} {k1 k2 : ℕ} (hL : L.Nodup)
    (hserver : ∀ a b, Admissible a b → b + 1 < wordSize → server a b = page a b L)
    (hk1 : 1 ≤ k1) (hk2 : k1 ≤ k2) (hword : k1 - 1 + 2 * (k2 - k1 + 1) + 1 < wordSize) :
    ∃ n c, (step server true)^[n] (Client.init k1 k2) = c ∧ c.phase = .done ∧
      (∀ x ∈ c.finalResult, x ∈ L) ∧
        c.finalResult.card = min (k2 - k1 + 1) (L.length - (k1 - 1)) := by
  have hdrop : (L.drop (k1 - 1)).Nodup := hL.sublist (List.drop_sublist _ _)
  obtain ⟨j, hbound, hcont, hstop, hseen⟩ := rounds_of_nodup hdrop (by omega : 0 < k2 - k1 + 1)
  have hin : ∀ i ≤ j, (rounds (k2 - k1 + 1) (L.drop (k1 - 1)) i).InWord k1 (L.drop (k1 - 1)) := by
    intro i hi
    have := hbound i hi
    rw [Round.InWord]
    omega
  obtain ⟨n, c, hrun, hdone, hfinal, hvalid, hends⟩ :=
    reaches_done (serves_page hL) hk1 hk2 (by omega) rfl rfl hin hcont hstop
  have hsame : ∀ r ∈ c.requests, server r.k1 r.k2 = page r.k1 r.k2 L := by
    intro r hr
    obtain ⟨h1, h2⟩ := hvalid r hr
    obtain ⟨i, hi, hle⟩ := hends r hr
    have := hbound i hi
    exact hserver r.k1 r.k2 (Or.inr ⟨h1, h2⟩) (by omega)
  refine ⟨n, c, iterate_congr (fun _ => List.mem_singleton_self _) hrun hsame, hdone,
    fun x hx => ?_, ?_⟩
  · rw [hfinal, List.mem_toFinset] at hx
    exact List.mem_of_mem_drop (List.mem_of_mem_take hx)
  · rw [hfinal]
    refine hseen.trans ?_
    rw [List.toFinset_card_of_nodup hdrop, List.length_drop]

end Reading

variable (parent) in
/-- The client of an acyclic system whose evaluators list no local state twice: when it asks for the
equilibria from number `k1` to number `k2`, its good requests are answered, it ends without a failed
assertion, and it has found different equilibria, as many as there are in the range. -/
theorem client_finds_equilibria [sys.StrictAddresses] (h : sys.Acyclic) (hall : ∀ i < bso.width,
    sys.interface.status_bit.getLsbD i = true ∧ sys.interface.value_bit.getLsbD i = true)
    (hr : r < bso.noBlocks) (hbelow : sys.EquilibriaBelow r) (hbounded : sys.Bounded r)
    (hdistinct : sys.EvaluatorsDistinct) (hk1 : 1 ≤ k1) (hk2 : k1 ≤ k2)
    (hword : k1 - 1 + 2 * (k2 - k1 + 1) + 1 < NewDmcsc.wordSize) :
    (∃ server : ℕ → ℕ → List (NewBeliefState bso.width), ∀ a b, Admissible a b →
      b + 1 < NewDmcsc.wordSize → sys.Streams ∅ parent r a b (server a b)) ∧
    ∀ server : ℕ → ℕ → List (NewBeliefState bso.width),
      (∀ a b, Admissible a b → b + 1 < NewDmcsc.wordSize →
        sys.Streams ∅ parent r a b (server a b)) →
      ∃ n c, (NewDmcsc.step server true)^[n] (NewDmcsc.Client.init k1 k2) = c ∧
        c.phase = .done ∧ (∀ E ∈ c.finalResult, sys.IsEquilibrium r E) ∧
          c.finalResult.card =
            min (k2 - k1 + 1) ({E | sys.IsEquilibrium r E}.ncard - (k1 - 1)) := by
  obtain ⟨models, hmodels⟩ := exists_models h
  have hnodup := nodup_models h hall hmodels hdistinct hr
  have hmem := fun E => mem_models_iff (S := E) h hall hmodels hr
  refine ⟨⟨fun a b => page a b (models r), fun a b hadm hb => ?_⟩, fun server hserver => ?_⟩
  · exact exists_streams h hall hmodels hr (by simp) hadm hb hbelow hbounded
  · obtain ⟨n, c, hrun, hdone, hfound, hcard⟩ := finds_of_pages hnodup
      (fun a b hadm hb => (hserver a b hadm hb).eq_page h hall hmodels hr (by simp) hbelow hbounded)
      hk1 hk2 hword
    have hset : {E | sys.IsEquilibrium r E} = ↑(models r).toFinset := by
      ext E
      rw [Finset.mem_coe, List.mem_toFinset]
      exact (hmem E).symm
    refine ⟨n, c, hrun, hdone, fun E hE => (hmem E).mp (hfound E hE), ?_⟩
    rw [hcard, hset, Set.ncard_coe_finset, List.toFinset_card_of_nodup hnodup]

lemma chain_evaluatorsDistinct : chainSystem.EvaluatorsDistinct := by
  intro c heads
  show List.Nodup (if c < StreamingJoiner.twoBlocks.noBlocks then _ else _)
  by_cases hc : c < StreamingJoiner.twoBlocks.noBlocks
  · rw [if_pos hc]
    by_cases hone : c = 1
    · subst hone
      exact (by decide : (List.map (localState StreamingJoiner.twoBlocks 1 [1])
        [fun _ => true, fun _ => false]).Nodup)
    · simp [hone]
  · rw [if_neg hc]
    exact List.nodup_nil

/-- The first two equilibria of the chain are different. -/
theorem streams_nodup_chain : ∃ sent : List (NewBeliefState StreamingJoiner.twoBlocks.width),
    chainSystem.Streams ∅ 1023 0 1 2 sent ∧ sent.Nodup := by
  obtain ⟨models, hmodels⟩ := exists_models chain_acyclic
  have hsent : chainSystem.Streams ∅ 1023 0 1 2 (page 1 2 (models 0)) :=
    exists_streams chain_acyclic chain_interface hmodels (by decide) (by simp) (by decide)
      (by norm_num) chain_equilibriaBelow chain_bounded
  exact ⟨_, hsent, streams_nodup chain_acyclic chain_interface (by decide) chain_equilibriaBelow
    chain_bounded chain_evaluatorsDistinct (by simp) hsent⟩

/-- The client asks for two equilibria of the chain. -/
theorem client_finds_equilibria_chain :
    ∃ (server : ℕ → ℕ → List (NewBeliefState StreamingJoiner.twoBlocks.width)) (n : ℕ)
      (c : NewDmcsc.Client (NewBeliefState StreamingJoiner.twoBlocks.width)),
      (NewDmcsc.step server true)^[n] (NewDmcsc.Client.init 1 2) = c ∧ c.phase = .done ∧
        (∀ E ∈ c.finalResult, chainSystem.IsEquilibrium 0 E) ∧
          c.finalResult.card = min 2 ({E | chainSystem.IsEquilibrium 0 E}.ncard - 0) := by
  obtain ⟨⟨server, hserver⟩, hfinds⟩ := client_finds_equilibria 1023 chain_acyclic
    chain_interface (by decide) chain_equilibriaBelow chain_bounded chain_evaluatorsDistinct
    (Nat.le_refl 1) (Nat.le_succ 1) (by decide)
  exact ⟨server, hfinds server hserver⟩

end StreamingSystem

end Dmcs
