import Dmcs.Generator.RuleDraws
import Dmcs.Generator.Topologies

/-!
# The numbers of neighbors

How many neighbors the contexts of a generated topology have.  Two are the rule; a house has
contexts with three of them, a diamond with arbitrary edges contexts with four, as soon as another
part hangs from them.  Some context has only one, except in a binary tree in which every inner
context has two children.

## Both directions

`fewNeighbors` bounds the neighbors of every topology that can be generated.  The lemmas behind it
say that the bounds are reached: for a type and a number of contexts there are draws with which some
context has a single neighbor, or three or four of them.  `RandomGeneration` needs both, because the
loops of the generator get stuck on too few atoms and on too many neighbors.
-/

namespace Dmcs

open ContextGenerator (rand)
open Draws

/-- Every context lists at most `bound` contexts of the system, without repetition. -/
structure FewNeighbors (n bound : ℕ) (edges : List (ℕ × ℕ)) : Prop where
  inside : ∀ a, ∀ b ∈ neighborsOf edges a, b < n
  nodup : ∀ a, (neighborsOf edges a).Nodup
  length_le : ∀ a, (neighborsOf edges a).length ≤ bound

section Lists

variable {n bound : ℕ} {gen : ℕ → List (ℕ × ℕ)}

lemma neighborsOf_eq_nil (hgen : ∀ id, 1 ≤ id → id ≤ n → ∀ e ∈ gen id, e.1 = id - 1) {a : ℕ}
    (ha : n ≤ a) : neighborsOf (generate gen n) a = [] := by
  unfold neighborsOf
  rw [List.map_eq_nil_iff, List.filter_eq_nil_iff]
  intro e he
  obtain ⟨id, hid, he⟩ := List.mem_flatMap.1 he
  rw [List.mem_range'_1] at hid
  have hsource := hgen id hid.1 (by omega) e he
  simp only [decide_eq_true_eq]
  omega

lemma fewNeighbors_of_lists (hgen : ∀ id, 1 ≤ id → id ≤ n →
    (gen id).Nodup ∧ (∀ e ∈ gen id, e.1 = id - 1 ∧ e.2 < n) ∧ (gen id).length ≤ bound) :
    FewNeighbors n bound (generate gen n) := by
  have hsource : ∀ id, 1 ≤ id → id ≤ n → ∀ e ∈ gen id, e.1 = id - 1 :=
    fun id hpos hle e he => ((hgen id hpos hle).2.1 e he).1
  have hown : ∀ a, neighborsOf (generate gen n) a = [] ∨
      (a < n ∧ neighborsOf (generate gen n) a = (gen (a + 1)).map Prod.snd) := by
    intro a
    rcases Nat.lt_or_ge a n with ha | ha
    · exact Or.inr ⟨ha, neighborsOf_generate hsource ha⟩
    · exact Or.inl (neighborsOf_eq_nil hsource ha)
  constructor
  · intro a b hb
    rcases hown a with hnil | ⟨ha, heq⟩
    · rw [hnil] at hb
      exact absurd hb List.not_mem_nil
    · rw [heq] at hb
      obtain ⟨e, he, rfl⟩ := List.mem_map.1 hb
      exact ((hgen (a + 1) (by omega) ha).2.1 e he).2
  · intro a
    rcases hown a with hnil | ⟨ha, heq⟩
    · rw [hnil]
      exact List.nodup_nil
    · rw [heq]
      obtain ⟨hnodup, hall, -⟩ := hgen (a + 1) (by omega) ha
      apply hnodup.map_on
      intro e he e' he' hsnd
      exact Prod.ext ((hall e he).1.trans (hall e' he').1.symm) hsnd
  · intro a
    rcases hown a with hnil | ⟨ha, heq⟩
    · rw [hnil]
      exact Nat.zero_le bound
    · rw [heq, List.length_map]
      exact (hgen (a + 1) (by omega) ha).2.2

lemma fewNeighbors_of_wellFormed
    (hgen : ∀ id, 1 ≤ id → id ≤ n → WellFormedList n id (gen id))
    (hlen : ∀ id ≤ n, (gen id).length ≤ bound) : FewNeighbors n bound (generate gen n) := by
  apply fewNeighbors_of_lists
  intro id hpos hle
  obtain ⟨hnodup, hall⟩ := hgen id hpos hle
  exact ⟨hnodup, fun e he => ⟨(hall e he).1, (hall e he).2.1⟩, hlen id hle⟩

/-- No edge is generated twice. -/
lemma nodup_generate (hgen : ∀ id, 1 ≤ id → id ≤ n → WellFormedList n id (gen id)) :
    (generate gen n).Nodup := by
  unfold generate
  rw [List.nodup_flatMap]
  constructor
  · intro id hid
    rw [List.mem_range'_1] at hid
    exact (hgen id hid.1 (by omega)).1
  · apply List.Pairwise.imp_of_mem _ List.nodup_range'
    intro id id' hid hid' hne e he he'
    rw [List.mem_range'_1] at hid hid'
    have hsource := ((hgen id hid.1 (by omega)).2 e he).1
    have hsource' := ((hgen id' hid'.1 (by omega)).2 e he').1
    omega

end Lists

/-! ## At most two -/

section Upper

variable {n bound : ℕ}

lemma Diamond.length_le (id : ℕ) : (genNeighborList n id).length ≤ 2 := by
  unfold genNeighborList
  split_ifs
  · exact Nat.zero_le 2
  · exact Nat.le_refl 2
  · exact Nat.le_succ 1
  · exact Nat.le_succ 1

lemma DiamondZigZag.length_le (id : ℕ) : (genNeighborList n id).length ≤ 2 := by
  unfold genNeighborList
  split_ifs
  · exact Nat.zero_le 2
  · exact Nat.le_refl 2
  · exact Nat.le_succ 1

lemma Ring.length_eq (id : ℕ) : (genNeighborList n id).length = 1 := by
  unfold genNeighborList
  split_ifs
  · rfl
  · rfl

lemma BinaryTree.length_le (id : ℕ) : (genNeighborList n id).length ≤ 2 := by
  unfold genNeighborList
  simp only
  split_ifs
  · exact Nat.le_refl 2
  · exact Nat.le_succ 1
  · exact Nat.zero_le 2

/-- In a tree with an odd number of contexts no child is alone. -/
lemma BinaryTree.length_eq (hodd : n % 2 = 1) {id : ℕ} (hne : genNeighborList n id ≠ []) :
    (genNeighborList n id).length = 2 := by
  unfold genNeighborList at hne ⊢
  simp only at hne ⊢
  split_ifs at hne ⊢ with hleft hright
  · rfl
  · omega
  · exact absurd rfl hne

/-- The house of five has no other hanging from it. -/
lemma House.length_le (hsize : n = 5 ∨ 3 ≤ bound) (hbound : 2 ≤ bound) {id : ℕ} (hle : id ≤ n) :
    (genNeighborList n id).length ≤ bound := by
  unfold genNeighborList
  simp only
  split_ifs with hfirst hwall hroof hchild hchild
  · exact hbound
  · exact Nat.le_of_succ_le hbound
  · show 3 ≤ bound
    omega
  · exact Nat.le_of_succ_le hbound
  · show 3 ≤ bound
    omega
  · exact Nat.le_of_succ_le hbound

lemma MultipleRing.length_le (id : ℕ) : (genNeighborList n id).length ≤ 2 := by
  unfold genNeighborList
  simp only
  split_ifs
  · exact Nat.le_refl 2
  · exact Nat.le_refl 2
  · exact Nat.le_succ 1
  · exact Nat.le_succ 1
  · exact Nat.le_succ 1

lemma RingEdge.fewNeighbors {other : ℕ → Option ℕ} (hn : 2 ≤ n) (hbound : 2 ≤ bound)
    (hother : ∀ id ∈ List.range' 1 n, ∀ x ∈ other id, 1 ≤ x ∧ x ≤ n ∧ x ≠ next n id) :
    FewNeighbors n bound (generate (edgesWith n other) n) := by
  apply fewNeighbors_of_lists
  intro id hpos hle
  have hnext : 1 ≤ next n id ∧ next n id ≤ n := by
    unfold next
    split_ifs with hlast
    · omega
    · omega
  unfold edgesWith
  cases hx : other id with
  | none =>
      refine ⟨List.nodup_singleton _, ?_, Nat.le_of_succ_le hbound⟩
      intro e he
      rw [List.mem_singleton.1 he]
      exact ⟨rfl, by show next n id - 1 < n; omega⟩
  | some x =>
      obtain ⟨hxpos, hxle, hne⟩ := hother id (List.mem_range'_1.2 ⟨hpos, by omega⟩) x hx
      refine ⟨?_, ?_, hbound⟩
      · have hdiff : genNeighbor id (next n id) ≠ genNeighbor id x := by
          intro heq
          have hsnd : next n id - 1 = x - 1 := (Prod.mk.inj heq).2
          omega
        exact List.nodup_cons.2 ⟨fun hmem => hdiff (List.mem_singleton.1 hmem),
          List.nodup_singleton _⟩
      · intro e he
        rcases List.mem_cons.1 he with rfl | he
        · exact ⟨rfl, by show next n id - 1 < n; omega⟩
        · rw [List.mem_singleton.1 he]
          exact ⟨rfl, by show x - 1 < n; omega⟩

end Upper

/-! ## Diamonds with arbitrary edges -/

namespace DiamondArbitrary

/-- An edge without its direction. -/
def sortEdge (e : ℕ × ℕ) : ℕ × ℕ := (min e.1 e.2, max e.1 e.2)

variable {n bound : ℕ} {draws rest : List ℕ} {edges : List (ℕ × ℕ)}

lemma genRandomEdge_run {src dst : ℕ} (hle : src ≤ dst)
    (h : genRandomEdge src dst draws = some (edges, rest)) :
    edges.map sortEdge = [genNeighbor src dst] := by
  have hsub : src - 1 ≤ dst - 1 := Nat.sub_le_sub_right hle 1
  obtain ⟨⟨d, draws'⟩, -, h⟩ := Option.bind_eq_some_iff.1 h
  by_cases hodd : d % 2 ≠ 0
  · simp only [if_pos hodd] at h
    obtain ⟨rfl, rfl⟩ := Prod.mk.inj (Option.some.inj h)
    show [(min (src - 1) (dst - 1), max (src - 1) (dst - 1))] = [(src - 1, dst - 1)]
    rw [Nat.min_eq_left hsub, Nat.max_eq_right hsub]
  · simp only [if_neg hodd] at h
    obtain ⟨rfl, rfl⟩ := Prod.mk.inj (Option.some.inj h)
    show [(min (dst - 1) (src - 1), max (dst - 1) (src - 1))] = [(src - 1, dst - 1)]
    rw [Nat.min_eq_right hsub, Nat.max_eq_left hsub]

/-- The edges of a context are those of the diamond, in either direction. -/
lemma genNeighborList_run {id : ℕ} (h : genNeighborList n id draws = some (edges, rest)) :
    edges.map sortEdge = Diamond.genNeighborList n id := by
  unfold genNeighborList at h
  unfold Diamond.genNeighborList
  split_ifs at h ⊢ with hlast hone hzero
  · obtain ⟨rfl, rfl⟩ := Prod.mk.inj (Option.some.inj h)
    rfl
  · obtain ⟨⟨first, draws'⟩, hfirst, h⟩ := Option.bind_eq_some_iff.1 h
    obtain ⟨⟨second, draws''⟩, hsecond, h⟩ := Option.bind_eq_some_iff.1 h
    obtain ⟨rfl, rfl⟩ := Prod.mk.inj (Option.some.inj h)
    rw [List.map_append, genRandomEdge_run (Nat.le_add_right id 1) hfirst,
      genRandomEdge_run (Nat.le_add_right id 2) hsecond]
    rfl
  · exact genRandomEdge_run (Nat.le_add_right id 1) h
  · exact genRandomEdge_run (Nat.le_add_right id 2) h

lemma generateLoop_run {ids : List ℕ}
    (h : TopologyType.diamondArbitrary.generateLoop n ids draws = some (edges, rest)) :
    edges.map sortEdge = ids.flatMap (Diamond.genNeighborList n) := by
  induction ids generalizing draws edges with
  | nil =>
      obtain ⟨rfl, rfl⟩ := Prod.mk.inj (Option.some.inj h)
      rfl
  | cons id ids ih =>
      obtain ⟨⟨own, draws'⟩, hown, h⟩ := Option.bind_eq_some_iff.1 h
      obtain ⟨⟨others, rest'⟩, hothers, h⟩ := Option.bind_eq_some_iff.1 h
      obtain ⟨rfl, rfl⟩ := Prod.mk.inj (Option.some.inj h)
      rw [List.map_append, genNeighborList_run hown, ih hothers, List.flatMap_cons]

lemma mem_generate {x y : ℕ} (hn : n % 3 = 1)
    (h : (x, y) ∈ generate (Diamond.genNeighborList n) n) :
    y < n ∧ (x % 3 = 0 ∧ (y = x + 1 ∨ y = x + 2) ∨ x % 3 = 1 ∧ y = x + 2 ∨
      x % 3 = 2 ∧ y = x + 1) := by
  obtain ⟨id, hid, hmem⟩ := List.mem_flatMap.1 h
  rw [List.mem_range'_1] at hid
  have hlt := ((Diamond.wellFormedList hn hid.1 (by omega)).2 (x, y) hmem).2.1
  refine ⟨hlt, ?_⟩
  unfold Diamond.genNeighborList at hmem
  split_ifs at hmem with hlast hone hzero
  · exact absurd hmem List.not_mem_nil
  · rw [mem_pair] at hmem
    omega
  · rw [mem_single] at hmem
    omega
  · rw [mem_single] at hmem
    omega

/-- A context has edges to the two parts above and below it at most. -/
lemma fewNeighbors (hn : n % 3 = 1) (hsize : n = 4 ∨ 4 ≤ bound) (hbound : 2 ≤ bound)
    (h : edges.map sortEdge = generate (Diamond.genNeighborList n) n) :
    FewNeighbors n bound edges := by
  have hedge : ∀ a b, b ∈ neighborsOf edges a →
      (min a b, max a b) ∈ generate (Diamond.genNeighborList n) n := by
    intro a b hb
    rw [RingEdge.mem_neighborsOf] at hb
    rw [← h]
    exact List.mem_map_of_mem hb
  have hnodup : ∀ a, (neighborsOf edges a).Nodup := by
    have hedges : edges.Nodup := by
      apply List.Nodup.of_map sortEdge
      rw [h]
      exact nodup_generate (fun _ => Diamond.wellFormedList hn)
    intro a
    apply (hedges.filter _).map_on
    intro e he e' he' hsnd
    have hsource : e.1 = a := of_decide_eq_true (List.mem_filter.1 he).2
    have hsource' : e'.1 = a := of_decide_eq_true (List.mem_filter.1 he').2
    exact Prod.ext (hsource.trans hsource'.symm) hsnd
  have hfour : ∀ a, neighborsOf edges a ⊆ [a + 1, a + 2, a - 1, a - 2] := by
    intro a b hb
    have hmem := mem_generate hn (hedge a b hb)
    simp only [List.mem_cons, List.not_mem_nil, or_false]
    omega
  refine ⟨fun a b hb => ?_, hnodup, fun a => ?_⟩
  · have hmem := mem_generate hn (hedge a b hb)
    omega
  · rcases hsize with rfl | hsize
    · have htwo : neighborsOf edges a ⊆ if a = 0 ∨ a = 3 then [1, 2] else [0, 3] := by
        intro b hb
        have hmem := mem_generate hn (hedge a b hb)
        split_ifs
        · simp only [List.mem_cons, List.not_mem_nil, or_false]
          omega
        · simp only [List.mem_cons, List.not_mem_nil, or_false]
          omega
      have hle := (hnodup a).length_le_of_subset htwo
      split_ifs at hle
      · exact hle.trans hbound
      · exact hle.trans hbound
    · exact ((hnodup a).length_le_of_subset (hfour a)).trans hsize

/-- An edge that points away from the first context where `down` holds of its lower end. -/
def directed (down : ℕ → Prop) [DecidablePred down] (src dst : ℕ) : ℕ × ℕ :=
  if down dst then genNeighbor src dst else genNeighbor dst src

/-- The list of a context for given directions. -/
def directedList (n : ℕ) (down : ℕ → Prop) [DecidablePred down] (id : ℕ) : List (ℕ × ℕ) :=
  if id = n then []
  else if id % 3 = 1 then [directed down id (id + 1), directed down id (id + 2)]
  else if id % 3 = 0 then [directed down id (id + 1)]
  else [directed down id (id + 2)]

section Directed

variable (down : ℕ → Prop) [DecidablePred down]

lemma ends_genRandomEdge (src dst : ℕ) :
    ∃ d ≤ 1, Ends (fun _ => genRandomEdge src dst) [d] [directed down src dst] := by
  unfold directed
  split_ifs
  · exact ⟨1, Nat.le_refl 1, (ends_rand 1).bind (Ends.pure _)⟩
  · exact ⟨0, Nat.zero_le 1, (ends_rand 0).bind (Ends.pure _)⟩

/-- All directions can be drawn. -/
lemma ends_genNeighborList (id : ℕ) : ∃ used, (∀ d ∈ used, d ≤ 1) ∧
    Ends (fun _ => genNeighborList n id) used (directedList n down id) := by
  have hsingle : ∀ src dst, ∃ used, (∀ d ∈ used, d ≤ 1) ∧
      Ends (fun _ => genRandomEdge src dst) used [directed down src dst] := by
    intro src dst
    obtain ⟨d, hd, hends⟩ := ends_genRandomEdge down src dst
    refine ⟨[d], ?_, hends⟩
    intro d' hd'
    rw [List.mem_singleton.1 hd']
    exact hd
  unfold genNeighborList directedList
  split_ifs with hlast hone hzero
  · exact ⟨[], fun d hd => absurd hd List.not_mem_nil, Ends.pure []⟩
  · obtain ⟨used, hused, hends⟩ := hsingle id (id + 1)
    obtain ⟨used', hused', hends'⟩ := hsingle id (id + 2)
    refine ⟨used ++ (used' ++ []), ?_, hends.bind (hends'.bind (Ends.pure _))⟩
    rw [List.append_nil]
    exact forall_append hused hused'
  · exact hsingle id (id + 1)
  · exact hsingle id (id + 2)

end Directed

end DiamondArbitrary

/-! ## All topologies -/

namespace TopologyType

variable {t : TopologyType} {n bound RAND_MAX : ℕ} {edges : List (ℕ × ℕ)}

/-- The topologies numbers up to `RAND_MAX` can lead to. -/
def Generates (t : TopologyType) (RAND_MAX n : ℕ) (edges : List (ℕ × ℕ)) : Prop :=
  ∃ draws rest, (∀ d ∈ draws, d ≤ RAND_MAX) ∧ t.generate n draws = some (edges, rest)

lemma fewNeighbors (haccepted : t.Accepts n) (hthree : t = multipleRing → n ≠ 3)
    (hbound : 2 ≤ bound) (hhouse : t = house → n = 5 ∨ 3 ≤ bound)
    (hdiamond : t = diamondArbitrary → n = 4 ∨ 4 ≤ bound) (h : t.Generates RAND_MAX n edges) :
    FewNeighbors n bound edges := by
  obtain ⟨draws, rest, -, hrun⟩ := h
  cases t with
  | diamondDown =>
      obtain rfl := edges_eq (Diamond.genNeighborList n) (fun _ => rfl) hrun
      have hmod : n % 3 = 1 := not_not.1 (not_or.1 haccepted.2).2
      exact fewNeighbors_of_wellFormed (fun _ => Diamond.wellFormedList hmod)
        (fun id _ => (Diamond.length_le id).trans hbound)
  | diamondArbitrary =>
      have hmod : n % 3 = 1 := not_not.1 (not_or.1 haccepted.2).2
      exact DiamondArbitrary.fewNeighbors hmod (hdiamond rfl) hbound
        (DiamondArbitrary.generateLoop_run hrun)
  | diamondZigzag =>
      obtain rfl := edges_eq (DiamondZigZag.genNeighborList n) (fun _ => rfl) hrun
      have hmod : n % 3 = 1 := not_not.1 (not_or.1 haccepted.2).2
      exact fewNeighbors_of_wellFormed (fun _ => DiamondZigZag.wellFormedList hmod)
        (fun id _ => (DiamondZigZag.length_le id).trans hbound)
  | pureRing =>
      obtain rfl := edges_eq (Ring.genNeighborList n) (fun _ => rfl) hrun
      obtain ⟨hzero, hone⟩ := haccepted
      exact fewNeighbors_of_wellFormed (fun _ => Ring.wellFormedList (by omega))
        (fun id _ => (Ring.length_eq id).le.trans (Nat.le_of_succ_le hbound))
  | ringEdge =>
      obtain ⟨hzero, hone⟩ := haccepted
      obtain ⟨other, rfl, hother, -⟩ :=
        RingEdge.generateLoop_run (by omega) List.nodup_range' hrun
      exact RingEdge.fewNeighbors (by omega) hbound hother
  | binaryTree =>
      obtain rfl := edges_eq (BinaryTree.genNeighborList n) (fun _ => rfl) hrun
      exact fewNeighbors_of_wellFormed (fun _ hpos _ => BinaryTree.wellFormedList hpos)
        (fun id _ => (BinaryTree.length_le id).trans hbound)
  | house =>
      obtain rfl := edges_eq (House.genNeighborList n) (fun _ => rfl) hrun
      obtain ⟨hone, hmod⟩ := not_or.1 haccepted.2
      exact fewNeighbors_of_wellFormed (fun _ => House.wellFormedList (not_not.1 hmod) hone)
        (fun id hle => House.length_le (hhouse rfl) hbound hle)
  | multipleRing =>
      obtain rfl := edges_eq (MultipleRing.genNeighborList n) (fun _ => rfl) hrun
      have hn : 6 ≤ n := by
        obtain ⟨hzero, htest⟩ := haccepted
        have hne := hthree rfl
        omega
      exact fewNeighbors_of_wellFormed (fun _ => MultipleRing.wellFormedList hn)
        (fun id _ => (MultipleRing.length_le id).trans hbound)

/-! ### Topologies with few or many neighbors -/

/-- Draws for the lists of all contexts. -/
lemma generates_of_lists {gen : ℕ → List (ℕ × ℕ)}
    (hgen : ∀ id, ∃ used, (∀ d ∈ used, d ≤ RAND_MAX) ∧
      Ends (fun _ => t.genNeighborList n id) used (gen id)) :
    t.Generates RAND_MAX n (Dmcs.generate gen n) := by
  have hloop : ∀ ids : List ℕ, ∃ used, (∀ d ∈ used, d ≤ RAND_MAX) ∧
      Ends (fun _ => t.generateLoop n ids) used (ids.flatMap gen) := by
    intro ids
    induction ids with
    | nil => exact ⟨[], fun d hd => absurd hd List.not_mem_nil, Ends.pure []⟩
    | cons id ids ih =>
        obtain ⟨used, hused, hends⟩ := hgen id
        obtain ⟨used', hused', hends'⟩ := ih
        refine ⟨used ++ (used' ++ []), ?_, hends.bind (hends'.bind (Ends.pure _))⟩
        rw [List.append_nil]
        exact forall_append hused hused'
  obtain ⟨used, hused, m, hends⟩ := hloop (List.range' 1 n)
  refine ⟨used ++ [], [], ?_, hends m (Nat.le_refl m) []⟩
  rw [List.append_nil]
  exact hused

/-- The same for lists that need no draw. -/
lemma generates_of_pure {gen : ℕ → List (ℕ × ℕ)}
    (hgen : ∀ id, t.genNeighborList n id = pure (gen id)) :
    t.Generates RAND_MAX n (Dmcs.generate gen n) := by
  apply generates_of_lists
  intro id
  rw [hgen]
  exact ⟨[], fun d hd => absurd hd List.not_mem_nil, Ends.pure (gen id)⟩

lemma length_neighborsOf {gen : ℕ → List (ℕ × ℕ)}
    (hgen : ∀ id, 1 ≤ id → id ≤ n → WellFormedList n id (gen id)) {a : ℕ} (ha : a < n) :
    (neighborsOf (Dmcs.generate gen n) a).length = (gen (a + 1)).length := by
  rw [neighborsOf_generate (source_of_lists hgen) ha, List.length_map]

/-- Apart from trees in which all inner contexts have two children, some context can have a single
neighbor. -/
lemma exists_single (haccepted : t.Accepts n) (hthree : t = multipleRing → n ≠ 3)
    (htree : t = binaryTree → n % 2 = 0) (hrand : 1 ≤ RAND_MAX) :
    ∃ edges, t.Generates RAND_MAX n edges ∧ ∃ a < n, (neighborsOf edges a).length = 1 := by
  -- for each topology one context whose list of neighbors is evaluated, at draws of 0 where it
  -- draws
  cases t with
  | diamondDown =>
      obtain ⟨hzero, htest⟩ := haccepted
      refine ⟨_, generates_of_pure (fun _ => rfl), 1, by omega, ?_⟩
      rw [length_neighborsOf (fun _ => Diamond.wellFormedList (by omega)) (by omega)]
      unfold Diamond.genNeighborList
      rw [if_neg (by omega)]
      rfl
  | diamondArbitrary =>
      obtain ⟨hzero, htest⟩ := haccepted
      have hdown :
          DiamondArbitrary.directedList n (fun _ => True) = Diamond.genNeighborList n := rfl
      refine ⟨Dmcs.generate (DiamondArbitrary.directedList n (fun _ => True)) n,
        generates_of_lists (fun id => ?_), 1, by omega, ?_⟩
      · obtain ⟨used, hused, hends⟩ := DiamondArbitrary.ends_genNeighborList (fun _ => True) id
        exact ⟨used, fun d hd => (hused d hd).trans hrand, hends⟩
      · rw [hdown, length_neighborsOf (fun _ => Diamond.wellFormedList (by omega)) (by omega)]
        unfold Diamond.genNeighborList
        rw [if_neg (by omega)]
        rfl
  | diamondZigzag =>
      obtain ⟨hzero, htest⟩ := haccepted
      refine ⟨_, generates_of_pure (fun _ => rfl), 2, by omega, ?_⟩
      rw [length_neighborsOf (fun _ => DiamondZigZag.wellFormedList (by omega)) (by omega)]
      unfold DiamondZigZag.genNeighborList
      rw [if_neg (by omega)]
      rfl
  | pureRing =>
      obtain ⟨hzero, hone⟩ := haccepted
      refine ⟨_, generates_of_pure (fun _ => rfl), 0, by omega, ?_⟩
      rw [length_neighborsOf (fun _ => Ring.wellFormedList (by omega)) (by omega)]
      exact Ring.length_eq 1
  | ringEdge =>
      obtain ⟨hzero, hone⟩ := haccepted
      have hsource : ∀ id, 1 ≤ id → id ≤ n →
          ∀ e ∈ RingEdge.edgesWith n (fun _ => none) id, e.1 = id - 1 := by
        intro id _ _ e he
        rw [List.mem_singleton.1 he]
        rfl
      refine ⟨Dmcs.generate (RingEdge.edgesWith n (fun _ => none)) n,
        generates_of_lists (fun id => ⟨[0] ++ [], ?_, (ends_rand 0).bind (Ends.pure _)⟩), 0,
        by omega, ?_⟩
      · intro d hd
        rw [List.mem_singleton.1 hd]
        exact Nat.zero_le RAND_MAX
      · rw [neighborsOf_generate hsource (by omega)]
        rfl
  | binaryTree =>
      obtain ⟨hzero, hone⟩ := haccepted
      have heven := htree rfl
      refine ⟨_, generates_of_pure (fun _ => rfl), n / 2 - 1, by omega, ?_⟩
      rw [length_neighborsOf (fun _ hpos _ => BinaryTree.wellFormedList hpos) (by omega)]
      unfold BinaryTree.genNeighborList
      simp only
      rw [if_pos (by omega), if_neg (by omega)]
      rfl
  | house =>
      obtain ⟨hzero, htest⟩ := haccepted
      refine ⟨_, generates_of_pure (fun _ => rfl), 1, by omega, ?_⟩
      rw [length_neighborsOf (fun _ => House.wellFormedList (by omega) (by omega)) (by omega)]
      rfl
  | multipleRing =>
      obtain ⟨hzero, htest⟩ := haccepted
      have hne := hthree rfl
      refine ⟨_, generates_of_pure (fun _ => rfl), 0, by omega, ?_⟩
      rw [length_neighborsOf (fun _ => MultipleRing.wellFormedList (by omega)) (by omega)]
      unfold MultipleRing.genNeighborList
      simp only
      rw [if_neg (by omega), if_neg (by omega), if_neg (by omega), if_neg (by omega)]
      rfl

/-- A larger house has a context with three neighbors. -/
lemma house_exists_three (haccepted : house.Accepts n) (hn : n ≠ 5) :
    ∃ edges, house.Generates RAND_MAX n edges ∧ ∃ a < n, 3 ≤ (neighborsOf edges a).length := by
  obtain ⟨hzero, htest⟩ := haccepted
  refine ⟨_, generates_of_pure (fun _ => rfl), 3, by omega, ?_⟩
  rw [length_neighborsOf (fun _ => House.wellFormedList (by omega) (by omega)) (by omega)]
  unfold House.genNeighborList
  simp only
  rw [if_neg (by omega), if_neg (by omega), if_pos trivial, if_pos (by omega)]
  exact Nat.le_refl 3

/-- In a chain of diamonds all four edges of a context between two of them can point away. -/
lemma diamondArbitrary_exists_three (haccepted : diamondArbitrary.Accepts n) (hn : n ≠ 4)
    (hrand : 1 ≤ RAND_MAX) : ∃ edges, diamondArbitrary.Generates RAND_MAX n edges ∧
      ∃ a < n, 3 ≤ (neighborsOf edges a).length := by
  obtain ⟨hzero, htest⟩ := haccepted
  refine ⟨Dmcs.generate (DiamondArbitrary.directedList n (fun dst => dst ≠ 4)) n,
    generates_of_lists (fun id => ?_), 3, by omega, ?_⟩
  · obtain ⟨used, hused, hends⟩ := DiamondArbitrary.ends_genNeighborList (fun dst => dst ≠ 4) id
    exact ⟨used, fun d hd => (hused d hd).trans hrand, hends⟩
  · have hedge : ∀ id b, 1 ≤ id → id < n →
        (3, b) ∈ DiamondArbitrary.directedList n (fun dst => dst ≠ 4) id → b ∈ neighborsOf
          (Dmcs.generate (DiamondArbitrary.directedList n (fun dst => dst ≠ 4)) n) 3 := by
      intro id b hpos hlt hmem
      rw [RingEdge.mem_neighborsOf]
      exact List.mem_flatMap.2 ⟨id, List.mem_range'_1.2 ⟨hpos, by omega⟩, hmem⟩
    have hsub : [1, 2, 4] ⊆ neighborsOf
        (Dmcs.generate (DiamondArbitrary.directedList n (fun dst => dst ≠ 4)) n) 3 := by
      intro b hb
      simp only [List.mem_cons, List.not_mem_nil, or_false] at hb
      rcases hb with rfl | rfl | rfl
      · apply hedge 2 1 (by omega) (by omega)
        unfold DiamondArbitrary.directedList
        rw [if_neg (by omega)]
        exact List.mem_singleton_self _
      · apply hedge 3 2 (by omega) (by omega)
        unfold DiamondArbitrary.directedList
        rw [if_neg (by omega)]
        exact List.mem_singleton_self _
      · apply hedge 4 4 (by omega) (by omega)
        unfold DiamondArbitrary.directedList
        rw [if_neg (by omega)]
        exact List.mem_cons_self
    exact List.Nodup.length_le_of_subset (by decide) hsub

/-- Three contexts are too few for a multiple ring: its last list leaves the system. -/
lemma multipleRing_three :
    multipleRing.Generates RAND_MAX 3 [(0, 1), (1, 2), (1, 3), (2, 0), (2, 3)] := by
  show multipleRing.Generates RAND_MAX 3 (Dmcs.generate (MultipleRing.genNeighborList 3) 3)
  exact generates_of_pure (fun _ => rfl)

end TopologyType

end Dmcs
