import Dmcs.Generator.NeighborCounts

/-!
# Random generation (`init`, `generate_orig_topology`, `generate`)

`read_input` asks of the numbers of atoms, interface atoms and bridge rules that they are not zero.
The loops of the generator ask for more: there must be as many atoms as an interface is to have, a
body of two atoms must find two of them, and the rules of a context must be able to mention all its
neighbors.  `cannotGetStuck_iff` puts these conditions together.

## The argument

`CannotGetStuck` is about interfaces that were drawn, any topology that can be generated for them,
and the rules of each of its contexts.  One direction puts `neverStuck_genInterface` and
`canFinish_iff` together, with the bounds of `NeighborCounts` on the neighbors of a context.  For
the other one a topology is generated that has a context with few neighbors, or with many, so that
its rules cannot be drawn to the end.
-/

namespace Dmcs

open ContextGenerator Draws

/-- What `read_input` accepts, and the largest number `rand` returns: at least 32767, and an
`int`. -/
structure AcceptedInput where
  topology_type : TopologyType
  no_contexts : ℕ
  no_atoms : ℕ
  no_interface_atoms : ℕ
  no_bridge_rules : ℕ
  accepted : topology_type.Accepts no_contexts
  no_atoms_pos : 0 < no_atoms
  no_interface_atoms_pos : 0 < no_interface_atoms
  no_bridge_rules_pos : 0 < no_bridge_rules
  RAND_MAX : ℕ
  rand_ge : 32767 ≤ RAND_MAX
  rand_lt : RAND_MAX < 2 ^ 31

namespace AcceptedInput

variable (p : AcceptedInput)

/-- `genBeliefTables`. -/
def sigma_vec (i : ℕ) : Option BeliefTable :=
  if i < p.no_contexts then genBeliefTable p.no_atoms i else none

/-- The interfaces of all contexts. -/
def drawInterfaces (fuel : ℕ) : Random (List (List ℕ × BeliefTable)) :=
  genInterface fuel p.no_atoms p.no_interface_atoms p.sigma_vec (List.range p.no_contexts)

/-- The generator of bridge rules for a topology and drawn interfaces. -/
structure Builds (edges : List (ℕ × ℕ)) (interfaces : List (List ℕ × BeliefTable))
    (g : ContextGeneratorBase) : Prop where
  noContexts : g.noContexts = p.no_contexts
  noAtoms : g.noAtoms = p.no_atoms
  noBridgeRules : g.noBridgeRules = p.no_bridge_rules
  origTopo : g.origTopo = neighborsOf edges
  contextInterfaces : g.contextInterfaces = fun c => (interfaces.map Prod.fst)[c]?.getD []

/-- From whatever was drawn so far the interfaces can be finished; and with whatever interfaces and
topology come out, so can the rules of every context that has neighbors. -/
structure CannotGetStuck : Prop where
  interfaces : ∀ ds, (∀ d ∈ ds, d ≤ p.RAND_MAX) → ∃ ds', (∀ d ∈ ds', d ≤ p.RAND_MAX) ∧
    ∃ fuel interfaces rest, p.drawInterfaces fuel (ds ++ ds') = some (interfaces, rest)
  rules : ∀ ds fuel interfaces rest edges, (∀ d ∈ ds, d ≤ p.RAND_MAX) →
    p.drawInterfaces fuel ds = some (interfaces, rest) →
    p.topology_type.Generates p.RAND_MAX p.no_contexts edges →
    ∃ g, p.Builds edges interfaces g ∧
      ∀ id < p.no_contexts, g.origTopo id ≠ [] → g.CanFinish p.RAND_MAX id

/-- What the loops ask for. -/
structure Fits : Prop where
  contexts : p.no_contexts ≤ 2 ^ 28
  atoms : p.no_interface_atoms ≤ p.no_atoms
  named : p.no_interface_atoms ≤ p.RAND_MAX + 1
  bodies : 2 ≤ p.no_interface_atoms ∨ (p.topology_type = .binaryTree ∧ p.no_contexts % 2 = 1)
  rules : 2 ≤ p.no_bridge_rules ∨ ((p.topology_type = .house → p.no_contexts = 5) ∧
    (p.topology_type = .diamondArbitrary → p.no_contexts = 4))
  ring : p.topology_type = .multipleRing → p.no_contexts ≠ 3

variable {p} {edges : List (ℕ × ℕ)} {interfaces : List (List ℕ × BeliefTable)}
  {g : ContextGeneratorBase}

lemma no_contexts_pos : 0 < p.no_contexts := by
  obtain ⟨t, n, _, _, _, haccepted⟩ := p
  cases t with
  | _ => exact Nat.pos_of_ne_zero haccepted.1

/-- What the drawn interfaces are. -/
lemma drawn_interfaces {ds rest : List ℕ} {fuel : ℕ} (hds : ∀ d ∈ ds, d ≤ p.RAND_MAX)
    (hrun : p.drawInterfaces fuel ds = some (interfaces, rest)) :
    interfaces.length = p.no_contexts ∧
      (∀ c ∈ interfaces, IsInterface p.RAND_MAX p.no_atoms p.no_interface_atoms c.1) ∧
      p.no_contexts ≤ 2 ^ 28 := by
  obtain ⟨hlen, hall, hnotMem⟩ :=
    (yields_genInterface p.no_atoms_pos fuel _ ds interfaces rest hds hrun).1
  rw [List.length_range] at hlen
  refine ⟨hlen, hall, ?_⟩
  by_contra hlarge
  exact hnotMem p.no_interface_atoms_pos (List.mem_range.2 (Nat.lt_of_not_le hlarge))

lemma Builds.isInterface (h : p.Builds edges interfaces g)
    (hlen : interfaces.length = p.no_contexts)
    (hall : ∀ c ∈ interfaces, IsInterface p.RAND_MAX p.no_atoms p.no_interface_atoms c.1) {c : ℕ}
    (hc : c < p.no_contexts) :
    IsInterface p.RAND_MAX g.noAtoms p.no_interface_atoms (g.contextInterfaces c) := by
  have hlt : c < interfaces.length := by omega
  rw [h.noAtoms, h.contextInterfaces]
  simp only [List.getElem?_map, List.getElem?_eq_getElem hlt, Option.map_some, Option.getD_some]
  exact hall _ (List.getElem_mem hlt)

lemma Builds.offers (h : p.Builds edges interfaces g) (hlen : interfaces.length = p.no_contexts)
    (hall : ∀ c ∈ interfaces, IsInterface p.RAND_MAX p.no_atoms p.no_interface_atoms c.1)
    (hfew : FewNeighbors p.no_contexts 4 edges) (id : ℕ) :
    g.Offers p.RAND_MAX p.no_interface_atoms id := by
  have hrand := p.rand_ge
  constructor
  · rw [h.origTopo]
    exact hfew.nodup id
  · rw [h.origTopo]
    exact (hfew.length_le id).trans (by omega)
  · intro c hc
    rw [h.origTopo] at hc
    exact h.isInterface hlen hall (hfew.inside id c hc)
  · exact p.no_interface_atoms_pos
  · omega
  · exact p.rand_lt

/-- A generator for drawn interfaces. -/
lemma exists_builds (hall : ∀ c ∈ interfaces,
      IsInterface p.RAND_MAX p.no_atoms p.no_interface_atoms c.1)
    (hfew : FewNeighbors p.no_contexts 4 edges) : ∃ g, p.Builds edges interfaces g := by
  have hle : ∀ c : ℕ, ∀ a ∈ (interfaces.map Prod.fst)[c]?.getD [], a ≤ p.no_atoms := by
    intro c a ha
    cases hget : (interfaces.map Prod.fst)[c]? with
    | none =>
        rw [hget] at ha
        exact absurd ha List.not_mem_nil
    | some l =>
        rw [hget] at ha
        obtain ⟨e, he, rfl⟩ := List.mem_map.1 (List.mem_of_getElem? hget)
        exact ((hall e he).range a ha).2.1
  exact ⟨⟨p.no_contexts, p.no_atoms, p.no_bridge_rules, neighborsOf edges,
    fun c => (interfaces.map Prod.fst)[c]?.getD [], p.no_atoms_pos, hfew.inside, hle⟩,
    rfl, rfl, rfl, rfl, rfl⟩

/-- No type has more than four neighbors for a context. -/
lemma fewNeighbors_four (hring : p.topology_type = .multipleRing → p.no_contexts ≠ 3)
    (h : p.topology_type.Generates p.RAND_MAX p.no_contexts edges) :
    FewNeighbors p.no_contexts 4 edges :=
  TopologyType.fewNeighbors p.accepted hring (by omega) (fun _ => Or.inr (by omega))
    (fun _ => Or.inr (Nat.le_refl 4)) h

/-! ## What is needed -/

/-- The interfaces of a run that does not get stuck. -/
lemma CannotGetStuck.exists_interfaces (h : p.CannotGetStuck) :
    ∃ ds fuel interfaces rest, (∀ d ∈ ds, d ≤ p.RAND_MAX) ∧
      p.drawInterfaces fuel ds = some (interfaces, rest) := by
  obtain ⟨ds, hds, fuel, interfaces, rest, hrun⟩ :=
    h.interfaces [] (fun d hd => absurd hd List.not_mem_nil)
  exact ⟨ds, fuel, interfaces, rest, hds, hrun⟩

lemma CannotGetStuck.size_le (h : p.CannotGetStuck) :
    p.no_interface_atoms ≤ p.no_atoms ∧ p.no_interface_atoms ≤ p.RAND_MAX + 1 := by
  obtain ⟨ds, fuel, interfaces, rest, hds, hrun⟩ := h.exists_interfaces
  obtain ⟨hlen, hall, -⟩ := drawn_interfaces hds hrun
  have hpos : 0 < interfaces.length := by
    rw [hlen]
    exact no_contexts_pos
  obtain ⟨c, hc⟩ := List.exists_mem_of_length_pos hpos
  exact (hall c hc).size_le

lemma CannotGetStuck.ring (h : p.CannotGetStuck) (htype : p.topology_type = .multipleRing) :
    p.no_contexts ≠ 3 := by
  intro hthree
  obtain ⟨ds, fuel, interfaces, rest, hds, hrun⟩ := h.exists_interfaces
  have hgen : p.topology_type.Generates p.RAND_MAX p.no_contexts
      [(0, 1), (1, 2), (1, 3), (2, 0), (2, 3)] := by
    rw [htype, hthree]
    exact TopologyType.multipleRing_three
  obtain ⟨g, hg, -⟩ := h.rules ds fuel interfaces rest _ hds hrun hgen
  have hlt : 3 < g.noContexts := by
    apply g.topo_lt 1
    rw [hg.origTopo, RingEdge.mem_neighborsOf]
    exact List.mem_cons_of_mem _ (List.mem_cons_of_mem _ List.mem_cons_self)
  rw [hg.noContexts] at hlt
  omega

/-- What a topology that can come out needs. -/
lemma CannotGetStuck.enough (h : p.CannotGetStuck)
    (hgen : p.topology_type.Generates p.RAND_MAX p.no_contexts edges) {a : ℕ}
    (ha : a < p.no_contexts) (hne : 0 < (neighborsOf edges a).length) :
    2 ≤ (neighborsOf edges a).length * p.no_interface_atoms ∧
      (neighborsOf edges a).length ≤ 2 * p.no_bridge_rules := by
  obtain ⟨ds, fuel, interfaces, rest, hds, hrun⟩ := h.exists_interfaces
  obtain ⟨hlen, hall, -⟩ := drawn_interfaces hds hrun
  obtain ⟨g, hg, hfinish⟩ := h.rules ds fuel interfaces rest edges hds hrun hgen
  have hoffers := hg.offers hlen hall (fewNeighbors_four h.ring hgen) a
  have hnbors : g.origTopo a ≠ [] := by
    rw [hg.origTopo]
    exact List.length_pos_iff.1 hne
  have hrules : 0 < g.noBridgeRules := by
    rw [hg.noBridgeRules]
    exact p.no_bridge_rules_pos
  have henough := (ContextGeneratorBase.canFinish_iff hoffers hnbors hrules).1
    (hfinish a ha hnbors)
  rw [hg.origTopo, hg.noBridgeRules] at henough
  exact henough

lemma CannotGetStuck.bodies (h : p.CannotGetStuck) : 2 ≤ p.no_interface_atoms ∨
    (p.topology_type = .binaryTree ∧ p.no_contexts % 2 = 1) := by
  by_contra hno
  rw [not_or, not_and] at hno
  obtain ⟨hone, htree⟩ := hno
  have hrand : 1 ≤ p.RAND_MAX := le_trans (by omega) p.rand_ge
  obtain ⟨edges, hgen, a, ha, hsingle⟩ := TopologyType.exists_single p.accepted h.ring
    (fun htype => Nat.mod_two_ne_one.1 (htree htype)) hrand
  have henough := (h.enough hgen ha (hsingle.symm ▸ Nat.one_pos)).1
  rw [hsingle, Nat.one_mul] at henough
  exact hone henough

lemma CannotGetStuck.rules_le (h : p.CannotGetStuck) : 2 ≤ p.no_bridge_rules ∨
    ((p.topology_type = .house → p.no_contexts = 5) ∧
      (p.topology_type = .diamondArbitrary → p.no_contexts = 4)) := by
  have hthree : ∀ edges, p.topology_type.Generates p.RAND_MAX p.no_contexts edges →
      (∃ a < p.no_contexts, 3 ≤ (neighborsOf edges a).length) → 2 ≤ p.no_bridge_rules := by
    rintro edges hgen ⟨a, ha, hlen⟩
    have henough := (h.enough hgen ha (by omega)).2
    omega
  have haccepted := p.accepted
  have hrand : 1 ≤ p.RAND_MAX := le_trans (by omega) p.rand_ge
  rw [or_iff_not_imp_left]
  intro hone
  constructor
  · intro htype
    by_contra hsize
    rw [htype] at haccepted hthree
    obtain ⟨edges, hgen, hlen⟩ := TopologyType.house_exists_three haccepted hsize
    exact hone (hthree edges hgen hlen)
  · intro htype
    by_contra hsize
    rw [htype] at haccepted hthree
    obtain ⟨edges, hgen, hlen⟩ :=
      TopologyType.diamondArbitrary_exists_three haccepted hsize hrand
    exact hone (hthree edges hgen hlen)

/-! ## What is enough -/

lemma Fits.length_le (h : p.Fits)
    (hgen : p.topology_type.Generates p.RAND_MAX p.no_contexts edges) (a : ℕ) :
    (neighborsOf edges a).length ≤ 2 * p.no_bridge_rules := by
  have hpos := p.no_bridge_rules_pos
  have hfew : FewNeighbors p.no_contexts (2 * p.no_bridge_rules) edges := by
    apply TopologyType.fewNeighbors p.accepted h.ring (by omega) _ _ hgen
    · intro htype
      rcases h.rules with htwo | ⟨hhouse, -⟩
      · exact Or.inr (by omega)
      · exact Or.inl (hhouse htype)
    · intro htype
      rcases h.rules with htwo | ⟨-, hdiamond⟩
      · exact Or.inr (by omega)
      · exact Or.inl (hdiamond htype)
  exact hfew.length_le a

/-- Two atoms are there for every context that has neighbors. -/
lemma Fits.two_le (h : p.Fits) (hgen : p.topology_type.Generates p.RAND_MAX p.no_contexts edges)
    {a : ℕ} (ha : a < p.no_contexts) (hne : neighborsOf edges a ≠ []) :
    2 ≤ (neighborsOf edges a).length * p.no_interface_atoms := by
  have hpos := List.length_pos_iff.2 hne
  rcases h.bodies with htwo | ⟨htype, hodd⟩
  · exact htwo.trans (Nat.le_mul_of_pos_left _ hpos)
  · obtain ⟨draws, rest, -, hrun⟩ := hgen
    rw [htype] at hrun
    obtain rfl :=
      TopologyType.edges_eq (BinaryTree.genNeighborList p.no_contexts) (fun _ => rfl) hrun
    have hlen :=
      TopologyType.length_neighborsOf (fun _ hpos _ => BinaryTree.wellFormedList hpos) ha
    rw [hlen] at hpos
    rw [hlen, BinaryTree.length_eq hodd (List.length_pos_iff.1 hpos)]
    exact Nat.le_mul_of_pos_right 2 p.no_interface_atoms_pos

lemma Fits.cannotGetStuck (h : p.Fits) : p.CannotGetStuck where
  interfaces ds hds := by
    have hnever : NeverStuck (· ≤ p.RAND_MAX) (fun fuel => p.drawInterfaces fuel)
        (fun _ => True) := by
      apply neverStuck_genInterface h.atoms h.named
      intro i hi
      have hlt := List.mem_range.1 hi
      refine ⟨hlt.trans_le h.contexts, if_pos hlt⟩
    obtain ⟨ds', hds', fuel, interfaces, rest, hrun, -⟩ := hnever.run hds
    exact ⟨ds', hds', fuel, interfaces, rest, hrun⟩
  rules ds fuel interfaces rest edges hds hrun hgen := by
    obtain ⟨hlen, hall, -⟩ := drawn_interfaces hds hrun
    have hfew := fewNeighbors_four h.ring hgen
    obtain ⟨g, hg⟩ := exists_builds hall hfew
    refine ⟨g, hg, fun id hid hne => ?_⟩
    have hrules : 0 < g.noBridgeRules := by
      rw [hg.noBridgeRules]
      exact p.no_bridge_rules_pos
    rw [ContextGeneratorBase.canFinish_iff (hg.offers hlen hall hfew id) hne hrules,
      hg.noBridgeRules]
    rw [hg.origTopo] at hne ⊢
    exact ⟨h.two_le hgen hid hne, h.length_le hgen id⟩

/-- Whatever was drawn so far, further draws let the generation end, if and only if the accepted
numbers meet `Fits`: an interface finds atoms enough and IDs for them, a body of two atoms finds two
of them also in a context with a single neighbour, and the bodies of a context can mention all its
neighbours.  Each of the three loops ends on some draws because its measure goes down on one of
them; where a condition fails, a sequence of draws leads to a loop that no draw ends. -/
theorem cannotGetStuck_iff (p : AcceptedInput) : p.CannotGetStuck ↔ p.Fits := by
  constructor
  · intro h
    obtain ⟨ds, fuel, interfaces, rest, hds, hrun⟩ := h.exists_interfaces
    exact ⟨(drawn_interfaces hds hrun).2.2, h.size_le.1, h.size_le.2, h.bodies, h.rules_le, h.ring⟩
  · exact Fits.cannotGetStuck

/-- `--atoms 2`, and the defaults for the rest: three interface atoms of two. -/
def twoAtoms : AcceptedInput where
  topology_type := .diamondDown
  no_contexts := 4
  no_atoms := 2
  no_interface_atoms := 3
  no_bridge_rules := 2
  accepted := ⟨by decide, by decide⟩
  no_atoms_pos := Nat.two_pos
  no_interface_atoms_pos := Nat.succ_pos 2
  no_bridge_rules_pos := Nat.two_pos
  RAND_MAX := 2 ^ 31 - 1
  rand_ge := by decide
  rand_lt := by decide

/-- `--interface 1`, and the defaults for the rest: a context with one neighbor has one atom for
its bodies. -/
def oneInterfaceAtom : AcceptedInput where
  topology_type := .diamondDown
  no_contexts := 4
  no_atoms := 9
  no_interface_atoms := 1
  no_bridge_rules := 2
  accepted := ⟨by decide, by decide⟩
  no_atoms_pos := Nat.succ_pos 8
  no_interface_atoms_pos := Nat.one_pos
  no_bridge_rules_pos := Nat.two_pos
  RAND_MAX := 2 ^ 31 - 1
  rand_ge := by decide
  rand_lt := by decide

/-- The one does not get past the interfaces, the other not past the rules. -/
theorem accepted_gets_stuck : ¬ twoAtoms.CannotGetStuck ∧ ¬ oneInterfaceAtom.CannotGetStuck := by
  constructor
  · intro h
    exact absurd h.size_le.1 (by decide)
  · intro h
    exact absurd h.bodies (by decide)

end AcceptedInput

end Dmcs
