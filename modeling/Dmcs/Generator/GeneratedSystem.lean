import Dmcs.Generator.LocalKb
import Dmcs.Generator.Topologies
import Dmcs.Mcs.UniqueEquilibrium

/-!
# Generated systems (`ContextGeneratorBase::generate`)

`generate` writes for every context a local knowledge base and, if the context has neighbors, a list
of bridge rules.  A `GeneratedSystem` is a system whose daemons have loaded these files, and whose
solver returns the answer sets of a knowledge base with the derived heads as facts.

In a binary tree and in the two directed diamonds the edges go to larger contexts.  So such a system
has an equilibrium, and exactly one when the knowledge bases are deterministic.  This is a statement
about the files.  On the command lines that are written with them `SIZE_BS` is the number of atoms,
so that `combine` leaves out the last belief of a block and the addresses are not strict.

## The argument

`generate` draws one context after the other, and `always_generateLoop` says of all files at once
that the knowledge bases are drawn ones and that the rules of a context mention its neighbors only.
A context that `Loads` its files imports what is in the bodies, so the imports of the system follow
the edges of the topology, which go down (`TopologyType.GoesDown.lt`).  `LocalKb` says what the
contexts accept, and `UniqueEquilibrium` does the rest.
-/

namespace Dmcs

open StableModels ContextGenerator

variable {bso : BeliefStateOffset}

namespace ContextGeneratorBase

/-- What `generate` writes for a context: its knowledge base and its bridge rules. -/
abbrev ContextFiles : Type := List (Rule ℕ) × List GenBridgeRule

variable (g : ContextGeneratorBase) (generate_local_kb : ℕ → Random (List (Rule ℕ)))

/-- One round of the loop over the contexts. -/
def generateContext (fuel i : ℕ) : Random ContextFiles := do
  let local_kb ← generate_local_kb g.noAtoms
  if 0 < (g.origTopo i).length then
    let bridge_rules ← g.generateBridgeRuleList i fuel
    pure (local_kb, bridge_rules)
  else pure (local_kb, [])

/-- `generate`, for the contexts that are left. -/
def generateLoop (fuel : ℕ) : List ℕ → Random (List ContextFiles)
  | [] => pure []
  | i :: is => do
      let files ← g.generateContext generate_local_kb fuel i
      let rest ← generateLoop fuel is
      pure (files :: rest)

def generate (fuel : ℕ) : Random (List ContextFiles) :=
  g.generateLoop generate_local_kb fuel (List.range g.noContexts)

variable {g generate_local_kb}

/-- The rules of a context mention its neighbors only, and the knowledge base is a drawn one. -/
structure IsWritten (g : ContextGeneratorBase) (generate_local_kb : ℕ → Random (List (Rule ℕ)))
    (i : ℕ) (files : ContextFiles) : Prop where
  local_kb : ∃ draws rest, generate_local_kb g.noAtoms draws = some (files.1, rest)
  body : ∀ r ∈ files.2, ∀ a ∈ r.bodyAtoms, a.1 ∈ g.origTopo i

lemma always_generateContext (fuel i : ℕ) :
    Always (g.generateContext generate_local_kb fuel i) (g.IsWritten generate_local_kb i) := by
  refine always_bind (P := fun kb => ∃ draws rest, generate_local_kb g.noAtoms draws =
    some (kb, rest)) (fun draws kb rest h => ⟨draws, rest, h⟩) (fun kb hkb => ?_)
  split
  · refine always_bind (P := g.Produces i) (fun draws rules rest h => ⟨fuel, draws, rest, h⟩) ?_
    intro rules hrules
    exact always_pure ⟨hkb, fun r hr a ha => ((hrules.isGenerated r hr).body a ha).1⟩
  · exact always_pure ⟨hkb, fun r hr => absurd hr List.not_mem_nil⟩

lemma always_generateLoop (fuel : ℕ) (is : List ℕ) :
    Always (g.generateLoop generate_local_kb fuel is)
      (List.Forall₂ (g.IsWritten generate_local_kb) is) := by
  induction is with
  | nil => exact always_pure .nil
  | cons i is ih =>
      refine always_bind (always_generateContext fuel i) (fun files hfiles => ?_)
      exact always_bind ih (fun rest hrest => always_pure (.cons hfiles hrest))

/-- Every context has its files. -/
lemma generate_spec {fuel : ℕ} {draws rest : List ℕ} {files : List ContextFiles}
    (h : g.generate generate_local_kb fuel draws = some (files, rest)) {i : ℕ}
    (hi : i < g.noContexts) :
    ∃ f, files[i]? = some f ∧ g.IsWritten generate_local_kb i f := by
  have hall := always_generateLoop fuel (List.range g.noContexts) draws files rest h
  have hlen := hall.length_eq
  rw [List.length_range] at hlen
  have hlt : i < files.length := hlen ▸ hi
  refine ⟨_, List.getElem?_eq_getElem hlt, ?_⟩
  have := hall.get (i := i) (by simpa using hi) hlt
  simpa using this

end ContextGeneratorBase

open ContextGeneratorBase

/-! ## Loaded systems -/

namespace System

/-- The head and the literals of a bridge rule; the context of the head is the own one. -/
def contents (b : BridgeRule) : List ℕ × List (Bool × BridgeAtom) :=
  ([b.head.address], b.body.map (fun l => (l.naf, l.belief.contextId, l.belief.address)))

open Classical in
/-- The evaluator of a context returns the answer sets of its knowledge base and the given facts. -/
def EvaluatesKb (sys : System bso) (c : ℕ) (local_kb : List (Rule ℕ)) : Prop :=
  ∀ facts : Finset ℕ, (∀ a ∈ facts, a ∈ sys.signature c) →
    ∀ m, m ∈ sys.acc c (facts.image (fun a => a + bso.startingOffset c)) ↔
      ∃ M, IsAnswerSet (withFacts local_kb facts) M ∧
        m = localState bso c (sys.signature c) (fun a => decide (a ∈ M))

/-- A context that was started with its files. -/
structure Loads (sys : System bso) (c : ℕ) (files : ContextFiles) : Prop where
  bridgeRules : (sys.bridgeRules c).map contents = files.2.map (fun r => (r.head, r.literals))
  evaluator : sys.EvaluatesKb c files.1

variable {sys : System bso} {c d : ℕ} {files : ContextFiles}

/-- The imports of a loaded context are those of the bodies in its file. -/
lemma Loads.exists_bodyAtom (h : sys.Loads c files) (hcd : sys.Imports c d) :
    ∃ r ∈ files.2, ∃ a ∈ r.bodyAtoms, a.1 = d := by
  obtain ⟨b, hb, rfl⟩ := hcd
  obtain ⟨b', hb', hmem⟩ := List.mem_flatMap.1 hb
  obtain ⟨l, hl, rfl⟩ := List.mem_map.1 hmem
  have hcontents : contents b' ∈ files.2.map (fun r => (r.head, r.literals)) :=
    h.bridgeRules ▸ List.mem_map_of_mem hb'
  obtain ⟨r, hr, heq⟩ := List.mem_map.1 hcontents
  have hbody := (Prod.mk.inj heq).2.symm
  refine ⟨r, hr, (l.belief.contextId, l.belief.address), ?_, rfl⟩
  have hliteral : (l.naf, l.belief.contextId, l.belief.address) ∈ r.literals :=
    hbody ▸ List.mem_map_of_mem hl
  unfold GenBridgeRule.literals at hliteral
  rcases List.mem_append.1 hliteral with hin | hin
  · obtain ⟨a, ha, heq⟩ := List.mem_map.1 hin
    rw [← (Prod.mk.inj heq).2]
    exact List.mem_append_left _ ha
  · obtain ⟨a, ha, heq⟩ := List.mem_map.1 hin
    rw [← (Prod.mk.inj heq).2]
    exact List.mem_append_right _ ha

/-- A knowledge base with an answer set for all facts. -/
lemma EvaluatesKb.alwaysAccepts {local_kb : List (Rule ℕ)} (h : sys.EvaluatesKb c local_kb)
    (hkb : ∀ facts, ∃ M, IsAnswerSet (withFacts local_kb facts) M) : sys.AlwaysAccepts c := by
  rintro heads ⟨facts, hfacts, rfl⟩
  obtain ⟨M, hM⟩ := hkb facts
  exact List.ne_nil_of_mem ((h facts hfacts _).2 ⟨M, hM, rfl⟩)

/-- A knowledge base with one answer set for all facts. -/
lemma EvaluatesKb.acceptsOne {local_kb : List (Rule ℕ)} (h : sys.EvaluatesKb c local_kb)
    (hkb : ∀ facts, ∃! M, IsAnswerSet (withFacts local_kb facts) M) : sys.AcceptsOne c := by
  rintro heads ⟨facts, hfacts, rfl⟩
  obtain ⟨M, hM, hunique⟩ := hkb facts
  refine ⟨_, (h facts hfacts _).2 ⟨M, hM, rfl⟩, fun m hm => ?_⟩
  obtain ⟨N, hN, rfl⟩ := (h facts hfacts m).1 hm
  rw [hunique N hN]

end System

/-! ## Topologies without cycles -/

/-- The types whose edges go to larger contexts. -/
def TopologyType.GoesDown (t : TopologyType) : Prop :=
  t = .binaryTree ∨ t = .diamondDown ∨ t = .diamondZigzag

lemma BinaryTree.lt_of_mem {n id a b : ℕ} (hpos : 1 ≤ id)
    (h : (a, b) ∈ BinaryTree.genNeighborList n id) : a < b := by
  unfold BinaryTree.genNeighborList at h
  simp only at h
  split_ifs at h
  · obtain ⟨rfl, rfl | rfl⟩ := mem_pair.1 h
    · omega
    · omega
  · obtain ⟨rfl, rfl⟩ := mem_single.1 h
    omega
  · cases h

lemma Diamond.lt_of_mem {n id a b : ℕ} (hpos : 1 ≤ id)
    (h : (a, b) ∈ Diamond.genNeighborList n id) : a < b := by
  unfold Diamond.genNeighborList at h
  split_ifs at h
  · cases h
  · obtain ⟨rfl, rfl | rfl⟩ := mem_pair.1 h
    · omega
    · omega
  · obtain ⟨rfl, rfl⟩ := mem_single.1 h
    omega
  · obtain ⟨rfl, rfl⟩ := mem_single.1 h
    omega

lemma DiamondZigZag.lt_of_mem {n id a b : ℕ} (hpos : 1 ≤ id)
    (h : (a, b) ∈ DiamondZigZag.genNeighborList n id) : a < b := by
  unfold DiamondZigZag.genNeighborList at h
  split_ifs at h
  · cases h
  · obtain ⟨rfl, rfl | rfl⟩ := mem_pair.1 h
    · omega
    · omega
  · obtain ⟨rfl, rfl⟩ := mem_single.1 h
    omega

/-- The neighbors of a context in these topologies are larger. -/
lemma TopologyType.GoesDown.lt {t : TopologyType} (h : t.GoesDown) {n : ℕ} {draws rest : List ℕ}
    {edges : List (ℕ × ℕ)} (hrun : t.generate n draws = some (edges, rest)) {a b : ℕ}
    (hb : b ∈ neighborsOf edges a) : a < b := by
  have hedges : ∀ {gen : ℕ → List (ℕ × ℕ)}, edges = Dmcs.generate gen n →
      (∀ id, 1 ≤ id → (a, b) ∈ gen id → a < b) → a < b := by
    rintro gen rfl hgen
    obtain ⟨id, hid, hmem⟩ := List.mem_flatMap.1 (RingEdge.mem_neighborsOf.1 hb)
    exact hgen id (List.mem_range'_1.1 hid).1 hmem
  rcases h with rfl | rfl | rfl
  · exact hedges (edges_eq (BinaryTree.genNeighborList n) (fun _ => rfl) hrun)
      (fun id => BinaryTree.lt_of_mem)
  · exact hedges (edges_eq (Diamond.genNeighborList n) (fun _ => rfl) hrun)
      (fun id => Diamond.lt_of_mem)
  · exact hedges (edges_eq (DiamondZigZag.genNeighborList n) (fun _ => rfl) hrun)
      (fun id => DiamondZigZag.lt_of_mem)

/-! ## Systems whose daemons run over generated files -/

/-- The daemons of a run of the generator.  The topology is that of `topology_type`, and there are
as many contexts as the system has blocks. -/
structure GeneratedSystem (bso : BeliefStateOffset)
    (generate_local_kb : ℕ → Random (List (Rule ℕ))) where
  topology : GeneratedTopology
  generator : ContextGeneratorBase
  noContexts_eq : generator.noContexts = topology.no_contexts
  noBlocks_eq : bso.noBlocks = topology.no_contexts
  origTopo_eq : generator.origTopo = neighborsOf topology.edges
  fuel : ℕ
  draws : List ℕ
  rest : List ℕ
  files : List ContextFiles
  run : generator.generate generate_local_kb fuel draws = some (files, rest)
  sys : System bso
  loads : ∀ c, ∀ f ∈ files[c]?, sys.Loads c f

namespace GeneratedSystem

variable {generate_local_kb : ℕ → Random (List (Rule ℕ))}

lemma exists_files (s : GeneratedSystem bso generate_local_kb) {c : ℕ} (hc : c < bso.noBlocks) :
    ∃ f, s.sys.Loads c f ∧ s.generator.IsWritten generate_local_kb c f := by
  have hlt : c < s.generator.noContexts := by rwa [s.noContexts_eq, ← s.noBlocks_eq]
  obtain ⟨f, hf, hwritten⟩ := generate_spec s.run hlt
  exact ⟨f, s.loads c f hf, hwritten⟩

/-- Imports follow the topology. -/
lemma lt_of_imports (s : GeneratedSystem bso generate_local_kb)
    (hdown : s.topology.topology_type.GoesDown) {c d : ℕ} (hc : c < bso.noBlocks)
    (hcd : s.sys.Imports c d) : c < d := by
  obtain ⟨f, hloads, hwritten⟩ := s.exists_files hc
  obtain ⟨r, hr, a, ha, rfl⟩ := hloads.exists_bodyAtom hcd
  have hmem := hwritten.body r hr a ha
  rw [s.origTopo_eq] at hmem
  exact hdown.lt s.topology.run hmem

lemma acyclic (s : GeneratedSystem bso generate_local_kb)
    (hdown : s.topology.topology_type.GoesDown) : s.sys.Acyclic := by
  have hlt : ∀ {c d : ℕ}, c < bso.noBlocks → Relation.TransGen s.sys.Imports c d → c < d := by
    intro c d hc h
    induction h with
    | single h => exact s.lt_of_imports hdown hc h
    | tail hpath h ih =>
        obtain ⟨e, -, he⟩ := Relation.TransGen.tail'_iff.1 hpath
        exact ih.trans (s.lt_of_imports hdown he.lt h)
  intro c h
  obtain ⟨d, -, hd⟩ := Relation.TransGen.tail'_iff.1 h
  exact absurd (hlt hd.lt h) (Nat.lt_irrefl c)

/-- A generated system without cycles has an equilibrium at every context. -/
theorem exists_isEquilibrium_nonDeterministic
    (s : GeneratedSystem bso ContextGeneratorNonDeterministic.generateLocalKb)
    (hdown : s.topology.topology_type.GoesDown) {r : ℕ} (hr : r < bso.noBlocks) :
    ∃ E, s.sys.IsEquilibrium r E := by
  refine (s.acyclic hdown).exists_equilibrium (fun c hc => ?_)
  obtain ⟨f, hloads, hwritten⟩ := s.exists_files (hc.lt hr)
  obtain ⟨draws, rest, hrun⟩ := hwritten.local_kb
  refine hloads.evaluator.alwaysAccepts (fun facts => ?_)
  have hchain := ContextGeneratorNonDeterministic.always_generateLocalKb _ draws f.1 rest hrun
  have hne : {M | IsAnswerSet (withFacts f.1 facts) M}.Nonempty := by
    apply Set.nonempty_of_ncard_ne_zero
    rw [hchain.ncard_answerSets facts]
    exact (Nat.two_pow_pos _).ne'
  exact hne

/-- A generated system without cycles whose knowledge bases are deterministic has exactly one
equilibrium at every context. -/
theorem existsUnique_isEquilibrium_deterministic
    (s : GeneratedSystem bso ContextGeneratorDeterministic.generateLocalKb)
    (hdown : s.topology.topology_type.GoesDown) {r : ℕ} (hr : r < bso.noBlocks) :
    ∃! E, s.sys.IsEquilibrium r E := by
  refine (s.acyclic hdown).existsUnique_equilibrium (fun c hc => ?_)
  obtain ⟨f, hloads, hwritten⟩ := s.exists_files (hc.lt hr)
  obtain ⟨draws, rest, hrun⟩ := hwritten.local_kb
  exact hloads.evaluator.acceptsOne
    (fun facts => ContextGeneratorDeterministic.existsUnique_answerSet hrun facts)

/-! ## A system of two contexts -/

/-- Contexts that enumerate the answer sets of their knowledge bases. -/
def ofKbs (no_atoms : ℕ) (kbs : ℕ → List (Rule ℕ)) (rules : List BridgeRule)
    (interface : NewBeliefState bso.width)
    (hsize : ∀ a ∈ List.range' 1 no_atoms, 1 ≤ a ∧ a ≤ bso.sizeBs)
    (hrules : ∀ r ∈ rules, r.head.address ∈ List.range' 1 no_atoms ∧ ∀ l ∈ r.body,
      l.belief.contextId < bso.noBlocks ∧ l.belief.address ∈ List.range' 1 no_atoms) : System bso :=
  System.ofRules (List.range' 1 no_atoms) rules
    (fun c heads => (answerSets no_atoms (kbs c)
      (heads.image (fun i => i - bso.startingOffset c))).map (fun l a => decide (a ∈ l)))
    interface hsize hrules

lemma evaluatesKb_ofKbs {no_atoms : ℕ} {kbs : ℕ → List (Rule ℕ)} {rules : List BridgeRule}
    {interface : NewBeliefState bso.width}
    {hsize : ∀ a ∈ List.range' 1 no_atoms, 1 ≤ a ∧ a ≤ bso.sizeBs}
    {hrules : ∀ r ∈ rules, r.head.address ∈ List.range' 1 no_atoms ∧ ∀ l ∈ r.body,
      l.belief.contextId < bso.noBlocks ∧ l.belief.address ∈ List.range' 1 no_atoms}
    {c : ℕ} (hc : c < bso.noBlocks) (hkb : IsChain no_atoms no_atoms (kbs c)) :
    (ofKbs no_atoms kbs rules interface hsize hrules).EvaluatesKb c (kbs c) := by
  intro facts hfacts m
  have hback : (facts.image (fun a => a + bso.startingOffset c)).image
      (fun i => i - bso.startingOffset c) = facts := by
    rw [Finset.image_image]
    simp [Function.comp_def]
  have hacc : (ofKbs no_atoms kbs rules interface hsize hrules).acc c
      (facts.image (fun a => a + bso.startingOffset c)) =
        (answerSets no_atoms (kbs c) facts).map
          (fun l => localState bso c (List.range' 1 no_atoms) (fun a => decide (a ∈ l))) := by
    show (if c < bso.noBlocks then _ else _) = _
    simp only [if_pos hc, hback, List.map_map]
    rfl
  rw [hacc, List.mem_map]
  constructor
  · rintro ⟨l, hl, rfl⟩
    refine ⟨{a | a ∈ l}, (hkb.mem_answerSets hfacts).2 ⟨l, hl, rfl⟩, ?_⟩
    exact congrArg _ (funext fun a => decide_eq_decide.2 Iff.rfl)
  · rintro ⟨M, hM, rfl⟩
    obtain ⟨l, hl, rfl⟩ := (hkb.mem_answerSets hfacts).1 hM
    exact ⟨l, hl, congrArg _ (funext fun a => decide_eq_decide.2 Iff.rfl)⟩

lemma binaryTree_accepts_two : TopologyType.binaryTree.Accepts 2 := ⟨by omega, by omega⟩

/-- A binary tree of two contexts. -/
def twoTree : GeneratedTopology where
  topology_type := .binaryTree
  directed := fun h => TopologyType.noConfusion h
  no_contexts := 2
  accepted := binaryTree_accepts_two
  draws := []
  rest := []
  edges := [(0, 1)]
  run := rfl

/-- Two atoms, both in the interfaces, and one bridge rule. -/
def twoGenerator : ContextGeneratorBase where
  noContexts := 2
  noAtoms := 2
  noBridgeRules := 1
  origTopo := neighborsOf [(0, 1)]
  contextInterfaces _ := [1, 2]
  noAtoms_pos := Nat.two_pos
  topo_lt id c hc := by
    obtain ⟨e, he, rfl⟩ := List.mem_map.1 hc
    rw [List.mem_singleton.1 (List.mem_filter.1 he).1]
    exact Nat.one_lt_two
  interface_le c a ha := by
    rcases List.mem_pair.1 ha with rfl | rfl
    · exact Nat.le_succ 1
    · exact Nat.le_refl 2

/-- The bridge rule `c0a1 :- not (1:c1a2)`, as it was drawn and as it is read. -/
def importDrawn : GenBridgeRule := ⟨[1], [], [(1, 2)]⟩

def importRead : BridgeRule := ⟨⟨0, 1⟩, [⟨⟨1, 2⟩, true⟩], List.cons_ne_nil _ _⟩

/-- Two contexts, whose `SIZE_BS` is the number of atoms. -/
def twoBlocks : BeliefStateOffset := .ofSucc 1 1

lemma twoBlocks_hsize : ∀ a ∈ List.range' 1 2, 1 ≤ a ∧ a ≤ twoBlocks.sizeBs := by decide

lemma twoBlocks_hrules : ∀ r ∈ [importRead], r.head.address ∈ List.range' 1 2 ∧ ∀ l ∈ r.body,
    l.belief.contextId < twoBlocks.noBlocks ∧ l.belief.address ∈ List.range' 1 2 := by decide

/-- Both contexts have the same knowledge base.  The return plans keep the epsilon bits, the block
of the root and the belief that is imported. -/
def twoSystem (local_kb : List (Rule ℕ)) : System twoBlocks :=
  ofKbs 2 (fun _ => local_kb) [importRead] ⟨47#6, 47#6⟩ twoBlocks_hsize twoBlocks_hrules

lemma twoSystem_loads {local_kb : List (Rule ℕ)} (hkb : IsChain 2 2 local_kb) (c : ℕ) :
    ∀ f ∈ [(local_kb, [importDrawn]), (local_kb, [])][c]?, (twoSystem local_kb).Loads c f := by
  intro f hf
  match c with
  | 0 =>
      obtain rfl := Option.some.inj hf
      exact ⟨rfl, evaluatesKb_ofKbs (by decide) hkb⟩
  | 1 =>
      obtain rfl := Option.some.inj hf
      exact ⟨rfl, evaluatesKb_ofKbs (by decide) hkb⟩
  | c + 2 => cases hf

def twoDeterministic :
    GeneratedSystem twoBlocks ContextGeneratorDeterministic.generateLocalKb where
  topology := twoTree
  generator := twoGenerator
  noContexts_eq := rfl
  noBlocks_eq := rfl
  origTopo_eq := rfl
  fuel := 2
  draws := [1, 1, 0, 0, 0, 1, 0, 0]
  rest := []
  files := [([negatedEdge 1 2], [importDrawn]), ([negatedEdge 1 2], [])]
  run := rfl
  sys := twoSystem [negatedEdge 1 2]
  loads := twoSystem_loads
    (ContextGeneratorDeterministic.always_generateLocalKb 2 [0] [negatedEdge 1 2] [] rfl).1

def twoNonDeterministic :
    GeneratedSystem twoBlocks ContextGeneratorNonDeterministic.generateLocalKb where
  topology := twoTree
  generator := twoGenerator
  noContexts_eq := rfl
  noBlocks_eq := rfl
  origTopo_eq := rfl
  fuel := 2
  draws := [1, 1, 0, 0, 0, 1, 0, 1]
  rest := []
  files := [([negatedEdge 1 2, negatedEdge 2 1], [importDrawn]),
    ([negatedEdge 1 2, negatedEdge 2 1], [])]
  run := rfl
  sys := twoSystem [negatedEdge 1 2, negatedEdge 2 1]
  loads := twoSystem_loads (ContextGeneratorNonDeterministic.always_generateLocalKb 2 [1]
    [negatedEdge 1 2, negatedEdge 2 1] [] rfl)

/-- Two contexts with non-deterministic knowledge bases, the first importing a belief of the
second. -/
theorem exists_isEquilibrium_nonDeterministic_two :
    ∃ E, twoNonDeterministic.sys.IsEquilibrium 0 E :=
  exists_isEquilibrium_nonDeterministic twoNonDeterministic (Or.inl rfl)
    (by decide : 0 < twoBlocks.noBlocks)

/-- The same two contexts with deterministic knowledge bases. -/
theorem existsUnique_isEquilibrium_deterministic_two :
    ∃! E, twoDeterministic.sys.IsEquilibrium 0 E :=
  existsUnique_isEquilibrium_deterministic twoDeterministic (Or.inl rfl)
    (by decide : 0 < twoBlocks.noBlocks)

end GeneratedSystem

end Dmcs
