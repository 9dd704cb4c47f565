import Mathlib.Algebra.Order.Group.Int
import Mathlib.Algebra.Ring.Int.Defs
import Mathlib.Data.List.Dedup
import Dmcs.Mcs.BeliefTable

/-!
# Generated bridge rules (`ContextGeneratorBase`, `NewLogicVisitor`)

The generator draws the bridge rules of a context at random.  A run of it is given by the numbers
`rand` returns one after the other; it has no result when they run out, which stands for a loop that
has not ended yet.  The whole list is drawn anew until its bodies mention as many contexts as the
context has neighbours; nothing keeps a rule from being drawn twice.

What holds of every list that can be drawn is proved with `Always`, which has a rule for each way in
which the functions are put together.  `IsGenerated` collects what the others need of such a list:
heads that are atoms of the context, bodies that are not empty, and atoms of the interfaces of the
neighbors.
-/

namespace Dmcs

namespace ContextGenerator

/-! ## Belief tables -/

/-- The name of an atom: `ciaj`, and `epsilon` at address 0. -/
def beliefName (i : ℕ) : ℕ → Text
  | 0 => "epsilon".toList
  | j + 1 => 'c' :: (decimal i ++ 'a' :: decimal (j + 1))

/-- One table of `genBeliefTables`. -/
def genBeliefTable (noAtoms i : ℕ) : Option BeliefTable :=
  BeliefTable.storeAll
    ((List.range (noAtoms + 1)).map (fun j => Belief.ofContext i 0 (beliefName i j)))

lemma beliefName_ne_nil (i j : ℕ) : beliefName i j ≠ [] := by
  cases j with
  | zero => exact List.cons_ne_nil _ _
  | succ j => exact List.cons_ne_nil _ _

/-- The names of a context's atoms differ. -/
lemma beliefName_injective (i : ℕ) : Function.Injective (beliefName i) := by
  intro j k h
  have hc : ∀ l : Text, 'c' :: l ≠ "epsilon".toList := by
    intro l hl
    exact absurd (List.cons.inj hl).1 (by decide)
  cases j with
  | zero =>
      cases k with
      | zero => rfl
      | succ k => exact absurd h.symm (hc _)
  | succ j =>
      cases k with
      | zero => exact absurd h (hc _)
      | succ k =>
          have htail := List.append_cancel_left (List.cons.inj h).2
          exact decimal_injective (List.cons.inj htail).2

/-- The table holds the atoms under their numbers. -/
lemma genBeliefTable_eq (noAtoms i : ℕ) :
    ∃ t, genBeliefTable noAtoms i = some t ∧
      t.beliefs = (List.range (noAtoms + 1)).map
        (fun j => Belief.ofContext i j (beliefName i j)) := by
  have hloop : ∀ n, ∃ t, BeliefTable.storeAll
      ((List.range n).map (fun j => Belief.ofContext i 0 (beliefName i j))) = some t ∧
      t.beliefs = (List.range n).map (fun j => Belief.ofContext i j (beliefName i j)) ∧
      t.nextAddress = n := by
    intro n
    induction n with
    | zero => exact ⟨BeliefTable.empty, rfl, rfl, rfl⟩
    | succ n ih =>
        obtain ⟨t, hstore, hbeliefs, hnext⟩ := ih
        have haddress : t.nextAddress ∉ t.beliefs.map Belief.address := by
          rw [hbeliefs, hnext]
          simp [Belief.ofContext]
        have hnew : beliefName i n ∉ t.beliefs.map Belief.text := by
          rw [hbeliefs, List.map_map]
          intro hmem
          obtain ⟨j, hj, heq⟩ := List.mem_map.1 hmem
          rw [beliefName_injective i heq] at hj
          simp at hj
        obtain ⟨t', hstore', hbeliefs', hnext'⟩ :=
          BeliefTable.exists_storeAndGetID (b := Belief.ofContext i 0 (beliefName i n))
            (Belief.isBelief_kindOf i 0) (beliefName_ne_nil i n) haddress hnew
        refine ⟨t', ?_, ?_, by rw [hnext', hnext]⟩
        · unfold BeliefTable.storeAll at hstore ⊢
          rw [List.range_succ, List.map_append, List.foldlM_append, hstore]
          simpa using hstore'
        · rw [hbeliefs', hbeliefs, hnext, List.range_succ, List.map_append]
          rfl
  obtain ⟨t, hstore, hbeliefs, -⟩ := hloop (noAtoms + 1)
  exact ⟨t, hstore, hbeliefs⟩

/-! ## Rules -/

/-- A context and an address in its table. -/
abbrev BridgeAtom : Type := ℕ × ℕ

/-- A bridge rule of the generator. -/
structure GenBridgeRule where
  head : List ℕ
  positiveBody : List BridgeAtom
  negativeBody : List BridgeAtom
  deriving DecidableEq, Repr

/-- The atoms of the body in the order they are printed. -/
def GenBridgeRule.bodyAtoms (r : GenBridgeRule) : List BridgeAtom :=
  r.positiveBody ++ r.negativeBody

/-- The same with their signs. -/
def GenBridgeRule.literals (r : GenBridgeRule) : List (Bool × BridgeAtom) :=
  r.positiveBody.map (fun b => (false, b)) ++ r.negativeBody.map (fun b => (true, b))

/-- A computation that draws numbers. -/
abbrev Random : Type → Type := StateT (List ℕ) Option

def rand : Random ℕ
  | [] => none
  | d :: ds => some (d, ds)

def sign : Random ℤ := do
  let d ← rand
  pure (if d % 2 ≠ 0 then 1 else -1)

/-- A number kept in an `int`. -/
def toInt (z : ℤ) : ℤ := z.bmod (2 ^ 32)

def addUniqueBridgeAtom (r : GenBridgeRule) (neighbor_id : ℕ) (neighbor_atom : ℤ) :
    GenBridgeRule × ℕ :=
  let bap := (neighbor_id, neighbor_atom.natAbs)
  if bap ∈ r.positiveBody ∨ bap ∈ r.negativeBody then (r, 0)
  else if neighbor_atom > 0 then ({ r with positiveBody := r.positiveBody ++ [bap] }, 1)
  else ({ r with negativeBody := r.negativeBody ++ [bap] }, 1)

/-! ### Facts about all results -/

/-- What holds of every result of a computation. -/
def Always {α : Type} (m : Random α) (P : α → Prop) : Prop :=
  ∀ draws a rest, m draws = some (a, rest) → P a

section Always

variable {α β : Type} {P : α → Prop} {Q : β → Prop}

lemma always_bind {m : Random α} {f : α → Random β} (hm : Always m P)
    (hf : ∀ a, P a → Always (f a) Q) : Always (m >>= f) Q := by
  intro draws b rest h
  obtain ⟨⟨a, draws'⟩, ha, hb⟩ := Option.bind_eq_some_iff.1 h
  exact hf a (hm draws a draws' ha) draws' b rest hb

lemma always_pure {a : α} (h : P a) : Always (pure a : Random α) P := by
  intro draws b rest hb
  rw [← (Prod.mk.inj (Option.some.inj hb)).1]
  exact h

lemma always_failure : Always (failure : Random α) P := by
  intro draws a rest h
  cases h

lemma always_lift {o : Option α} (h : ∀ a ∈ o, P a) : Always (liftM o : Random α) P := by
  intro draws a rest hb
  obtain ⟨a', ha', heq⟩ := Option.bind_eq_some_iff.1 hb
  rw [← (Prod.mk.inj (Option.some.inj heq)).1]
  exact h a' ha'

lemma always_true (m : Random α) : Always m (fun _ => True) := fun _ _ _ _ => trivial

end Always

lemma natAbs_toInt_le (z : ℤ) : (toInt z).natAbs ≤ z.natAbs := by
  unfold toInt
  rw [Int.bmod_def]
  split
  · omega
  · omega

lemma always_sign : Always sign (fun z => z.natAbs = 1) := by
  unfold sign
  refine always_bind (always_true rand) (fun d _ => ?_)
  apply always_pure
  split
  · rfl
  · rfl

end ContextGenerator

open ContextGenerator

/-- What the generation of bridge rules reads.  The topology generators connect contexts of the
system, and `genInterface` draws the interface atoms from `1..no_atoms`, which is not empty. -/
structure ContextGeneratorBase where
  noContexts : ℕ
  noAtoms : ℕ
  noBridgeRules : ℕ
  origTopo : ℕ → List ℕ
  contextInterfaces : ℕ → List ℕ
  noAtoms_pos : 0 < noAtoms
  topo_lt : ∀ id, ∀ c ∈ origTopo id, c < noContexts
  interface_le : ∀ c, ∀ a ∈ contextInterfaces c, a ≤ noAtoms

namespace ContextGeneratorBase

variable (g : ContextGeneratorBase)

/-- `sigma_vec`, as `genBeliefTables` fills it. -/
def sigmaVec (i : ℕ) : Option BeliefTable :=
  if i < g.noContexts then genBeliefTable g.noAtoms i else none

/-! ## Drawing rules -/

/-- The loop of `generate_bridge_rule` over body atoms. -/
def bodyLoop (id no_bridge_atoms : ℕ) : ℕ → GenBridgeRule → ℕ → Random GenBridgeRule
  | 0, _, _ => failure
  | fuel + 1, r, count => do
      let nbors := g.origTopo id
      let nbor_id ← nbors[(← rand) % nbors.length]?
      let nbor_interface := g.contextInterfaces nbor_id
      let atom ← nbor_interface[(← rand) % nbor_interface.length]?
      let added := addUniqueBridgeAtom r nbor_id (toInt ((← sign) * atom))
      if count + added.2 < no_bridge_atoms then
        bodyLoop id no_bridge_atoms fuel added.1 (count + added.2)
      else pure added.1

def generateBridgeRule (fuel id : ℕ) : Random GenBridgeRule := do
  let br_h := (← rand) % g.noAtoms + 1
  let no_bridge_atoms := (← rand) % 2 + 1
  g.bodyLoop id no_bridge_atoms fuel ⟨[br_h], [], []⟩ 0

/-- The inner loop of `generate_bridge_rule_list`. -/
def rulesLoop (fuel id : ℕ) : ℕ → List GenBridgeRule → Random (List GenBridgeRule)
  | 0, rules => pure rules
  | n + 1, rules => do
      if (← rand) % 2 ≠ 0 then
        let r ← g.generateBridgeRule fuel id
        rulesLoop fuel id n (rules ++ [r])
      else rulesLoop fuel id n rules

/-- `cover_neighbors` compares the numbers of contexts only. -/
def coverNeighbors (id : ℕ) (rules : List GenBridgeRule) : Bool :=
  ((rules.flatMap GenBridgeRule.bodyAtoms).map Prod.fst).dedup.length = (g.origTopo id).length

def generateBridgeRuleList (id : ℕ) : ℕ → Random (List GenBridgeRule)
  | 0 => failure
  | fuel + 1 => do
      let rules ← g.rulesLoop fuel id g.noBridgeRules []
      if g.coverNeighbors id rules then pure rules else generateBridgeRuleList id fuel

/-- The lists a run can end with. -/
def Produces (id : ℕ) (rules : List GenBridgeRule) : Prop :=
  ∃ fuel draws rest, g.generateBridgeRuleList id fuel draws = some (rules, rest)

/-- What the generator promises of a rule of a context. -/
structure IsGenerated (id : ℕ) (r : GenBridgeRule) : Prop where
  head : ∃ h, h ≤ g.noAtoms ∧ r.head = [h]
  body_ne : r.bodyAtoms ≠ []
  body : ∀ a ∈ r.bodyAtoms, a.1 ∈ g.origTopo id ∧ a.2 ≤ g.noAtoms

section Drawn

variable {g} {id : ℕ}

/-- An atom that is added is counted, and it is the drawn one. -/
lemma addUniqueBridgeAtom_spec (r : GenBridgeRule) (c : ℕ) (z : ℤ) :
    (addUniqueBridgeAtom r c z).1.head = r.head ∧
    (addUniqueBridgeAtom r c z).1.bodyAtoms.length =
      r.bodyAtoms.length + (addUniqueBridgeAtom r c z).2 ∧
    ∀ a ∈ (addUniqueBridgeAtom r c z).1.bodyAtoms, a ∈ r.bodyAtoms ∨ a = (c, z.natAbs) := by
  by_cases hmem : (c, z.natAbs) ∈ r.positiveBody ∨ (c, z.natAbs) ∈ r.negativeBody
  · rw [show addUniqueBridgeAtom r c z = (r, 0) from if_pos hmem]
    exact ⟨rfl, rfl, fun a ha => Or.inl ha⟩
  · by_cases hpos : z > 0
    · rw [show addUniqueBridgeAtom r c z = _ from (if_neg hmem).trans (if_pos hpos)]
      refine ⟨rfl, ?_, ?_⟩
      · simp only [GenBridgeRule.bodyAtoms, List.length_append, List.length_singleton]
        omega
      · intro a ha
        simp only [GenBridgeRule.bodyAtoms, List.mem_append, List.mem_singleton] at ha ⊢
        tauto
    · rw [show addUniqueBridgeAtom r c z = _ from (if_neg hmem).trans (if_neg hpos)]
      refine ⟨rfl, ?_, ?_⟩
      · simp only [GenBridgeRule.bodyAtoms, List.length_append, List.length_singleton]
        omega
      · intro a ha
        simp only [GenBridgeRule.bodyAtoms, List.mem_append, List.mem_singleton] at ha ⊢
        tauto

lemma always_bodyLoop {n : ℕ} (fuel : ℕ) (r : GenBridgeRule) {count : ℕ}
    (hcount : count = r.bodyAtoms.length)
    (hbody : ∀ a ∈ r.bodyAtoms, a.1 ∈ g.origTopo id ∧ a.2 ≤ g.noAtoms) :
    Always (g.bodyLoop id n fuel r count) (fun r' => r'.head = r.head ∧
      n ≤ r'.bodyAtoms.length ∧ ∀ a ∈ r'.bodyAtoms, a.1 ∈ g.origTopo id ∧ a.2 ≤ g.noAtoms) := by
  induction fuel generalizing r count with
  | zero => exact always_failure
  | succ fuel ih =>
      refine always_bind (always_true rand) (fun d _ => ?_)
      refine always_bind (always_lift (fun c hc => List.mem_of_getElem? hc)) (fun c hc => ?_)
      refine always_bind (always_true rand) (fun d' _ => ?_)
      refine always_bind (always_lift (fun a ha => List.mem_of_getElem? ha)) (fun a ha => ?_)
      refine always_bind always_sign (fun z hz => ?_)
      obtain ⟨hhead, hlen, hatoms⟩ := addUniqueBridgeAtom_spec r c (toInt (z * a))
      have hle : (toInt (z * a)).natAbs ≤ g.noAtoms := by
        calc (toInt (z * a)).natAbs ≤ (z * a).natAbs := natAbs_toInt_le _
          _ = a := by rw [Int.natAbs_mul, hz, Nat.one_mul, Int.natAbs_natCast]
          _ ≤ g.noAtoms := g.interface_le c a ha
      have hbody' : ∀ b ∈ (addUniqueBridgeAtom r c (toInt (z * a))).1.bodyAtoms,
          b.1 ∈ g.origTopo id ∧ b.2 ≤ g.noAtoms := by
        intro b hb
        rcases hatoms b hb with hb | rfl
        · exact hbody b hb
        · exact ⟨hc, hle⟩
      show Always (if _ then _ else _) _
      split
      · have hcount' : count + (addUniqueBridgeAtom r c (toInt (z * a))).2 =
            (addUniqueBridgeAtom r c (toInt (z * a))).1.bodyAtoms.length := by
          rw [hlen, hcount]
        have hloop := ih _ hcount' hbody'
        rw [hhead] at hloop
        exact hloop
      · apply always_pure
        exact ⟨hhead, by omega, hbody'⟩

lemma always_generateBridgeRule (fuel : ℕ) :
    Always (g.generateBridgeRule fuel id) (g.IsGenerated id) := by
  refine always_bind (always_true rand) (fun d _ => ?_)
  refine always_bind (always_true rand) (fun d' _ => ?_)
  intro draws r rest hr
  obtain ⟨hhead, hlen, hbody⟩ := always_bodyLoop fuel ⟨[d % g.noAtoms + 1], [], []⟩ rfl
    (fun a ha => absurd ha List.not_mem_nil) draws r rest hr
  refine ⟨⟨_, Nat.mod_lt d g.noAtoms_pos, hhead⟩, ?_, hbody⟩
  intro hnil
  rw [hnil, List.length_nil] at hlen
  omega

lemma always_rulesLoop (fuel n : ℕ) {rules : List GenBridgeRule}
    (hrules : ∀ r ∈ rules, g.IsGenerated id r) :
    Always (g.rulesLoop fuel id n rules) (fun rules => ∀ r ∈ rules, g.IsGenerated id r) := by
  induction n generalizing rules with
  | zero => exact always_pure hrules
  | succ n ih =>
      refine always_bind (always_true rand) (fun d _ => ?_)
      show Always (if _ then _ else _) _
      split
      · refine always_bind (always_generateBridgeRule fuel) (fun r hr => ?_)
        apply ih
        intro r' hr'
        rcases List.mem_append.1 hr' with h | h
        · exact hrules r' h
        · rw [List.mem_singleton.1 h]
          exact hr
      · exact ih hrules

/-- Every rule of a list that can be produced is a generated one. -/
lemma Produces.isGenerated {rules : List GenBridgeRule} (h : g.Produces id rules) :
    ∀ r ∈ rules, g.IsGenerated id r := by
  obtain ⟨fuel, draws, rest, h⟩ := h
  have hall : Always (g.generateBridgeRuleList id fuel)
      (fun rules => ∀ r ∈ rules, g.IsGenerated id r) := by
    clear h
    induction fuel with
    | zero => exact always_failure
    | succ fuel ih =>
        refine always_bind (always_rulesLoop fuel g.noBridgeRules
          (fun r hr => absurd hr List.not_mem_nil)) (fun rules hrules => ?_)
        split
        · exact always_pure hrules
        · exact ih
  exact hall draws rules rest h

end Drawn

/-! ## Printing rules -/

/-- `NewLogicVisitor::atom_name`. -/
def atomName (contextId atomId : ℕ) : Option Text := do
  let sigma ← g.sigmaVec contextId
  let b ← sigma.getByID ⟨BitVec.ofNat 32 contextId ||| ID.MAINKIND_BELIEF, atomId⟩
  some b.text

/-- Texts with a separator between them. -/
def joined (sep : Text) : List Text → Text
  | [] => []
  | t :: ts => t ++ ts.flatMap (fun t => sep ++ t)

def printPositiveBridgeRule (b : BridgeAtom) : Option Text := do
  let name ← g.atomName b.1 b.2
  some ('(' :: (decimal b.1 ++ ':' :: (name ++ [')'])))

def printNegativeBridgeRule (b : BridgeAtom) : Option Text := do
  let name ← g.atomName b.1 b.2
  some ("not ".toList ++ '(' :: (decimal b.1 ++ ':' :: (name ++ [')'])))

def visitBridgeRule (contextId : ℕ) (t : GenBridgeRule) : Option Text := do
  let heads ← t.head.mapM (g.atomName contextId)
  let pb ← t.positiveBody.mapM g.printPositiveBridgeRule
  let nb ← t.negativeBody.mapM g.printNegativeBridgeRule
  some (joined "v ".toList heads ++ ":- ".toList ++ joined ", ".toList (pb ++ nb) ++ ".\n".toList)

/-- `write_bridge_rules`. -/
def writeBridgeRules (id : ℕ) (rules : List GenBridgeRule) : Option Text := do
  let texts ← rules.mapM (g.visitBridgeRule id)
  some texts.flatten

section Printed

variable {g}

/-- The kind `atom_name` builds is the one of the table, for a context that fits. -/
lemma ofNat_or_eq_kindOf {c : ℕ} (hc : c < 2 ^ 16) :
    BitVec.ofNat 32 c ||| ID.MAINKIND_BELIEF = Belief.kindOf c := by
  have hwidth : BitVec.ofNat 32 c = (BitVec.ofNat 16 c).setWidth 32 := by
    apply BitVec.eq_of_toNat_eq
    rw [BitVec.toNat_setWidth, BitVec.toNat_ofNat, BitVec.toNat_ofNat, Nat.mod_eq_of_lt hc]
  unfold Belief.kindOf
  rw [hwidth, BitVec.or_comm]

lemma atomName_eq {c a : ℕ} (hsmall : c < 2 ^ 16) (hc : c < g.noContexts) (ha : a ≤ g.noAtoms) :
    g.atomName c a = some (beliefName c a) := by
  obtain ⟨t, ht, hbeliefs⟩ := genBeliefTable_eq g.noAtoms c
  have hmem : Belief.ofContext c a (beliefName c a) ∈ t.beliefs := by
    rw [hbeliefs]
    exact List.mem_map.2 ⟨a, List.mem_range.2 (by omega), rfl⟩
  have hget := BeliefTable.getByID_of_mem hmem (Belief.isBelief_kindOf c a)
  unfold atomName sigmaVec
  rw [if_pos hc, ht, ofNat_or_eq_kindOf hsmall]
  show (t.getByID ⟨Belief.kindOf c, (Belief.ofContext c a (beliefName c a)).address⟩).bind _ = _
  rw [hget]
  rfl

lemma mapM_eq_some {α β : Type} {f : α → Option β} {h : α → β} {l : List α}
    (hl : ∀ x ∈ l, f x = some (h x)) : l.mapM f = some (l.map h) := by
  induction l with
  | nil => rfl
  | cons x l ih =>
      rw [List.mapM_cons, hl x List.mem_cons_self,
        ih (fun y hy => hl y (List.mem_cons_of_mem x hy))]
      rfl

/-- The text of an atom of a body. -/
def literalText (naf : Bool) (b : BridgeAtom) : Text :=
  (if naf then "not ".toList else []) ++
    '(' :: (decimal b.1 ++ ':' :: (beliefName b.1 b.2 ++ [')']))

/-- The text of a rule up to the dot. -/
def ruleText (id : ℕ) (r : GenBridgeRule) : Text :=
  joined "v ".toList (r.head.map (beliefName id)) ++ ":- ".toList ++
    joined ", ".toList (r.literals.map (fun l => literalText l.1 l.2)) ++ ['.']

lemma visitBridgeRule_eq {id : ℕ} {r : GenBridgeRule} (hr : g.IsGenerated id r)
    (hid : id < g.noContexts) (hsmall : id < 2 ^ 16 ∧ ∀ a ∈ r.bodyAtoms, a.1 < 2 ^ 16) :
    g.visitBridgeRule id r = some (ruleText id r ++ ['\n']) := by
  have hatom : ∀ a ∈ r.bodyAtoms, g.atomName a.1 a.2 = some (beliefName a.1 a.2) := by
    intro a ha
    exact atomName_eq (hsmall.2 a ha) (g.topo_lt id a.1 (hr.body a ha).1) (hr.body a ha).2
  have hhead : r.head.mapM (g.atomName id) = some (r.head.map (beliefName id)) := by
    apply mapM_eq_some
    obtain ⟨h, hle, heq⟩ := hr.head
    rw [heq]
    intro a ha
    rw [List.mem_singleton.1 ha]
    exact atomName_eq hsmall.1 hid hle
  have hpos : r.positiveBody.mapM g.printPositiveBridgeRule =
      some (r.positiveBody.map (literalText false)) := by
    apply mapM_eq_some
    intro a ha
    unfold printPositiveBridgeRule
    rw [hatom a (List.mem_append_left _ ha)]
    rfl
  have hneg : r.negativeBody.mapM g.printNegativeBridgeRule =
      some (r.negativeBody.map (literalText true)) := by
    apply mapM_eq_some
    intro a ha
    unfold printNegativeBridgeRule
    rw [hatom a (List.mem_append_right _ ha)]
    rfl
  have htexts : r.literals.map (fun l => literalText l.1 l.2) =
      r.positiveBody.map (literalText false) ++ r.negativeBody.map (literalText true) := by
    unfold GenBridgeRule.literals
    rw [List.map_append, List.map_map, List.map_map]
    rfl
  unfold visitBridgeRule ruleText
  rw [hhead, hpos, hneg, htexts, List.append_assoc _ ['.'] ['\n']]
  rfl

/-- What is written for rules whose contexts fit into an id. -/
lemma writeBridgeRules_eq {id : ℕ} {rules : List GenBridgeRule}
    (hrules : ∀ r ∈ rules, g.IsGenerated id r) (hid : id < g.noContexts)
    (hsmall : ∀ r ∈ rules, id < 2 ^ 16 ∧ ∀ a ∈ r.bodyAtoms, a.1 < 2 ^ 16) :
    g.writeBridgeRules id rules = some (rules.flatMap (fun r => ruleText id r ++ ['\n'])) := by
  unfold writeBridgeRules
  rw [mapM_eq_some (fun r hr => visitBridgeRule_eq (hrules r hr) hid (hsmall r hr))]
  rfl

end Printed

end ContextGeneratorBase

end Dmcs
