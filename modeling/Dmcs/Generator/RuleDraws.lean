import Dmcs.Generator.GenInterface

/-!
# Drawing bridge rules to the end (`generate_bridge_rule_list`)

The rules of a context are drawn in three loops: for the atoms of a body, over the rules, and over
whole lists until one covers all neighbors.  `canFinish_iff` says when some further draws always
lead out of them: a body must find two different atoms, and two atoms for each rule must be enough
for all neighbors.

## The argument

Each loop is taken apart with the rules of `Draws`: what its results are like (`Yields`), that it
is never stuck (`NeverStuck`), and which draws lead out of it (`Ends`).  A round over the atoms
of a body may repeat an atom and add nothing, but as long as there are enough atoms some are missing
(`Drawn.exists_missing`), and any of them can be drawn next.

For the outer loop a covering list has to be drawn in one go.  Rules with two atoms each mention any
contexts of a list that is twice as long (`ends_rulesLoop`); and no list of rules can mention more,
which is the other direction (`CanFinish.le_two_mul`).
-/

namespace Dmcs

open ContextGenerator Draws

namespace ContextGenerator

/-- An atom of an interface keeps its number whatever its sign. -/
lemma natAbs_toInt_mul {z : ℤ} (hz : z.natAbs = 1) {a : ℕ} (ha : a ≤ 2 ^ 31) :
    (toInt (z * a)).natAbs = a := by
  have hone : z = 1 ∨ z = -1 := Int.natAbs_eq_iff.1 hz
  unfold toInt
  rw [Int.bmod_def]
  rcases hone with rfl | rfl
  · split
    · omega
    · omega
  · split
    · omega
    · omega

end ContextGenerator

namespace ContextGeneratorBase

lemma mem_bodyAtoms {r : GenBridgeRule} {p : BridgeAtom} :
    p ∈ r.bodyAtoms ↔ p ∈ r.positiveBody ∨ p ∈ r.negativeBody := List.mem_append

lemma addUniqueBridgeAtom_of_mem {r : GenBridgeRule} {c : ℕ} {z : ℤ}
    (h : (c, z.natAbs) ∈ r.bodyAtoms) : addUniqueBridgeAtom r c z = (r, 0) :=
  if_pos (mem_bodyAtoms.1 h)

lemma addUniqueBridgeAtom_of_notMem {r : GenBridgeRule} {c : ℕ} {z : ℤ}
    (h : (c, z.natAbs) ∉ r.bodyAtoms) : (addUniqueBridgeAtom r c z).2 = 1 ∧
      (addUniqueBridgeAtom r c z).1.bodyAtoms.Perm ((c, z.natAbs) :: r.bodyAtoms) := by
  have hnew : ¬ ((c, z.natAbs) ∈ r.positiveBody ∨ (c, z.natAbs) ∈ r.negativeBody) :=
    fun hmem => h (mem_bodyAtoms.2 hmem)
  by_cases hpos : z > 0
  · rw [show addUniqueBridgeAtom r c z = _ from (if_neg hnew).trans (if_pos hpos)]
    refine ⟨rfl, ?_⟩
    unfold GenBridgeRule.bodyAtoms
    rw [List.append_assoc]
    exact List.perm_middle
  · rw [show addUniqueBridgeAtom r c z = _ from (if_neg hnew).trans (if_neg hpos)]
    refine ⟨rfl, ?_⟩
    unfold GenBridgeRule.bodyAtoms
    rw [← List.append_assoc]
    exact List.perm_append_singleton _ _

lemma snd_addUniqueBridgeAtom_le {r : GenBridgeRule} {c : ℕ} {z : ℤ} :
    (addUniqueBridgeAtom r c z).2 ≤ 1 := by
  by_cases hmem : (c, z.natAbs) ∈ r.bodyAtoms
  · rw [addUniqueBridgeAtom_of_mem hmem]
    exact Nat.zero_le 1
  · exact (addUniqueBridgeAtom_of_notMem hmem).1.le

variable (g : ContextGeneratorBase)

/-- The atoms a body can draw. -/
def bridgeAtoms (id : ℕ) : List BridgeAtom :=
  (g.origTopo id).flatMap (fun c => (g.contextInterfaces c).map (fun a => (c, a)))

/-- What a context draws from: different neighbors, each with an interface of `size` atoms. -/
structure Offers (RAND_MAX size id : ℕ) : Prop where
  nodup : (g.origTopo id).Nodup
  nbors_le : (g.origTopo id).length ≤ RAND_MAX + 1
  isInterface : ∀ c ∈ g.origTopo id,
    IsInterface RAND_MAX g.noAtoms size (g.contextInterfaces c)
  size_pos : 0 < size
  rand_pos : 0 < RAND_MAX
  rand_lt : RAND_MAX < 2 ^ 31

/-- Whatever was drawn so far, some draws end the list, and it covers all neighbors. -/
def CanFinish (RAND_MAX id : ℕ) : Prop :=
  ∀ ds, (∀ d ∈ ds, d ≤ RAND_MAX) → ∃ ds', (∀ d ∈ ds', d ≤ RAND_MAX) ∧
    ∃ fuel rules rest, g.generateBridgeRuleList id fuel (ds ++ ds') = some (rules, rest) ∧
      ∀ c ∈ g.origTopo id, ∃ r ∈ rules, ∃ a ∈ r.bodyAtoms, a.1 = c

/-- A round of the loop over body atoms. -/
def bodyRound (id : ℕ) (r : GenBridgeRule) : Random (GenBridgeRule × ℕ) := do
  let nbors := g.origTopo id
  let nbor_id ← nbors[(← rand) % nbors.length]?
  let nbor_interface := g.contextInterfaces nbor_id
  let atom ← nbor_interface[(← rand) % nbor_interface.length]?
  let z ← sign
  pure (addUniqueBridgeAtom r nbor_id (toInt (z * atom)))

/-- The body drawn so far. -/
structure Drawn (id : ℕ) (r : GenBridgeRule) (count : ℕ) : Prop where
  count_eq : count = r.bodyAtoms.length
  nodup : r.bodyAtoms.Nodup
  subset : r.bodyAtoms ⊆ g.bridgeAtoms id

variable {g} {RAND_MAX size id : ℕ}

lemma mem_bridgeAtoms {p : BridgeAtom} :
    p ∈ g.bridgeAtoms id ↔ p.1 ∈ g.origTopo id ∧ p.2 ∈ g.contextInterfaces p.1 := by
  unfold bridgeAtoms
  rw [List.mem_flatMap]
  constructor
  · rintro ⟨c, hc, hp⟩
    obtain ⟨a, ha, rfl⟩ := List.mem_map.1 hp
    exact ⟨hc, ha⟩
  · rintro ⟨hc, ha⟩
    exact ⟨p.1, hc, List.mem_map.2 ⟨p.2, ha, rfl⟩⟩

lemma Offers.length_bridgeAtoms (h : g.Offers RAND_MAX size id) :
    (g.bridgeAtoms id).length = (g.origTopo id).length * size := by
  have hall : ∀ l ⊆ g.origTopo id,
      (l.flatMap (fun c => (g.contextInterfaces c).map (fun a => (c, a)))).length =
        l.length * size := by
    intro l
    induction l with
    | nil =>
        intro _
        rw [List.flatMap_nil, List.length_nil, List.length_nil, Nat.zero_mul]
    | cons c l ih =>
        intro hsub
        obtain ⟨hc, hl⟩ := List.cons_subset.1 hsub
        rw [List.flatMap_cons, List.length_append, ih hl, List.length_map,
          (h.isInterface c hc).length_eq, List.length_cons, Nat.succ_mul, Nat.add_comm]
  exact hall _ (List.Subset.refl _)

lemma Offers.nodup_bridgeAtoms (h : g.Offers RAND_MAX size id) : (g.bridgeAtoms id).Nodup := by
  unfold bridgeAtoms
  rw [List.nodup_flatMap]
  constructor
  · intro c hc
    exact (h.isInterface c hc).nodup.map (fun a b hab => (Prod.mk.inj hab).2)
  · apply h.nodup.imp
    intro c c' hne p hp hp'
    obtain ⟨a, -, rfl⟩ := List.mem_map.1 hp
    obtain ⟨a', -, heq⟩ := List.mem_map.1 hp'
    exact hne (Prod.mk.inj heq).1.symm

/-! ## Rounds -/

lemma Drawn.nil (head : List ℕ) : g.Drawn id ⟨head, [], []⟩ 0 :=
  ⟨rfl, List.nodup_nil, List.nil_subset _⟩

/-- An atom that is drawn is added unless it is there already. -/
lemma Drawn.add {r : GenBridgeRule} {count c : ℕ} {z : ℤ} (h : g.Drawn id r count)
    (hp : (c, z.natAbs) ∈ g.bridgeAtoms id) :
    g.Drawn id (addUniqueBridgeAtom r c z).1 (count + (addUniqueBridgeAtom r c z).2) := by
  by_cases hmem : (c, z.natAbs) ∈ r.bodyAtoms
  · rw [addUniqueBridgeAtom_of_mem hmem]
    exact h
  · obtain ⟨hone, hperm⟩ := addUniqueBridgeAtom_of_notMem hmem
    refine ⟨?_, ?_, ?_⟩
    · rw [hone, hperm.length_eq, List.length_cons, h.count_eq]
    · rw [hperm.nodup_iff, List.nodup_cons]
      exact ⟨hmem, h.nodup⟩
    · intro p hp'
      rcases List.mem_cons.1 (hperm.mem_iff.1 hp') with rfl | hp'
      · exact hp
      · exact h.subset hp'

lemma Drawn.count_le {r : GenBridgeRule} {count : ℕ} (h : g.Drawn id r count) :
    count ≤ (g.bridgeAtoms id).length := by
  rw [h.count_eq]
  exact h.nodup.length_le_of_subset h.subset

lemma yields_sign : Yields (· ≤ RAND_MAX) sign (fun z => z.natAbs = 1) := by
  refine Yields.bind yields_rand (fun d _ => Yields.pure ?_)
  split
  · rfl
  · rfl

lemma neverStuck_sign : NeverStuck (· ≤ RAND_MAX) (fun _ => sign) (fun _ => True) := by
  apply NeverStuck.bind neverStuck_rand
  intro d _
  exact NeverStuck.pure trivial

lemma ends_sign : Ends (fun _ => sign) ([0] ++ []) (-1) := (ends_rand 0).bind (Ends.pure _)

lemma yields_bodyRound (h : g.Offers RAND_MAX size id) {r : GenBridgeRule} {count : ℕ}
    (hr : g.Drawn id r count) : Yields (· ≤ RAND_MAX) (g.bodyRound id r)
      (fun added => g.Drawn id added.1 (count + added.2) ∧ added.2 ≤ 1) := by
  refine Yields.bind yields_rand (fun d _ => ?_)
  refine Yields.bind (Yields.lift (fun c hc => List.mem_of_getElem? hc)) (fun c hc => ?_)
  refine Yields.bind yields_rand (fun d' _ => ?_)
  refine Yields.bind (Yields.lift (fun a ha => List.mem_of_getElem? ha)) (fun a ha => ?_)
  refine Yields.bind yields_sign (fun z hz => Yields.pure ?_)
  have hle : a ≤ 2 ^ 31 := by
    have hrange := ((h.isInterface c hc).range a ha).2.2
    have hlt := h.rand_lt
    omega
  refine ⟨hr.add ?_, snd_addUniqueBridgeAtom_le⟩
  rw [natAbs_toInt_mul hz hle, mem_bridgeAtoms]
  exact ⟨hc, ha⟩

/-- A position of a list that is not empty. -/
lemma exists_getElem? {l : List ℕ} (hl : l ≠ []) (d : ℕ) : ∃ a ∈ l, l[d % l.length]? = some a := by
  have hlt : d % l.length < l.length := Nat.mod_lt d (List.length_pos_iff.2 hl)
  exact ⟨l[d % l.length], List.getElem_mem hlt, List.getElem?_eq_getElem hlt⟩

lemma Offers.interface_ne_nil (h : g.Offers RAND_MAX size id) {c : ℕ} (hc : c ∈ g.origTopo id) :
    g.contextInterfaces c ≠ [] := by
  rw [← List.length_pos_iff, (h.isInterface c hc).length_eq]
  exact h.size_pos

lemma neverStuck_bodyRound (h : g.Offers RAND_MAX size id) (hne : g.origTopo id ≠ [])
    (r : GenBridgeRule) :
    NeverStuck (· ≤ RAND_MAX) (fun _ => g.bodyRound id r) (fun _ => True) := by
  apply NeverStuck.bind neverStuck_rand
  intro d _
  obtain ⟨c, hc, hget⟩ := exists_getElem? hne d
  apply NeverStuck.bind (NeverStuck.lift hget hc (P := (· ∈ g.origTopo id)))
  intro c hc
  apply NeverStuck.bind neverStuck_rand
  intro d' _
  obtain ⟨a, -, hget⟩ := exists_getElem? (h.interface_ne_nil hc) d'
  apply NeverStuck.bind (NeverStuck.lift hget trivial (P := fun _ => True))
  intro a _
  apply NeverStuck.bind neverStuck_sign
  intro z _
  exact NeverStuck.pure trivial

/-- Every atom can be drawn. -/
lemma ends_bodyRound (h : g.Offers RAND_MAX size id) {p : BridgeAtom}
    (hp : p ∈ g.bridgeAtoms id) (r : GenBridgeRule) :
    ∃ ds z, (∀ d ∈ ds, d ≤ RAND_MAX) ∧ z.natAbs = p.2 ∧
      Ends (fun _ => g.bodyRound id r) ds (addUniqueBridgeAtom r p.1 z) := by
  obtain ⟨hc, ha⟩ := mem_bridgeAtoms.1 hp
  obtain ⟨i, hi, hgeti⟩ := List.mem_iff_getElem.1 hc
  obtain ⟨j, hj, hgetj⟩ := List.mem_iff_getElem.1 ha
  have hinterface := h.isInterface p.1 hc
  have hle : p.2 ≤ 2 ^ 31 := by
    have hrange := (hinterface.range p.2 ha).2.2
    have hlt := h.rand_lt
    omega
  have hlift : (g.origTopo id)[i % (g.origTopo id).length]? = some p.1 := by
    rw [Nat.mod_eq_of_lt hi, List.getElem?_eq_getElem hi, hgeti]
  have hlift' : (g.contextInterfaces p.1)[j % (g.contextInterfaces p.1).length]? = some p.2 := by
    rw [Nat.mod_eq_of_lt hj, List.getElem?_eq_getElem hj, hgetj]
  have hends : Ends (fun _ => g.bodyRound id r)
      ([i] ++ ([] ++ ([j] ++ ([] ++ (([0] ++ []) ++ [])))))
      (addUniqueBridgeAtom r p.1 (toInt (-1 * p.2))) := by
    apply Ends.bind (ends_rand i)
    apply Ends.bind (Ends.lift hlift)
    apply Ends.bind (ends_rand j)
    apply Ends.bind (Ends.lift hlift')
    apply Ends.bind ends_sign
    exact Ends.pure _
  refine ⟨_, _, ?_, natAbs_toInt_mul rfl hle, hends⟩
  have hi' := h.nbors_le
  have hj' := hinterface.size_le.2
  rw [hinterface.length_eq] at hj
  intro d hd
  change d ∈ [i, j, 0] at hd
  simp only [List.mem_cons, List.not_mem_nil, or_false] at hd
  omega

/-! ## Bodies -/

/-- The loop over body atoms does rounds until there are enough. -/
lemma isLoop_bodyLoop (n : ℕ) :
    IsLoop (fun fuel (s : GenBridgeRule × ℕ) => g.bodyLoop id n fuel s.1 s.2)
      (fun s _ => g.bodyRound id s.1 >>= fun added => pure (added.1, s.2 + added.2))
      (fun s => ¬ s.2 < n) Prod.fst := by
  intro fuel s
  unfold bodyRound
  simp only [bind_assoc, pure_bind, ite_not]
  rfl

/-- A body that is drawn to the end has as many different atoms as it should have. -/
lemma yields_bodyLoop (h : g.Offers RAND_MAX size id) {n : ℕ} (fuel : ℕ) {r : GenBridgeRule}
    {count : ℕ} (hr : g.Drawn id r count) (hlt : count < n) :
    Yields (· ≤ RAND_MAX) (g.bodyLoop id n fuel r count) (fun r' => g.Drawn id r' n) := by
  induction fuel generalizing r count with
  | zero => exact Yields.failure
  | succ fuel ih =>
      rw [show g.bodyLoop id n (fuel + 1) r count = _ from isLoop_bodyLoop n fuel (r, count)]
      have hround : Yields (· ≤ RAND_MAX)
          (g.bodyRound id r >>= fun added => pure (added.1, count + added.2))
          (fun s => g.Drawn id s.1 s.2 ∧ s.2 ≤ n) := by
        refine Yields.bind (yields_bodyRound h hr) (fun added hadded => Yields.pure ?_)
        exact ⟨hadded.1, by have := hadded.2; omega⟩
      refine Yields.bind hround (fun s hs => ?_)
      by_cases hstop : s.2 < n
      · rw [if_neg (not_not.2 hstop)]
        exact ih hs.1 hstop
      · rw [if_pos hstop]
        apply Yields.pure
        rw [← Nat.le_antisymm hs.2 (Nat.le_of_not_lt hstop)]
        exact hs.1

/-- Any atoms that are missing can be drawn one after the other. -/
lemma ends_bodyLoop (h : g.Offers RAND_MAX size id) (count : ℕ) {l : List BridgeAtom}
    {r : GenBridgeRule} (hl : l ≠ []) (hnodup : (l ++ r.bodyAtoms).Nodup)
    (hsub : l ⊆ g.bridgeAtoms id) :
    ∃ ds r', (∀ d ∈ ds, d ≤ RAND_MAX) ∧
      Ends (fun fuel => g.bodyLoop id (count + l.length) fuel r count) ds r' ∧
      l ++ r.bodyAtoms ⊆ r'.bodyAtoms := by
  induction l generalizing r count with
  | nil => exact absurd rfl hl
  | cons p l ih =>
      obtain ⟨hp, hsub⟩ := List.cons_subset.1 hsub
      obtain ⟨hnew, hnodup⟩ := List.nodup_cons.1 hnodup
      obtain ⟨ds, z, hds, hz, hround⟩ := ends_bodyRound h hp r
      have hnotMem : (p.1, z.natAbs) ∉ r.bodyAtoms := by
        rw [hz]
        exact fun hmem => hnew (List.mem_append_right l hmem)
      obtain ⟨hone, hperm⟩ := addUniqueBridgeAtom_of_notMem hnotMem
      rw [hz] at hperm
      have hbody : Ends (fun _ => g.bodyRound id r >>= fun added => pure (added.1, count + added.2))
          (ds ++ []) ((addUniqueBridgeAtom r p.1 z).1, count + 1) := by
        apply Ends.bind hround
        rw [hone]
        exact Ends.pure _
      rw [List.append_nil] at hbody
      by_cases hnil : l = []
      · subst hnil
        refine ⟨ds, _, hds, (isLoop_bodyLoop (count + 1)).ends_stop (s := (r, count)) hbody
          (Nat.lt_irrefl _), ?_⟩
        intro q hq
        exact hperm.mem_iff.2 hq
      · have hnodup' : (l ++ (addUniqueBridgeAtom r p.1 z).1.bodyAtoms).Nodup := by
          rw [(hperm.append_left l).nodup_iff, List.perm_middle.nodup_iff, List.nodup_cons]
          exact ⟨hnew, hnodup⟩
        obtain ⟨ds', r', hds', hrest, hmem⟩ := ih (count + 1) hnil hnodup' hsub
        rw [show count + 1 + l.length = count + (p :: l).length by
          rw [List.length_cons]; omega] at hrest
        have hlong : ¬ ¬ count + 1 < count + (p :: l).length := by
          have := List.length_pos_iff.2 hnil
          rw [not_not, List.length_cons]
          omega
        refine ⟨ds ++ ds', r', forall_append hds hds',
          (isLoop_bodyLoop _).ends_again (s := (r, count)) hbody hlong hrest, ?_⟩
        intro q hq
        apply hmem
        rw [List.mem_append, hperm.mem_iff, List.mem_cons]
        rcases List.mem_cons.1 hq with rfl | hq
        · exact Or.inr (Or.inl rfl)
        · rcases List.mem_append.1 hq with hq | hq
          · exact Or.inl hq
          · exact Or.inr (Or.inr hq)

/-- As long as there are enough atoms, some are missing. -/
lemma Drawn.exists_missing {r : GenBridgeRule} {count n : ℕ} (h : g.Drawn id r count)
    (hall : (g.bridgeAtoms id).Nodup) (hn : n ≤ (g.bridgeAtoms id).length) :
    ∃ l, l.length = n - count ∧ (l ++ r.bodyAtoms).Nodup ∧ l ⊆ g.bridgeAtoms id := by
  obtain ⟨missing, hmissing⟩ :
      ∃ l, (g.bridgeAtoms id).filter (fun p => decide (p ∉ r.bodyAtoms)) = l := ⟨_, rfl⟩
  have hmem : ∀ p, p ∈ missing ↔ p ∈ g.bridgeAtoms id ∧ p ∉ r.bodyAtoms := by
    intro p
    rw [← hmissing, List.mem_filter, decide_eq_true_eq]
  have hlen : n - count ≤ missing.length := by
    have hle : (g.bridgeAtoms id).length ≤ (missing ++ r.bodyAtoms).length := by
      apply hall.length_le_of_subset
      intro p hp
      rw [List.mem_append, hmem]
      by_cases hp' : p ∈ r.bodyAtoms
      · exact Or.inr hp'
      · exact Or.inl ⟨hp, hp'⟩
    rw [List.length_append, ← h.count_eq] at hle
    omega
  have hsub : missing.take (n - count) ⊆ missing := List.take_subset _ _
  refine ⟨missing.take (n - count), List.length_take_of_le hlen, ?_, ?_⟩
  · rw [List.nodup_append']
    refine ⟨?_, h.nodup, fun p hp => ((hmem p).1 (hsub hp)).2⟩
    rw [← hmissing]
    exact (hall.filter _).sublist (List.take_sublist _ _)
  · intro p hp
    exact ((hmem p).1 (hsub hp)).1

lemma neverStuck_bodyLoop (h : g.Offers RAND_MAX size id) (hne : g.origTopo id ≠ []) {n : ℕ}
    (hn : n ≤ (g.bridgeAtoms id).length) {r : GenBridgeRule} {count : ℕ} (hr : g.Drawn id r count)
    (hlt : count < n) :
    NeverStuck (· ≤ RAND_MAX) (fun fuel => g.bodyLoop id n fuel r count) (fun _ => True) := by
  apply NeverStuck.loop (isLoop_bodyLoop n) (s := (r, count))
    (I := fun s => g.Drawn id s.1 s.2 ∧ s.2 < n) _ _ _ ⟨hr, hlt⟩
  · intro s fuel
    rfl
  · rintro s ⟨hs, -⟩
    apply NeverStuck.bind ((neverStuck_bodyRound h hne s.1).and (fun _ => yields_bodyRound h hs))
    rintro added ⟨-, hadded, -⟩
    exact NeverStuck.pure ⟨fun _ => trivial, fun hstop => ⟨hadded, not_not.1 hstop⟩⟩
  · rintro s ⟨hs, hlt⟩
    obtain ⟨l, hlen, hnodup, hsub⟩ := hs.exists_missing h.nodup_bridgeAtoms hn
    have hl : l ≠ [] := by
      rw [← List.length_pos_iff, hlen]
      omega
    obtain ⟨ds, r', hds, hends, -⟩ := ends_bodyLoop h s.2 hl hnodup hsub
    rw [hlen, Nat.add_sub_cancel' hlt.le] at hends
    exact ⟨ds, r', hds, hends, trivial⟩

/-! ## Rules -/

lemma yields_generateBridgeRule (h : g.Offers RAND_MAX size id) (fuel : ℕ) :
    Yields (· ≤ RAND_MAX) (g.generateBridgeRule fuel id) (fun r => ∃ n ≤ 2, g.Drawn id r n) := by
  refine Yields.bind yields_rand (fun d _ => ?_)
  refine Yields.bind yields_rand (fun d' _ => ?_)
  have hbody := yields_bodyLoop h fuel (Drawn.nil [d % g.noAtoms + 1]) (Nat.succ_pos (d' % 2))
  intro ds r rest hds hr
  obtain ⟨hdrawn, hrest⟩ := hbody ds r rest hds hr
  exact ⟨⟨d' % 2 + 1, by omega, hdrawn⟩, hrest⟩

/-- With two atoms or more to choose from, a rule can always be finished. -/
lemma neverStuck_generateBridgeRule (h : g.Offers RAND_MAX size id) (hne : g.origTopo id ≠ [])
    (htwo : 2 ≤ (g.bridgeAtoms id).length) :
    NeverStuck (· ≤ RAND_MAX) (fun fuel => g.generateBridgeRule fuel id) (fun _ => True) := by
  apply NeverStuck.bind neverStuck_rand
  intro d _
  apply NeverStuck.bind neverStuck_rand
  intro d' _
  exact neverStuck_bodyLoop h hne (by omega) (Drawn.nil _) (Nat.succ_pos _)

/-- Any one or two atoms can be the body of a rule. -/
lemma ends_generateBridgeRule (h : g.Offers RAND_MAX size id) {l : List BridgeAtom} (hl : l ≠ [])
    (htwo : l.length ≤ 2) (hnodup : l.Nodup) (hsub : l ⊆ g.bridgeAtoms id) :
    ∃ ds r, (∀ d ∈ ds, d ≤ RAND_MAX) ∧ Ends (fun fuel => g.generateBridgeRule fuel id) ds r ∧
      l ⊆ r.bodyAtoms := by
  have hlen := List.length_pos_iff.2 hl
  have hnodup' : (l ++ (⟨[0 % g.noAtoms + 1], [], []⟩ : GenBridgeRule).bodyAtoms).Nodup := by
    show (l ++ []).Nodup
    rw [List.append_nil]
    exact hnodup
  obtain ⟨ds, r, hds, hends, hmem⟩ := ends_bodyLoop h 0 hl hnodup' hsub
  have hcount : 0 + l.length = (l.length - 1) % 2 + 1 := by omega
  rw [hcount] at hends
  refine ⟨[0] ++ ([l.length - 1] ++ ds), r, ?_,
    (ends_rand 0).bind ((ends_rand (l.length - 1)).bind hends),
    fun p hp => hmem (List.mem_append_left _ hp)⟩
  have hpos := h.rand_pos
  apply forall_append
  · intro d hd
    rw [List.mem_singleton.1 hd]
    exact Nat.zero_le RAND_MAX
  · apply forall_append _ hds
    intro d hd
    rw [List.mem_singleton.1 hd]
    omega

/-- The rules drawn so far: none has more than two atoms. -/
def AllDrawn (g : ContextGeneratorBase) (id : ℕ) (rules : List GenBridgeRule) : Prop :=
  ∀ r ∈ rules, ∃ n ≤ 2, g.Drawn id r n

lemma yields_rulesLoop (h : g.Offers RAND_MAX size id) (fuel i : ℕ) {rules : List GenBridgeRule}
    (hrules : g.AllDrawn id rules) : Yields (· ≤ RAND_MAX) (g.rulesLoop fuel id i rules)
      (fun rules' => rules'.length ≤ rules.length + i ∧ g.AllDrawn id rules') := by
  induction i generalizing rules with
  | zero => exact Yields.pure ⟨Nat.le_refl _, hrules⟩
  | succ i ih =>
      refine Yields.bind yields_rand (fun d _ => ?_)
      show Yields _ (if _ then _ else _) _
      split
      · refine Yields.bind (yields_generateBridgeRule h fuel) (fun r hr => ?_)
        have hrules' : g.AllDrawn id (rules ++ [r]) := by
          intro r' hr'
          rcases List.mem_append.1 hr' with hr' | hr'
          · exact hrules r' hr'
          · rw [List.mem_singleton.1 hr']
            exact hr
        have hrest := ih hrules'
        rw [List.length_append, List.length_singleton, Nat.add_assoc, Nat.add_comm 1 i] at hrest
        exact hrest
      · intro ds rules' rest hds hrun
        obtain ⟨⟨hlen, hall⟩, hrest⟩ := ih hrules ds rules' rest hds hrun
        exact ⟨⟨hlen.trans (Nat.le_succ _), hall⟩, hrest⟩

lemma neverStuck_rulesLoop (h : g.Offers RAND_MAX size id) (hne : g.origTopo id ≠ [])
    (htwo : 2 ≤ (g.bridgeAtoms id).length) (i : ℕ) (rules : List GenBridgeRule) :
    NeverStuck (· ≤ RAND_MAX) (fun fuel => g.rulesLoop fuel id i rules) (fun _ => True) := by
  induction i generalizing rules with
  | zero => exact NeverStuck.pure trivial
  | succ i ih =>
      apply NeverStuck.bind neverStuck_rand
      intro d _
      by_cases hodd : d % 2 ≠ 0
      · simp only [if_pos hodd]
        apply NeverStuck.bind (neverStuck_generateBridgeRule h hne htwo)
        intro r _
        exact ih (rules ++ [r])
      · simp only [if_neg hodd]
        exact ih rules

/-- A rule for one or two neighbors. -/
lemma ends_generateBridgeRule_mentioning (h : g.Offers RAND_MAX size id) {t : List ℕ} (ht : t ≠ [])
    (htwo : t.length ≤ 2) (hnodup : t.Nodup) (hsub : t ⊆ g.origTopo id) :
    ∃ ds r, (∀ d ∈ ds, d ≤ RAND_MAX) ∧ Ends (fun fuel => g.generateBridgeRule fuel id) ds r ∧
      ∀ c ∈ t, ∃ a ∈ r.bodyAtoms, a.1 = c := by
  obtain ⟨first, hfirst⟩ : ∃ first : ℕ → BridgeAtom,
      first = fun c => (c, (g.contextInterfaces c).headD 0) := ⟨_, rfl⟩
  have hmem : ∀ c ∈ t, first c ∈ g.bridgeAtoms id := by
    intro c hc
    obtain ⟨a, l, hl⟩ := List.exists_cons_of_ne_nil (h.interface_ne_nil (hsub hc))
    rw [hfirst, mem_bridgeAtoms]
    refine ⟨hsub hc, ?_⟩
    simp only [hl, List.headD_cons]
    exact List.mem_cons_self
  have hmap : t.map first ≠ [] := fun hnil => ht (List.map_eq_nil_iff.1 hnil)
  have hmapNodup : (t.map first).Nodup := by
    rw [hfirst]
    exact hnodup.map (fun a b hab => (Prod.mk.inj hab).1)
  obtain ⟨ds, r, hds, hends, hr⟩ := ends_generateBridgeRule h hmap
    (by rw [List.length_map]; exact htwo) hmapNodup (by
      intro p hp
      obtain ⟨c, hc, rfl⟩ := List.mem_map.1 hp
      exact hmem c hc)
  refine ⟨ds, r, hds, hends, fun c hc => ⟨first c, hr (List.mem_map_of_mem hc), ?_⟩⟩
  rw [hfirst]

/-- Rules with two atoms each mention all contexts of a list that is twice as long. -/
lemma ends_rulesLoop (h : g.Offers RAND_MAX size id) {t : List ℕ} (hnodup : t.Nodup)
    (hsub : t ⊆ g.origTopo id) {i : ℕ} (hi : t.length ≤ 2 * i) (rules : List GenBridgeRule) :
    ∃ ds rules', (∀ d ∈ ds, d ≤ RAND_MAX) ∧
      Ends (fun fuel => g.rulesLoop fuel id i rules) ds rules' ∧ rules ⊆ rules' ∧
      ∀ c ∈ t, ∃ r ∈ rules', ∃ a ∈ r.bodyAtoms, a.1 = c := by
  induction i generalizing t rules with
  | zero =>
      obtain rfl : t = [] := List.eq_nil_of_length_eq_zero (by omega)
      exact ⟨[], rules, fun d hd => absurd hd List.not_mem_nil, Ends.pure rules,
        List.Subset.refl rules, fun c hc => absurd hc List.not_mem_nil⟩
  | succ i ih =>
      have hdrop : (t.drop 2).length ≤ 2 * i := by
        rw [List.length_drop]
        omega
      have hdropNodup : (t.drop 2).Nodup := hnodup.sublist (List.drop_sublist 2 t)
      have hdropSub : t.drop 2 ⊆ g.origTopo id := fun c hc => hsub (List.mem_of_mem_drop hc)
      by_cases ht : t = []
      · -- no context is left, and no rule is drawn
        obtain ⟨ds, rules', hds, hends, hkeep, -⟩ := ih hdropNodup hdropSub hdrop rules
        have hskip : Ends (fun fuel => g.rulesLoop fuel id (i + 1) rules) ([0] ++ ds) rules' := by
          apply Ends.bind (ends_rand 0)
          simp only [Nat.zero_mod, ne_eq, not_true_eq_false, if_false]
          exact hends
        refine ⟨[0] ++ ds, rules', forall_append ?_ hds, hskip, hkeep, ?_⟩
        · intro d hd
          rw [List.mem_singleton.1 hd]
          exact Nat.zero_le RAND_MAX
        · rw [ht]
          exact fun c hc => absurd hc List.not_mem_nil
      · -- a rule for the next one or two contexts
        have htake : t.take 2 ≠ [] := by
          rw [ne_eq, List.take_eq_nil_iff]
          exact fun hnil => hnil.elim (fun h => absurd h (by decide)) ht
        obtain ⟨ds, r, hds, hends, hr⟩ := ends_generateBridgeRule_mentioning h htake
          (List.length_take_le 2 t) (hnodup.sublist (List.take_sublist 2 t))
          (fun c hc => hsub (List.mem_of_mem_take hc))
        obtain ⟨ds', rules', hds', hends', hkeep, hcover⟩ :=
          ih hdropNodup hdropSub hdrop (rules ++ [r])
        have hdraw : Ends (fun fuel => g.rulesLoop fuel id (i + 1) rules) ([1] ++ (ds ++ ds'))
            rules' := by
          apply Ends.bind (ends_rand 1)
          simp only [Nat.one_mod, ne_eq, Nat.one_ne_zero, not_false_eq_true, if_true]
          exact hends.bind hends'
        refine ⟨[1] ++ (ds ++ ds'), rules', forall_append ?_ (forall_append hds hds'), hdraw,
          ?_, ?_⟩
        · intro d hd
          rw [List.mem_singleton.1 hd]
          exact h.rand_pos
        · exact fun r' hr' => hkeep (List.mem_append_left [r] hr')
        · intro c hc
          rw [← List.take_append_drop 2 t] at hc
          rcases List.mem_append.1 hc with hc | hc
          · exact ⟨r, hkeep (List.mem_append_right rules (List.mem_singleton_self r)), hr c hc⟩
          · exact hcover c hc

/-! ## Whole lists -/

/-- Counting the contexts is enough, because only neighbors are drawn. -/
lemma coverNeighbors_iff (hnodup : (g.origTopo id).Nodup) {rules : List GenBridgeRule}
    (hrules : g.AllDrawn id rules) : g.coverNeighbors id rules = true ↔
      ∀ c ∈ g.origTopo id, ∃ r ∈ rules, ∃ a ∈ r.bodyAtoms, a.1 = c := by
  obtain ⟨contexts, hcontexts⟩ :
      ∃ l, ((rules.flatMap GenBridgeRule.bodyAtoms).map Prod.fst).dedup = l := ⟨_, rfl⟩
  have hmem : ∀ c, c ∈ contexts ↔ ∃ r ∈ rules, ∃ a ∈ r.bodyAtoms, a.1 = c := by
    intro c
    rw [← hcontexts, List.mem_dedup, List.mem_map]
    constructor
    · rintro ⟨a, ha, rfl⟩
      obtain ⟨r, hr, ha⟩ := List.mem_flatMap.1 ha
      exact ⟨r, hr, a, ha, rfl⟩
    · rintro ⟨r, hr, a, ha, rfl⟩
      exact ⟨a, List.mem_flatMap.2 ⟨r, hr, ha⟩, rfl⟩
  have hsub : contexts ⊆ g.origTopo id := by
    intro c hc
    obtain ⟨r, hr, a, ha, rfl⟩ := (hmem c).1 hc
    obtain ⟨n, -, hdrawn⟩ := hrules r hr
    exact (mem_bridgeAtoms.1 (hdrawn.subset ha)).1
  have hcontextsNodup : contexts.Nodup := by
    rw [← hcontexts]
    exact List.nodup_dedup _
  unfold coverNeighbors
  rw [hcontexts, decide_eq_true_eq]
  constructor
  · intro hlen c hc
    rw [← hmem]
    have hperm := (List.subperm_of_subset hcontextsNodup hsub).perm_of_length_le hlen.ge
    exact hperm.mem_iff.2 hc
  · intro hall
    apply Nat.le_antisymm (hcontextsNodup.length_le_of_subset hsub)
    exact hnodup.length_le_of_subset (fun c hc => (hmem c).2 (hall c hc))

/-- The outer loop draws lists until one covers the neighbors. -/
lemma isLoop_generateBridgeRuleList :
    IsLoop (fun fuel (_ : List GenBridgeRule) => g.generateBridgeRuleList id fuel)
      (fun _ fuel => g.rulesLoop fuel id g.noBridgeRules [])
      (fun rules => g.coverNeighbors id rules = true) (fun rules => rules) := fun _ _ => rfl

lemma allDrawn_nil : g.AllDrawn id [] := fun _ hr => absurd hr List.not_mem_nil

lemma yields_generateBridgeRuleList (h : g.Offers RAND_MAX size id) (fuel : ℕ) :
    Yields (· ≤ RAND_MAX) (g.generateBridgeRuleList id fuel)
      (fun rules => rules.length ≤ g.noBridgeRules ∧ g.AllDrawn id rules) := by
  induction fuel with
  | zero => exact Yields.failure
  | succ fuel ih =>
      refine Yields.bind (yields_rulesLoop h fuel g.noBridgeRules allDrawn_nil)
        (fun rules hrules => ?_)
      rw [List.length_nil, Nat.zero_add] at hrules
      split
      · exact Yields.pure hrules
      · exact ih

lemma canFinish_of_le (h : g.Offers RAND_MAX size id) (hne : g.origTopo id ≠ [])
    (hrules : 0 < g.noBridgeRules) (htwo : 2 ≤ (g.bridgeAtoms id).length)
    (henough : (g.origTopo id).length ≤ 2 * g.noBridgeRules) : g.CanFinish RAND_MAX id := by
  have hnever : NeverStuck (· ≤ RAND_MAX) (fun fuel => g.generateBridgeRuleList id fuel)
      (fun rules => g.coverNeighbors id rules = true) := by
    apply NeverStuck.loop isLoop_generateBridgeRuleList (s := []) (I := fun _ => True) _ _ _ trivial
    · intro _ fuel
      obtain ⟨n, hn⟩ := Nat.exists_eq_succ_of_ne_zero hrules.ne'
      rw [hn]
      rfl
    · intro _ _
      exact (neverStuck_rulesLoop h hne htwo g.noBridgeRules []).mono
        (fun rules _ => ⟨fun hcover => hcover, fun _ => trivial⟩)
    · intro _ _
      obtain ⟨ds, rules, hds, hends, -, hcover⟩ :=
        ends_rulesLoop h h.nodup (List.Subset.refl _) henough []
      have hall := hends.yields
        (fun fuel => yields_rulesLoop h fuel g.noBridgeRules allDrawn_nil) hds
      have hcover' := (coverNeighbors_iff h.nodup hall.2).2 hcover
      exact ⟨ds, rules, hds, isLoop_generateBridgeRuleList.ends_stop (s := []) hends hcover',
        hcover'⟩
  intro ds hds
  obtain ⟨ds', hds', fuel, rules, rest, hrun, hcover, -, hall⟩ :=
    (hnever.and (yields_generateBridgeRuleList h)).run hds
  exact ⟨ds', hds', fuel, rules, rest, hrun, (coverNeighbors_iff h.nodup hall).1 hcover⟩

/-- A rule that is to have two atoms where there is only one is never finished. -/
lemma CanFinish.two_le (h : g.Offers RAND_MAX size id) (hrules : 0 < g.noBridgeRules)
    (hfinish : g.CanFinish RAND_MAX id) : 2 ≤ (g.bridgeAtoms id).length := by
  by_contra hfew
  obtain ⟨n, hn⟩ := Nat.exists_eq_succ_of_ne_zero hrules.ne'
  have hallowed : ∀ d ∈ [1, 0, 1], d ≤ RAND_MAX := by
    have := h.rand_pos
    intro d hd
    simp only [List.mem_cons, List.not_mem_nil, or_false] at hd
    omega
  obtain ⟨ds, hds, fuel, rules, rest, hrun, -⟩ := hfinish [1, 0, 1] hallowed
  have hbody : ∀ fuel, g.bodyLoop id 2 fuel ⟨[0 % g.noAtoms + 1], [], []⟩ 0 ds = none := by
    intro fuel
    rw [Option.eq_none_iff_forall_ne_some]
    rintro ⟨r, rest⟩ hr
    have hdrawn := (yields_bodyLoop h fuel (Drawn.nil [0 % g.noAtoms + 1])
      Nat.two_pos ds r rest hds hr).1
    exact hfew hdrawn.count_le
  cases fuel with
  | zero => exact Option.some_ne_none _ hrun.symm
  | succ fuel =>
      change Option.bind (g.rulesLoop fuel id g.noBridgeRules [] (1 :: 0 :: 1 :: ds)) _ = _ at hrun
      rw [hn] at hrun
      change Option.bind (Option.bind (g.bodyLoop id 2 fuel ⟨[0 % g.noAtoms + 1], [], []⟩ 0 ds) _) _
        = _ at hrun
      rw [hbody] at hrun
      exact Option.some_ne_none _ hrun.symm

/-- Rules with two atoms at most do not mention more than twice as many contexts. -/
lemma CanFinish.le_two_mul (h : g.Offers RAND_MAX size id) (hfinish : g.CanFinish RAND_MAX id) :
    (g.origTopo id).length ≤ 2 * g.noBridgeRules := by
  obtain ⟨ds, hds, fuel, rules, rest, hrun, hcover⟩ :=
    hfinish [] (fun d hd => absurd hd List.not_mem_nil)
  obtain ⟨⟨hlen, hall⟩, -⟩ := yields_generateBridgeRuleList h fuel ds rules rest hds hrun
  have hsub : g.origTopo id ⊆ (rules.flatMap GenBridgeRule.bodyAtoms).map Prod.fst := by
    intro c hc
    obtain ⟨r, hr, a, ha, rfl⟩ := hcover c hc
    exact List.mem_map_of_mem (List.mem_flatMap.2 ⟨r, hr, ha⟩)
  have hatoms : ∀ rules : List GenBridgeRule, g.AllDrawn id rules →
      (rules.flatMap GenBridgeRule.bodyAtoms).length ≤ 2 * rules.length := by
    intro rules
    induction rules with
    | nil => exact fun _ => Nat.le_refl 0
    | cons r rules ih =>
        intro hall
        obtain ⟨⟨n, hn, hdrawn⟩, hrest⟩ := List.forall_mem_cons.1 hall
        rw [List.flatMap_cons, List.length_append, List.length_cons, ← hdrawn.count_eq]
        have := ih hrest
        omega
  have hle := h.nodup.length_le_of_subset hsub
  rw [List.length_map] at hle
  have := hatoms rules hall
  omega

lemma canFinish_iff (h : g.Offers RAND_MAX size id) (hne : g.origTopo id ≠ [])
    (hrules : 0 < g.noBridgeRules) : g.CanFinish RAND_MAX id ↔
      2 ≤ (g.origTopo id).length * size ∧ (g.origTopo id).length ≤ 2 * g.noBridgeRules := by
  rw [← h.length_bridgeAtoms]
  constructor
  · intro hfinish
    exact ⟨CanFinish.two_le h hrules hfinish, CanFinish.le_two_mul h hfinish⟩
  · rintro ⟨htwo, henough⟩
    exact canFinish_of_le h hne hrules htwo henough

end ContextGeneratorBase

end Dmcs
