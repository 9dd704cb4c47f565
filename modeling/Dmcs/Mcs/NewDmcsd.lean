import Dmcs.Parser.BridgeRuleReuse
import Dmcs.Parser.PlanReuse
import Mathlib.Data.List.Sort

/-!
# The start of a daemon (`new_dmcsd`)

A daemon that is given an optimal query plan divides the neighbors its bridge rules name into
physical ones, which it asks, and guessing ones, whose beliefs it guesses: a neighbor is physical if
the optimal plan has an input signature for it.

Both query plans are read by one parser object, the optimal one first.  The two pointers it returns
are the same, so the division looks into the optimal plan completed by the plain one, and so does
the parser of bridge rules, which wants an input signature for every neighbor it meets.

## The argument

The division goes through the neighbours that the parser of bridge rules has collected and looks
each one up in the plan.  So which neighbours are physical depends on the plan alone, and the order
is that of the list (`divide`, `Divides`).

Since one parser object reads both plans, the plan it looks into is the optimal plan merged with the
plain one (`PlanReuse`).  The division is the intended one if and only if no neighbour has an input
signature in the plain plan only: this is the condition of `startup_divides_iff`, for all plans and
rules that are accepted.
-/

namespace Dmcs

namespace NewDmcsd

open Qi BaseParser Reuse QueryPlanGrammar BridgeRuleGrammar

/-! ## The division of the neighbors -/

/-- A context a plan has an input signature for. -/
def HasInputSignature (plan : List (ℕ × ContextQueryPlan)) (c : ℕ) : Prop :=
  ∃ qp, plan.lookup c = some qp ∧ qp.groundInputSignature.isSome = true

/-- The search for a neighbor with the id of an entry; the first one found is moved. -/
def moveNeighbor (id : ℕ) (lists : List NewNeighbor × List NewNeighbor) :
    List NewNeighbor × List NewNeighbor :=
  match lists.2.find? (fun n => n.neighbor_id = id) with
  | some neighbor =>
      (lists.1 ++ [neighbor], lists.2.eraseP (fun n => n.neighbor_id = id))
  | none => lists

/-- The loop over a query plan, in the order of the ids: the physical neighbors, and the guessing
ones that are left. -/
def divide (plan : List (ℕ × ContextQueryPlan)) (neighbors : List NewNeighbor) :
    List NewNeighbor × List NewNeighbor :=
  (plan.insertionSort (fun e e' => e.1 ≤ e'.1)).foldl
    (fun lists e => if e.2.groundInputSignature.isSome then moveNeighbor e.1 lists else lists)
    ([], neighbors)

/-- The offsets of a list of neighbors, counted from `first`. -/
def assignOffsets (first : ℕ) (neighbors : List NewNeighbor) : List NewNeighbor :=
  (neighbors.zipIdx first).map (fun p => { p.1 with neighbor_offset := p.2 })

/-- What the start computes before it builds the context: the physical and the guessing neighbors,
`none` for the null pointer.  The plain plan must have an entry of the context itself. -/
def startup (myid : ℕ) (opt_query_plan : Option Text) (query_plan bridge_rules : Text) :
    Except ParseError (List NewNeighbor × Option (List NewNeighbor)) := do
  let mgr ← match opt_query_plan with
    | some text => QueryPlanGrammar.parser.call (text ++ ['\n']) QueryPlanGrammar.parser.init
    | none => .ok QueryPlanGrammar.parser.init
  let mgr ← QueryPlanGrammar.parser.call (query_plan ++ ['\n']) mgr
  let queryplan_map := QueryPlanGrammar.parser.result mgr
  match queryplan_map.lookup myid with
  | none => .error .aborted
  | some _ => do
      let ret_val ← BridgeRuleGrammar.parseStream queryplan_map myid bridge_rules
      match opt_query_plan with
      | some _ =>
          -- the pointer to the optimal plan is the one to the plan that was read last
          let lists := divide queryplan_map ret_val.2
          .ok (assignOffsets 0 lists.1, some (assignOffsets lists.1.length lists.2))
      | none => .ok (ret_val.2, none)

/-- The neighbors that have an input signature in the optimal plan become physical, the others are
guessed; nobody is lost or counted twice, and the offsets number the physical ones first. -/
def Divides (opt : List (ℕ × ContextQueryPlan)) (neighbors : List NewNeighbor)
    (result : Except ParseError (List NewNeighbor × Option (List NewNeighbor))) : Prop :=
  ∃ physical guessing, result = .ok (physical, some guessing) ∧
    (∀ c, c ∈ physical.map NewNeighbor.neighbor_id ↔
      c ∈ neighbors.map NewNeighbor.neighbor_id ∧ HasInputSignature opt c) ∧
    (∀ c, c ∈ guessing.map NewNeighbor.neighbor_id ↔
      c ∈ neighbors.map NewNeighbor.neighbor_id ∧ ¬ HasInputSignature opt c) ∧
    ((physical ++ guessing).map NewNeighbor.neighbor_id).Perm
      (neighbors.map NewNeighbor.neighbor_id) ∧
    (physical ++ guessing).map NewNeighbor.neighbor_offset = List.range neighbors.length

/-! ### The loop -/

section Division

variable {plan : List (ℕ × ContextQueryPlan)} {ns : List NewNeighbor}

lemma eraseP_eq_filter (hns : (ns.map NewNeighbor.neighbor_id).Nodup) (id : ℕ) :
    ns.eraseP (fun n => n.neighbor_id = id) = ns.filter (fun n => n.neighbor_id ≠ id) := by
  induction ns with
  | nil => rfl
  | cons n ns ih =>
      rw [List.map_cons, List.nodup_cons] at hns
      by_cases hn : n.neighbor_id = id
      · have hall : ∀ m ∈ ns, m.neighbor_id ≠ id := by
          rintro m hm rfl
          rw [hn] at hns
          exact hns.1 (List.mem_map_of_mem hm)
        rw [List.eraseP_cons_of_pos (by simpa using hn),
          List.filter_cons_of_neg (by simpa using hn)]
        exact (List.filter_eq_self.2 (by simpa using hall)).symm
      · rw [List.eraseP_cons_of_neg (by simpa using hn),
          List.filter_cons_of_pos (by simpa using hn),
          ih hns.2]

lemma find?_toList_eq_filter (hns : (ns.map NewNeighbor.neighbor_id).Nodup) (id : ℕ) :
    (ns.find? (fun n => n.neighbor_id = id)).toList = ns.filter (fun n => n.neighbor_id = id) := by
  induction ns with
  | nil => rfl
  | cons n ns ih =>
      rw [List.map_cons, List.nodup_cons] at hns
      by_cases hn : n.neighbor_id = id
      · have hnone : ∀ m ∈ ns, m.neighbor_id ≠ id := by
          rintro m hm rfl
          rw [hn] at hns
          exact hns.1 (List.mem_map_of_mem hm)
        rw [List.find?_cons_of_pos (by simpa using hn), List.filter_cons_of_pos (by simpa using hn),
          List.filter_eq_nil_iff.2 (by simpa using hnone)]
        rfl
      · rw [List.find?_cons_of_neg (by simpa using hn), List.filter_cons_of_neg (by simpa using hn),
          ih hns.2]

/-- Moving the neighbor with an id: at most one has it. -/
lemma moveNeighbor_eq {ph : List NewNeighbor} (hns : (ns.map NewNeighbor.neighbor_id).Nodup)
    (id : ℕ) : moveNeighbor id (ph, ns) =
      (ph ++ ns.filter (fun n => n.neighbor_id = id), ns.filter (fun n => n.neighbor_id ≠ id)) := by
  rw [← eraseP_eq_filter hns, ← find?_toList_eq_filter hns]
  unfold moveNeighbor
  cases hfind : ns.find? (fun n => n.neighbor_id = id) with
  | none =>
      have hkeep : ns.eraseP (fun n => n.neighbor_id = id) = ns :=
        List.eraseP_of_forall_not (fun n hn => by simpa using List.find?_eq_none.1 hfind n hn)
      simp [hkeep]
  | some n => rfl

/-- The ids of the entries with an input signature. -/
def inputIds (es : List (ℕ × ContextQueryPlan)) : List ℕ :=
  (es.filter (fun e => e.2.groundInputSignature.isSome)).map Prod.fst

lemma mem_inputIds (hplan : (plan.map Prod.fst).Nodup) {c : ℕ} :
    c ∈ inputIds (plan.insertionSort (fun e e' => e.1 ≤ e'.1)) ↔ HasInputSignature plan c := by
  unfold inputIds HasInputSignature
  rw [List.mem_map]
  constructor
  · rintro ⟨⟨c, qp⟩, he, rfl⟩
    rw [List.mem_filter, List.mem_insertionSort] at he
    exact ⟨qp, (lookup_eq_some_iff_mem hplan).2 he.1, he.2⟩
  · rintro ⟨qp, hqp, hinput⟩
    refine ⟨(c, qp), ?_, rfl⟩
    rw [List.mem_filter, List.mem_insertionSort]
    exact ⟨(lookup_eq_some_iff_mem hplan).1 hqp, hinput⟩

/-- The loop takes the neighbors whose ids it meets out of the second list. -/
lemma foldl_moveNeighbor (es : List (ℕ × ContextQueryPlan)) (ph : List NewNeighbor)
    (hns : (ns.map NewNeighbor.neighbor_id).Nodup) :
    ∃ moved, es.foldl (fun lists e =>
        if e.2.groundInputSignature.isSome then moveNeighbor e.1 lists else lists) (ph, ns) =
      (ph ++ moved, ns.filter (fun n => n.neighbor_id ∉ inputIds es)) ∧
      moved.Perm (ns.filter (fun n => n.neighbor_id ∈ inputIds es)) := by
  induction es generalizing ph ns with
  | nil => exact ⟨[], by simp [inputIds], by simp [inputIds]⟩
  | cons e es ih =>
      rw [List.foldl_cons]
      by_cases he : e.2.groundInputSignature.isSome = true
      · have hids : inputIds (e :: es) = e.1 :: inputIds es := by simp [inputIds, he]
        have hrest : ((ns.filter (fun n => n.neighbor_id ≠ e.1)).map
            NewNeighbor.neighbor_id).Nodup := hns.sublist (List.filter_sublist.map _)
        rw [if_pos he, moveNeighbor_eq hns]
        obtain ⟨moved, hfold, hperm⟩ := ih (ph ++ ns.filter (fun n => n.neighbor_id = e.1)) hrest
        refine ⟨ns.filter (fun n => n.neighbor_id = e.1) ++ moved, ?_, ?_⟩
        · rw [hfold, hids, List.append_assoc, List.filter_filter]
          congr 1
          apply List.filter_congr
          intro n _
          by_cases hn : n.neighbor_id = e.1
          · simp [hn]
          · simp [hn]
        · -- the moved ones are those with the id of the entry and those moved later
          have hsplit :=
            List.filter_append_perm (fun n : NewNeighbor => decide (n.neighbor_id = e.1))
            (ns.filter (fun n => n.neighbor_id ∈ inputIds (e :: es)))
          rw [List.filter_filter, List.filter_filter] at hsplit
          refine List.Perm.trans ?_ hsplit
          apply List.Perm.append
          · rw [hids]
            apply List.Perm.of_eq
            apply List.filter_congr
            intro n _
            by_cases hn : n.neighbor_id = e.1
            · simp [hn]
            · simp [hn]
          · refine hperm.trans (List.Perm.of_eq ?_)
            rw [hids, List.filter_filter]
            apply List.filter_congr
            intro n _
            by_cases hn : n.neighbor_id = e.1
            · simp [hn]
            · simp [hn]
      · have hids : inputIds (e :: es) = inputIds es := by simp [inputIds, he]
        rw [if_neg he, hids]
        exact ih ph hns

/-- The division by a plan. -/
lemma divide_spec (hplan : (plan.map Prod.fst).Nodup)
    (hns : (ns.map NewNeighbor.neighbor_id).Nodup) :
    (∀ n, n ∈ (divide plan ns).1 ↔ n ∈ ns ∧ HasInputSignature plan n.neighbor_id) ∧
    (∀ n, n ∈ (divide plan ns).2 ↔ n ∈ ns ∧ ¬ HasInputSignature plan n.neighbor_id) ∧
    ((divide plan ns).1 ++ (divide plan ns).2).Perm ns := by
  obtain ⟨moved, hfold, hperm⟩ :=
    foldl_moveNeighbor (plan.insertionSort (fun e e' => e.1 ≤ e'.1)) [] hns
  unfold divide
  rw [hfold, List.nil_append]
  refine ⟨fun n => ?_, fun n => ?_, ?_⟩
  · rw [hperm.mem_iff, List.mem_filter, decide_eq_true_iff, mem_inputIds hplan]
  · rw [List.mem_filter, decide_eq_true_iff, mem_inputIds hplan]
  · have hsplit := List.filter_append_perm (fun n : NewNeighbor => decide (n.neighbor_id ∈
      inputIds (plan.insertionSort (fun e e' => e.1 ≤ e'.1)))) ns
    refine (hperm.append_right _).trans (List.Perm.trans (List.Perm.of_eq ?_) hsplit)
    congr 1
    apply List.filter_congr
    intro n _
    simp

lemma assignOffsets_ids (first : ℕ) :
    (assignOffsets first ns).map NewNeighbor.neighbor_id = ns.map NewNeighbor.neighbor_id := by
  unfold assignOffsets
  rw [List.map_map]
  induction ns generalizing first with
  | nil => rfl
  | cons n ns ih =>
      rw [List.zipIdx_cons, List.map_cons, List.map_cons, ih]
      rfl

lemma assignOffsets_offsets (first : ℕ) :
    (assignOffsets first ns).map NewNeighbor.neighbor_offset = List.range' first ns.length := by
  unfold assignOffsets
  rw [List.map_map]
  induction ns generalizing first with
  | nil => rfl
  | cons n ns ih =>
      rw [List.zipIdx_cons, List.map_cons, ih, List.length_cons, List.range'_succ]
      rfl

end Division

/-! ## The bridge rules against two plans -/

section Neighbors

variable {plan plan' : List (ℕ × ContextQueryPlan)} {ctxID : ℕ}

/-- Two runs over one file of bridge rules have met the same contexts, and the plan of the second
has an input signature for each of them. -/
structure SameNeighbors (plan' : List (ℕ × ContextQueryPlan)) (s t : BridgeRuleGrammar.Semantics) :
    Prop where
  ids_eq : t.neighborIDs = s.neighborIDs
  ids_first : s.neighbors.map NewNeighbor.neighbor_id = s.neighborIDs
  ids_second : t.neighbors.map NewNeighbor.neighbor_id = t.neighborIDs
  nodup : t.neighborIDs.Nodup
  input : ∀ c ∈ t.neighborIDs, HasInputSignature plan' c

lemma SameNeighbors.meet {s t : BridgeRuleGrammar.Semantics} (h : SameNeighbors plan' s t) {c : ℕ}
    {qp qp' : ContextQueryPlan} (hinput : c ≠ ctxID → HasInputSignature plan' c) :
    SameNeighbors plan' (meet ctxID c qp s) (meet ctxID c qp' t) := by
  unfold BridgeRuleGrammar.meet
  rw [h.ids_eq]
  by_cases hmet : c = ctxID ∨ c ∈ s.neighborIDs
  · rw [if_pos hmet, if_pos hmet]
    exact h
  · rw [if_neg hmet, if_neg hmet]
    rw [not_or] at hmet
    constructor
    · simp
    · simp [h.ids_first]
    · simp [h.ids_second, h.ids_eq]
    · show (s.neighborIDs ++ [c]).Nodup
      rw [← List.concat_eq_append]
      exact List.Nodup.concat hmet.2 (h.ids_eq ▸ h.nodup)
    · intro d hd
      rcases List.mem_append.1 hd with hd | hd
      · exact h.input d (h.ids_eq ▸ hd)
      · rw [List.mem_singleton.1 hd]
        exact hinput hmet.1

lemma sameNeighbors_actionsAgree (plan plan' : List (ℕ × ContextQueryPlan)) (ctxID : ℕ) :
    ActionsAgree plan plan' ctxID (SameNeighbors plan') (fun _ _ => True) where
  atom source s t s' t' c d hst hs ht := by
    obtain ⟨qp, table, -, -, -, rfl⟩ := getBridgeAtom_eq_some.1 hs
    obtain ⟨qp', table', hqp', htable', -, rfl⟩ := getBridgeAtom_eq_some.1 ht
    refine ⟨hst.meet (fun hne => ⟨qp', hqp', ?_⟩), trivial⟩
    rw [if_neg hne] at htable'
    rw [htable']
    rfl
  literal _ _ _ _ _ _ _ _ := trivial
  rule head body body' s t s' t' u u' hst _ hs ht := by
    obtain ⟨-, -, rules, -, -, -, rfl⟩ := getBridgeRule_eq_some hs
    obtain ⟨-, -, rules', -, -, -, rfl⟩ := getBridgeRule_eq_some ht
    exact ⟨hst.ids_eq, hst.ids_first, hst.ids_second, hst.nodup, hst.input⟩

/-- Whatever the plan, a file that is accepted names the same neighbors, each once and each with an
input signature in the plan. -/
lemma neighbors_of_parseStream {bridge_rules : Text} {v w : BridgeRuleTable × List NewNeighbor}
    (hv : BridgeRuleGrammar.parseStream plan ctxID bridge_rules = .ok v)
    (hw : BridgeRuleGrammar.parseStream plan' ctxID bridge_rules = .ok w) :
    w.2.map NewNeighbor.neighbor_id = v.2.map NewNeighbor.neighbor_id ∧
      (w.2.map NewNeighbor.neighbor_id).Nodup ∧
      ∀ n ∈ w.2, HasInputSignature plan' n.neighbor_id := by
  obtain ⟨s, hs, rfl⟩ := Reusable.alone_eq_ok (o := BridgeRuleGrammar.parser plan ctxID) |>.1 hv
  obtain ⟨t, ht, rfl⟩ := Reusable.alone_eq_ok (o := BridgeRuleGrammar.parser plan' ctxID) |>.1 hw
  have hinit : SameNeighbors plan' BridgeRuleGrammar.Semantics.init
      BridgeRuleGrammar.Semantics.init :=
    ⟨rfl, rfl, rfl, List.nodup_nil, fun c hc => absurd hc List.not_mem_nil⟩
  have hcall : phraseParse skip (BridgeRuleGrammar.start plan' ctxID) (bridge_rules ++ ['\n'])
      BridgeRuleGrammar.Semantics.init = .ok t := ht
  rcases phraseParse_follows (sameNeighbors_actionsAgree plan plan' ctxID).start hinit hs with
    ⟨-, habort⟩ | ⟨t', ht', hsame⟩
  · rw [hcall] at habort
    cases habort
  · rw [hcall] at ht'
    cases ht'
    refine ⟨?_, ?_, ?_⟩
    · exact hsame.ids_second.trans (hsame.ids_eq.trans hsame.ids_first.symm)
    · exact hsame.ids_second ▸ hsame.nodup
    · intro n hn
      apply hsame.input
      rw [← hsame.ids_second]
      exact List.mem_map_of_mem hn

end Neighbors

/-! ## The whole start -/

section Startup

variable {myid : ℕ} {opt_query_plan query_plan bridge_rules : Text}
  {O P : List (ℕ × ContextQueryPlan)} {rules : BridgeRuleTable} {N : List NewNeighbor}

/-- The second plan is read into the map of the first. -/
lemma call_opt (hopt : QueryPlanGrammar.parseStream opt_query_plan = .ok O)
    (hplan : QueryPlanGrammar.parseStream query_plan = .ok P) :
    ∃ mgr mgr', QueryPlanGrammar.parser.call (opt_query_plan ++ ['\n'])
        QueryPlanGrammar.parser.init = .ok mgr ∧
      QueryPlanGrammar.parser.call (query_plan ++ ['\n']) mgr = .ok mgr' ∧
      QueryPlanGrammar.parser.result mgr = O ∧
      QueryPlanGrammar.parser.result mgr' = mergeMaps O P := by
  obtain ⟨mgr, hmgr, rfl⟩ := Reusable.alone_eq_ok (o := QueryPlanGrammar.parser) |>.1 hopt
  obtain ⟨mgr', hmgr', hresult⟩ :=
    (QueryPlanGrammar.accumulates eq_equivalence).call_eq _ _ hplan mgr
  exact ⟨mgr, mgr', hmgr, hmgr', rfl, hresult⟩

lemma startup_eq (hopt : QueryPlanGrammar.parseStream opt_query_plan = .ok O)
    (hplan : QueryPlanGrammar.parseStream query_plan = .ok P) (hown : P.lookup myid ≠ none) :
    startup myid (some opt_query_plan) query_plan bridge_rules =
      (BridgeRuleGrammar.parseStream (mergeMaps O P) myid bridge_rules).map (fun ret_val =>
        (assignOffsets 0 (divide (mergeMaps O P) ret_val.2).1,
          some (assignOffsets (divide (mergeMaps O P) ret_val.2).1.length
            (divide (mergeMaps O P) ret_val.2).2))) := by
  obtain ⟨mgr, mgr', hmgr, hmgr', -, hresult⟩ := call_opt hopt hplan
  have hlookup : (mergeMaps O P).lookup myid ≠ none := by
    rw [lookup_mergeMaps]
    cases O.lookup myid with
    | none => exact hown
    | some qp => exact Option.some_ne_none qp
  unfold startup
  simp only [hmgr]
  show (QueryPlanGrammar.parser.call (query_plan ++ ['\n']) mgr >>= _) = _
  rw [hmgr']
  show (match (QueryPlanGrammar.parser.result mgr').lookup myid with | none => _ | some _ => _) = _
  rw [hresult]
  cases hqp : (mergeMaps O P).lookup myid with
  | none => exact absurd hqp hlookup
  | some qp =>
      cases BridgeRuleGrammar.parseStream (mergeMaps O P) myid bridge_rules with
      | error e => rfl
      | ok v => rfl

lemma nodup_plans (hopt : QueryPlanGrammar.parseStream opt_query_plan = .ok O) :
    ((mergeMaps O P).map Prod.fst).Nodup := by
  obtain ⟨mgr, hmgr, rfl⟩ := Reusable.alone_eq_ok (o := QueryPlanGrammar.parser) |>.1 hopt
  exact nodup_mergeMaps (QueryPlanGrammar.nodup_of_call hmgr) P

/-- An entry of the optimal plan goes before one of the plain plan. -/
lemma HasInputSignature.mergeMaps {c : ℕ} (h : HasInputSignature O c) :
    HasInputSignature (mergeMaps O P) c := by
  obtain ⟨qp, hqp, hinput⟩ := h
  refine ⟨qp, ?_, hinput⟩
  rw [lookup_mergeMaps, hqp]
  rfl

/-- The division at the start is right exactly where it has nothing to divide: every neighbor has an
input signature in the optimal plan, and the bridge rules can be read against the two plans merged
into one. -/
theorem startup_divides_iff (hopt : QueryPlanGrammar.parseStream opt_query_plan = .ok O)
    (hplan : QueryPlanGrammar.parseStream query_plan = .ok P) (hown : P.lookup myid ≠ none)
    (hrules : BridgeRuleGrammar.parseStream P myid bridge_rules = .ok (rules, N)) :
    Divides O N (startup myid (some opt_query_plan) query_plan bridge_rules) ↔
      (∀ n ∈ N, HasInputSignature O n.neighbor_id) ∧
        ∃ v, BridgeRuleGrammar.parseStream (mergeMaps O P) myid bridge_rules = .ok v := by
  rw [startup_eq hopt hplan hown]
  constructor
  · rintro ⟨physical, guessing, hresult, -, hguessing, -, -⟩
    cases hmerged : BridgeRuleGrammar.parseStream (QueryPlanGrammar.mergeMaps O P) myid
        bridge_rules with
    | error e =>
        rw [hmerged] at hresult
        cases hresult
    | ok v =>
        refine ⟨?_, v, rfl⟩
        rw [hmerged] at hresult
        cases hresult
        obtain ⟨hids, hnodup, hinput⟩ := neighbors_of_parseStream hrules hmerged
        obtain ⟨-, hsecond, -⟩ := divide_spec (nodup_plans (P := P) hopt) hnodup
        -- the parser met an input signature for each neighbor, so none is left to guess
        have hnone : (divide (QueryPlanGrammar.mergeMaps O P) v.2).2 = [] := by
          rw [List.eq_nil_iff_forall_not_mem]
          intro n hn
          exact ((hsecond n).1 hn).2 (hinput n ((hsecond n).1 hn).1)
        intro n hn
        by_contra hnot
        have hmem := (hguessing n.neighbor_id).2 ⟨List.mem_map_of_mem hn, hnot⟩
        rw [assignOffsets_ids, hnone] at hmem
        exact absurd hmem List.not_mem_nil
  · rintro ⟨hinput, v, hmerged⟩
    obtain ⟨hids, hnodup, -⟩ := neighbors_of_parseStream hrules hmerged
    obtain ⟨hfirst, hsecond, hperm⟩ := divide_spec (nodup_plans (P := P) hopt) hnodup
    have hopt_input : ∀ c ∈ N.map NewNeighbor.neighbor_id, HasInputSignature O c := by
      intro c hc
      obtain ⟨n, hn, rfl⟩ := List.mem_map.1 hc
      exact hinput n hn
    have hnone : (divide (QueryPlanGrammar.mergeMaps O P) v.2).2 = [] := by
      rw [List.eq_nil_iff_forall_not_mem]
      intro n hn
      obtain ⟨hmem, hnot⟩ := (hsecond n).1 hn
      apply hnot
      apply HasInputSignature.mergeMaps
      apply hopt_input
      rw [← hids]
      exact List.mem_map_of_mem hmem
    rw [hnone, List.append_nil] at hperm
    -- so all neighbors are physical
    have hall : ((divide (QueryPlanGrammar.mergeMaps O P) v.2).1.map NewNeighbor.neighbor_id).Perm
        (N.map NewNeighbor.neighbor_id) := by
      rw [← hids]
      exact hperm.map _
    rw [hmerged]
    refine ⟨_, _, rfl, ?_, ?_, ?_, ?_⟩
    · intro c
      rw [assignOffsets_ids, hall.mem_iff]
      exact ⟨fun hc => ⟨hc, hopt_input c hc⟩, fun hc => hc.1⟩
    · intro c
      rw [assignOffsets_ids, hnone]
      simp only [List.map_nil, List.not_mem_nil, false_iff, not_and_not_right]
      exact hopt_input c
    · rw [List.map_append, assignOffsets_ids, assignOffsets_ids, hnone, List.map_nil,
        List.append_nil]
      exact hall
    · have hlength : (divide (QueryPlanGrammar.mergeMaps O P) v.2).1.length = N.length := by
        simpa using hall.length_eq
      rw [List.map_append, assignOffsets_offsets, assignOffsets_offsets, hnone, hlength,
        List.length_nil, List.range'_zero, List.append_nil, List.range_eq_range']

/-- A query plan of context 1, whose bridge rules look at a belief of context 2. -/
def plainPlan : Text :=
  ("[\x7bContextId:1,HostName:\"h\",Port:1,Constants:[a],LocalSignature:\x7b1:[a]\x7d,\x7d," ++
    "\x7bContextId:2,HostName:\"h\",Port:2,Constants:[a],InputSignature:\x7b1:[b]\x7d,\x7d]").toList

/-- The same plan without the entry of context 2. -/
def cutPlan : Text :=
  "[\x7bContextId:1,HostName:\"h\",Port:1,Constants:[a],LocalSignature:\x7b1:[a]\x7d,\x7d]".toList

def oneRule : Text := "a:-(2:b).".toList

lemma bind_eq_ok {α β : Type} {x : Except ParseError α} {f : α → Except ParseError β} {b : β}
    (h : (x >>= f) = .ok b) : ∃ a, x = .ok a ∧ f a = .ok b := by
  cases x with
  | error e => cases h
  | ok a => exact ⟨a, rfl, h⟩

/-- What is computed of the plain plan: the rule is accepted against it, alone or merged with
itself, and the neighbors of the rule have input signatures. -/
lemma plainPlan_accepted :
    ∃ P rules N w, QueryPlanGrammar.parseStream plainPlan = .ok P ∧ P.lookup 1 ≠ none ∧
      BridgeRuleGrammar.parseStream P 1 oneRule = .ok (rules, N) ∧
      BridgeRuleGrammar.parseStream (mergeMaps P P) 1 oneRule = .ok w ∧
      ∀ n ∈ N, HasInputSignature P n.neighbor_id := by
  have hrun : (QueryPlanGrammar.parseStream plainPlan >>= fun P =>
      BridgeRuleGrammar.parseStream P 1 oneRule >>= fun v =>
      BridgeRuleGrammar.parseStream (mergeMaps P P) 1 oneRule >>= fun _ =>
      .ok ((P.lookup 1).isSome && v.2.all (fun n =>
        ((P.lookup n.neighbor_id).bind ContextQueryPlan.groundInputSignature).isSome))) =
      .ok true := by decide +kernel
  obtain ⟨P, hP, hrun⟩ := bind_eq_ok hrun
  obtain ⟨⟨rules, N⟩, hv, hrun⟩ := bind_eq_ok hrun
  obtain ⟨w, hw, hrun⟩ := bind_eq_ok hrun
  have hcheck := Except.ok.inj hrun
  rw [Bool.and_eq_true, List.all_eq_true] at hcheck
  refine ⟨P, rules, N, w, hP, Option.isSome_iff_ne_none.1 hcheck.1, hv, hw, ?_⟩
  intro n hn
  obtain ⟨table, htable⟩ := Option.isSome_iff_exists.1 (hcheck.2 n hn)
  obtain ⟨qp, hqp, hinput⟩ := Option.bind_eq_some_iff.1 htable
  exact ⟨qp, hqp, Option.isSome_iff_exists.2 ⟨table, hinput⟩⟩

/-- Given the plain plan as the optimal one, there is nothing to guess. -/
theorem startup_divides_iff_plainPlan :
    ∃ P N, QueryPlanGrammar.parseStream plainPlan = .ok P ∧
      Divides P N (startup 1 (some plainPlan) plainPlan oneRule) := by
  obtain ⟨P, rules, N, w, hP, hown, hv, hw, hinput⟩ := plainPlan_accepted
  exact ⟨P, N, hP, (startup_divides_iff hP hP hown hv).2 ⟨hinput, w, hw⟩⟩

/-- The neighbor that the optimal plan cuts away is physical all the same. -/
theorem cut_neighbor_is_physical :
    ∃ O P rules N, QueryPlanGrammar.parseStream cutPlan = .ok O ∧
      QueryPlanGrammar.parseStream plainPlan = .ok P ∧ P.lookup 1 ≠ none ∧
      BridgeRuleGrammar.parseStream P 1 oneRule = .ok (rules, N) ∧
      ¬ Divides O N (startup 1 (some cutPlan) plainPlan oneRule) := by
  obtain ⟨P, rules, N, -, hP, hown, hv, -, -⟩ := plainPlan_accepted
  have hcut : (QueryPlanGrammar.parseStream cutPlan >>= fun O =>
      .ok (O.lookup 2).isSome) = .ok false := by decide +kernel
  have hrun : startup 1 (some cutPlan) plainPlan oneRule =
      .ok ([⟨2, 0, ['h'], ['2']⟩], some []) := by decide +kernel
  obtain ⟨O, hO, hnone⟩ := bind_eq_ok hcut
  refine ⟨O, P, rules, N, hO, hP, hown, hv, ?_⟩
  rintro ⟨physical, guessing, hresult, hphysical, -, -, -⟩
  rw [hrun] at hresult
  cases hresult
  obtain ⟨qp, hqp, -⟩ := ((hphysical 2).1 List.mem_cons_self).2
  have hfalse := Except.ok.inj hnone
  rw [hqp] at hfalse
  cases hfalse

end Startup

end NewDmcsd

end Dmcs
