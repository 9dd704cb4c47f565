import Dmcs.Lib.Completions
import Mathlib.Data.Finset.Card
import Mathlib.Data.List.Chain
import Mathlib.Logic.Relation

/-!
# Searching for configurations

Each variable belongs to a node and takes nodes as values.  A node has demands on its own variables.
A configuration gives values to the variables of the nodes that are reached from the root, along the
values themselves, and meets the demands of these nodes.

The search starts at the root.  At a node it completes the assignment for the demands of the node in
every way, and then goes to the nodes on the agenda of the completion: the new values, apart from
the root and from those that variables of other nodes have as well, which these nodes see to.  It
finds exactly the configurations, each of them once (`enumerates_search`), though it never marks
what it has seen.

## The argument

*Soundness.*  Every assignment the search is at is valid so far: the demands of the nodes it has
finished are met, and the nodes that are still to be visited are on some agenda (`Pending`).  *No
repetitions.*  Two branches of a node differ in the value of some variable, and what extends them
still does (`Incompatible`).  *Completeness.*  Towards a given configuration the search follows one
branch, and on this branch it never comes back to a node at which it is (`Stack.push`), so the
number of nodes is fuel enough.
-/

namespace Configurations

open Completions

/-- What is searched.  `S` are the states of the search, and `denote` tells which assignments they
stand for. -/
structure Search (S K V : Type*) where
  root : K
  owner : V → K
  demand : K → List (Demand V K)
  denote : S → V → Option K
  Valid : S → Prop
  bind : K → S → List S
  agenda : K → S → List K
  names_owner : ∀ {k d v}, d ∈ demand k → d.Names v → owner v = k
  valid_bind : ∀ {k s s'}, Valid s → s' ∈ bind k s → Valid s'
  enumerates_bind : ∀ k {s}, Valid s →
    Enumerates ((bind k s).map denote) (Completion (demand k) (denote s))
  mem_agenda : ∀ {k s c}, Valid s → (c ∈ agenda k s ↔ c ≠ root ∧
    (∃ v, owner v = k ∧ denote s v = some c) ∧ ¬ ∃ v, owner v ≠ k ∧ denote s v = some c)

variable {S K V : Type*} (X : Search S K V)

namespace Search

/-- A variable of `k` has the value `c`. -/
def Edge (σ : V → Option K) (k c : K) : Prop := ∃ v, X.owner v = k ∧ σ v = some c

def Reaches (σ : V → Option K) : K → Prop := Relation.ReflTransGen (X.Edge σ) X.root

/-- Exactly the variables of the nodes that are reached have values, and they meet all demands. -/
structure IsConfiguration (σ : V → Option K) : Prop where
  only : ∀ v c, σ v = some c → X.Reaches σ (X.owner v) ∧ ∃ d ∈ X.demand (X.owner v), d.Names v
  sat : ∀ k, X.Reaches σ k → ∀ d ∈ X.demand k, d.Sat σ

/-- The search from a node; `fuel` bounds its depth. -/
def search : ℕ → K → S → List S
  | 0, _, _ => []
  | fuel + 1, k, s => (X.bind k s).flatMap (fun s' => leaves (search fuel) (X.agenda k s') s')

variable {X} {s s' : S} {k c : K} {σ τ : V → Option K} {P : Set K} {fuel : ℕ}

lemma Edge.mono (h : X.Edge τ k c) (hext : Extends τ σ) : X.Edge σ k c := by
  obtain ⟨v, hv, hc⟩ := h
  exact ⟨v, hv, hext v c hc⟩

lemma Reaches.mono (h : X.Reaches τ k) (hext : Extends τ σ) : X.Reaches σ k :=
  Relation.ReflTransGen.mono (fun _ _ hedge => Edge.mono hedge hext) _ _ h

lemma extends_trans {ρ : V → Option K} (h : Extends ρ τ) (h' : Extends τ σ) : Extends ρ σ :=
  fun v c hv => h' v c (h v c hv)

/-! ## What is found is a configuration -/

lemma valid_and_extends_of_mem_leaves {next : K → S → List S}
    (hnext : ∀ c s s', X.Valid s → s' ∈ next c s →
      X.Valid s' ∧ Extends (X.denote s) (X.denote s')) (hs : X.Valid s) {N : List K}
    (hs' : s' ∈ leaves next N s) : X.Valid s' ∧ Extends (X.denote s) (X.denote s') := by
  induction N generalizing s with
  | nil =>
      rw [List.mem_singleton.mp hs']
      exact ⟨hs, fun v c h => h⟩
  | cons c N ih =>
      obtain ⟨s₁, hs₁, hrest⟩ := List.mem_flatMap.mp hs'
      obtain ⟨hvalid, hext⟩ := hnext c s s₁ hs hs₁
      obtain ⟨hvalid', hext'⟩ := ih hvalid hrest
      exact ⟨hvalid', extends_trans hext hext'⟩

lemma completion_of_mem_bind (hs : X.Valid s) (hs' : s' ∈ X.bind k s) :
    Completion (X.demand k) (X.denote s) (X.denote s') :=
  ((X.enumerates_bind k hs).mem_iff _).mp (List.mem_map_of_mem hs')

lemma valid_and_extends_of_mem_search (hs : X.Valid s) (hs' : s' ∈ X.search fuel k s) :
    X.Valid s' ∧ Extends (X.denote s) (X.denote s') := by
  induction fuel generalizing k s s' with
  | zero => exact absurd hs' List.not_mem_nil
  | succ fuel ih =>
      obtain ⟨s₁, hs₁, hrest⟩ := List.mem_flatMap.mp hs'
      obtain ⟨hvalid, hext⟩ := valid_and_extends_of_mem_leaves (fun _ _ _ => ih)
        (X.valid_bind hs hs₁) hrest
      exact ⟨hvalid, extends_trans (completion_of_mem_bind hs hs₁).isExtension hext⟩

variable (X) in
/-- The demands of a node are met. -/
def Settled (s : S) (k : K) : Prop := ∀ d ∈ X.demand k, d.Sat (X.denote s)

lemma Settled.mono (h : X.Settled s k) (hext : Extends (X.denote s) (X.denote s')) :
    X.Settled s' k :=
  fun d hd => (h d hd).of_extends hext

variable (X) in
/-- A part of a configuration, that is completed at the nodes of `P`. -/
structure Pending (P : Set K) (s : S) : Prop where
  valid : X.Valid s
  only : ∀ v c, X.denote s v = some c →
    X.Reaches (X.denote s) (X.owner v) ∧ ∃ d ∈ X.demand (X.owner v), d.Names v
  covered : ∀ v c, X.denote s v = some c → c = X.root ∨ c ∈ P ∨ X.Settled s c

/-- The values that are not on the agenda of a node are seen to by others. -/
lemma Pending.bind (h : X.Pending (insert k P) s) (hreach : X.Reaches (X.denote s) k)
    (hs' : s' ∈ X.bind k s) :
    X.Settled s' k ∧ X.Pending ({c | c ∈ X.agenda k s'} ∪ P) s' := by
  have hcompletion := completion_of_mem_bind h.valid hs'
  have hvalid := X.valid_bind h.valid hs'
  have hsettled : X.Settled s' k := hcompletion.sat
  have hold : ∀ v c, X.denote s v = some c → c = X.root ∨ c ∈ P ∨ X.Settled s' c := by
    intro v c hv
    rcases h.covered v c hv with hroot | hc | hc
    · exact Or.inl hroot
    · rcases Set.mem_insert_iff.mp hc with rfl | hc
      · exact Or.inr (Or.inr hsettled)
      · exact Or.inr (Or.inl hc)
    · exact Or.inr (Or.inr (hc.mono hcompletion.isExtension))
  refine ⟨hsettled, hvalid, fun v c hv => ?_, fun v c hv => ?_⟩
  · rcases hcompletion.only v c hv with hs | ⟨d, hd, hnames⟩
    · obtain ⟨hr, hd⟩ := h.only v c hs
      exact ⟨hr.mono hcompletion.isExtension, hd⟩
    · rw [X.names_owner hd hnames]
      exact ⟨hreach.mono hcompletion.isExtension, d, hd, hnames⟩
  · by_cases hagenda : c ∈ X.agenda k s'
    · exact Or.inr (Or.inl (Or.inl hagenda))
    · have hother : ∃ v, c = X.root ∨ X.denote s v = some c := by
        by_contra hnot
        push Not at hnot
        refine hagenda ((X.mem_agenda hvalid).mpr ⟨(hnot v).1, ⟨v, ?_, hv⟩, ?_⟩)
        · rcases hcompletion.only v c hv with hs | ⟨d, hd, hnames⟩
          · exact absurd hs (hnot v).2
          · exact X.names_owner hd hnames
        · rintro ⟨v', howner, hv'⟩
          rcases hcompletion.only v' c hv' with hs | ⟨d, hd, hnames⟩
          · exact (hnot v').2 hs
          · exact howner (X.names_owner hd hnames)
      obtain ⟨v', hroot | hv'⟩ := hother
      · exact Or.inl hroot
      · exact (hold v' c hv').imp_right (Or.imp_left (fun hc => Or.inr hc))

lemma Pending.leaves {next : K → S → List S}
    (hnext : ∀ c P s s', X.Pending (insert c P) s → X.Reaches (X.denote s) c → s' ∈ next c s →
      X.Pending P s' ∧ Extends (X.denote s) (X.denote s')) {N : List K}
    (h : X.Pending ({c | c ∈ N} ∪ P) s) (hreach : ∀ c ∈ N, X.Reaches (X.denote s) c)
    (hs' : s' ∈ leaves next N s) : X.Pending P s' := by
  induction N generalizing s with
  | nil =>
      rw [List.mem_singleton.mp hs']
      simpa using h
  | cons c N ih =>
      obtain ⟨s₁, hs₁, hrest⟩ := List.mem_flatMap.mp hs'
      have hinsert : {x | x ∈ c :: N} ∪ P = insert c ({x | x ∈ N} ∪ P) := by
        ext x
        simp [or_assoc]
      rw [hinsert] at h
      obtain ⟨hpending, hext⟩ := hnext c _ s s₁ h (hreach c List.mem_cons_self) hs₁
      exact ih hpending (fun x hx => (hreach x (List.mem_cons_of_mem c hx)).mono hext) hrest

lemma Pending.search (h : X.Pending (insert k P) s) (hreach : X.Reaches (X.denote s) k)
    (hs' : s' ∈ X.search fuel k s) : X.Settled s' k ∧ X.Pending P s' := by
  induction fuel generalizing k P s s' with
  | zero => exact absurd hs' List.not_mem_nil
  | succ fuel ih =>
      obtain ⟨s₁, hs₁, hrest⟩ := List.mem_flatMap.mp hs'
      obtain ⟨hsettled, hpending⟩ := h.bind hreach hs₁
      have hreach₁ := hreach.mono (completion_of_mem_bind h.valid hs₁).isExtension
      obtain ⟨-, hext⟩ := valid_and_extends_of_mem_leaves
        (fun _ _ _ => valid_and_extends_of_mem_search) hpending.valid hrest
      refine ⟨hsettled.mono hext, hpending.leaves (fun c P s s' hs hc hs' => ?_) (fun c hc => ?_)
        hrest⟩
      · exact ⟨(ih hs hc hs').2, (valid_and_extends_of_mem_search hs.valid hs').2⟩
      · exact hreach₁.tail ((X.mem_agenda hpending.valid).mp hc).2.1

/-- What the search finds from an empty assignment. -/
theorem isConfiguration_of_mem_search (hs : X.Valid s) (hempty : ∀ v, X.denote s v = none)
    (hs' : s' ∈ X.search fuel X.root s) : X.IsConfiguration (X.denote s') := by
  have hpending : X.Pending (insert X.root ∅) s := by
    refine ⟨hs, fun v c hv => ?_, fun v c hv => ?_⟩
    · rw [hempty v] at hv
      exact absurd hv.symm (Option.some_ne_none c)
    · rw [hempty v] at hv
      exact absurd hv.symm (Option.some_ne_none c)
  obtain ⟨hsettled, hdone⟩ := hpending.search Relation.ReflTransGen.refl hs'
  refine ⟨hdone.only, fun k hreach => ?_⟩
  show X.Settled s' k
  induction hreach with
  | refl => exact hsettled
  | tail _ hedge _ =>
      obtain ⟨v, -, hv⟩ := hedge
      rcases hdone.covered v _ hv with rfl | hc | hc
      · exact hsettled
      · exact absurd hc (Set.notMem_empty _)
      · exact hc

/-! ## Nothing is found twice -/

variable (X) in
/-- No assignment extends both. -/
def Incompatible (s s' : S) : Prop :=
  ¬ ∃ σ, Extends (X.denote s) σ ∧ Extends (X.denote s') σ

lemma Incompatible.mono {t t' : S} (h : X.Incompatible s s')
    (hext : Extends (X.denote s) (X.denote t)) (hext' : Extends (X.denote s') (X.denote t')) :
    X.Incompatible t t' := by
  rintro ⟨σ, hσ, hσ'⟩
  exact h ⟨σ, extends_trans hext hσ, extends_trans hext' hσ'⟩

/-- Two completions that a common assignment extends are the same. -/
lemma eq_of_completions {ds : List (Demand V K)} {T τ τ' : V → Option K}
    (h : Completion ds T τ) (h' : Completion ds T τ') (hτ : Extends τ σ) (hτ' : Extends τ' σ) :
    τ = τ' := by
  have hle : ∀ {τ τ' : V → Option K}, Completion ds T τ → Completion ds T τ' → Extends τ σ →
      Extends τ' σ → ∀ v c, τ v = some c → τ' v = some c := by
    intro τ τ' h h' hτ hτ' v c hv
    rcases h.only v c hv with hT | ⟨d, hd, hnames⟩
    · exact h'.isExtension v c hT
    · obtain ⟨c', hc'⟩ := (h'.sat d hd).exists_value hnames
      rw [hc', ← hτ' v c' hc', hτ v c hv]
  funext v
  cases hv : τ v with
  | some c => exact (hle h h' hτ hτ' v c hv).symm
  | none =>
      cases hv' : τ' v with
      | none => rfl
      | some c => exact hv.symm.trans (hle h' h hτ' hτ v c hv')

lemma pairwise_bind (hs : X.Valid s) : (X.bind k s).Pairwise X.Incompatible := by
  have hdistinct := List.pairwise_map.mp (X.enumerates_bind k hs).nodup
  refine hdistinct.imp_of_mem (fun {t t'} ht ht' hne => ?_)
  rintro ⟨σ, hσ, hσ'⟩
  exact hne (eq_of_completions (completion_of_mem_bind hs ht) (completion_of_mem_bind hs ht')
    hσ hσ')

/-- What two incompatible states lead to is incompatible. -/
lemma pairwise_flatMap {l : List S} {f : S → List S} (hl : l.Pairwise X.Incompatible)
    (hf : ∀ t ∈ l, (f t).Pairwise X.Incompatible)
    (hext : ∀ t ∈ l, ∀ t' ∈ f t, Extends (X.denote t) (X.denote t')) :
    (l.flatMap f).Pairwise X.Incompatible := by
  rw [List.pairwise_flatMap]
  refine ⟨hf, hl.imp_of_mem (fun {t t'} ht ht' hne x hx x' hx' => ?_)⟩
  exact hne.mono (hext t ht x hx) (hext t' ht' x' hx')

lemma pairwise_leaves {next : K → S → List S}
    (hnext : ∀ c s, X.Valid s → (next c s).Pairwise X.Incompatible)
    (hvalid : ∀ c s s', X.Valid s → s' ∈ next c s →
      X.Valid s' ∧ Extends (X.denote s) (X.denote s')) (hs : X.Valid s) (N : List K) :
    (leaves next N s).Pairwise X.Incompatible := by
  induction N generalizing s with
  | nil => exact List.pairwise_singleton _ _
  | cons c N ih =>
      refine pairwise_flatMap (hnext c s hs) (fun t ht => ih (hvalid c s t hs ht).1)
        (fun t ht t' ht' => ?_)
      exact (valid_and_extends_of_mem_leaves hvalid (hvalid c s t hs ht).1 ht').2

/-- What the search finds is pairwise incompatible: no assignment extends two of the results. -/
theorem pairwise_search (hs : X.Valid s) : (X.search fuel k s).Pairwise X.Incompatible := by
  induction fuel generalizing k s with
  | zero => exact List.Pairwise.nil
  | succ fuel ih =>
      have hvalid : ∀ c s s', X.Valid s → s' ∈ X.search fuel c s →
          X.Valid s' ∧ Extends (X.denote s) (X.denote s') :=
        fun _ _ _ => valid_and_extends_of_mem_search
      refine pairwise_flatMap (pairwise_bind hs)
        (fun t ht => pairwise_leaves (fun _ _ => ih) hvalid (X.valid_bind hs ht) _)
        (fun t ht t' ht' => ?_)
      exact (valid_and_extends_of_mem_leaves hvalid (X.valid_bind hs ht) ht').2

/-- The search finds nothing twice. -/
theorem nodup_search (hs : X.Valid s) : ((X.search fuel k s).map X.denote).Nodup := by
  refine List.pairwise_map.mpr ((pairwise_search hs).imp (fun {t t'} hne heq => ?_))
  exact hne ⟨X.denote t, fun v c h => h, fun v c h => heq ▸ h⟩

/-! ## Every configuration is found -/

variable (X) in
/-- The nodes at which the search is, the last one first. -/
structure Stack (s : S) (l : List K) : Prop where
  nodup : l.Nodup
  chain : l.IsChain (fun c k => X.Edge (X.denote s) k c)
  getLast : l.getLast? = some X.root

lemma Stack.mono {l : List K} (h : X.Stack s l) (hext : Extends (X.denote s) (X.denote s')) :
    X.Stack s' l :=
  ⟨h.nodup, h.chain.imp (fun _ _ hedge => Edge.mono hedge hext), h.getLast⟩

/-- Below the last element of a chain there is always a next one. -/
lemma exists_next {α : Type*} {R : α → α → Prop} {a x z : α} {l : List α}
    (h : (a :: l).IsChain R) (hz : (a :: l).getLast? = some z) (hx : x ∈ a :: l) (hne : x ≠ z) :
    ∃ y ∈ l, R x y := by
  induction l generalizing a with
  | nil =>
      rw [List.getLast?_singleton, Option.some.injEq] at hz
      rw [List.mem_singleton, hz] at hx
      exact absurd hx hne
  | cons b l ih =>
      rw [List.isChain_cons_cons] at h
      rcases List.mem_cons.mp hx with rfl | hx
      · exact ⟨b, List.mem_cons_self, h.1⟩
      · rw [List.getLast?_cons_cons] at hz
        obtain ⟨y, hy, hxy⟩ := ih h.2 hz hx
        exact ⟨y, List.mem_cons_of_mem b hy, hxy⟩

/-- The search never comes back to a node at which it is: another node leads there. -/
lemma Stack.push {l : List K} (h : X.Stack s (k :: l)) (hs : X.Valid s) (hc : c ∈ X.agenda k s) :
    X.Stack s (c :: k :: l) := by
  obtain ⟨hroot, ⟨v, howner, hv⟩, hothers⟩ := (X.mem_agenda hs).mp hc
  refine ⟨List.nodup_cons.mpr ⟨fun hmem => ?_, h.nodup⟩,
    List.isChain_cons_cons.mpr ⟨⟨v, howner, hv⟩, h.chain⟩, ?_⟩
  · obtain ⟨p, hp, v', howner', hv'⟩ := exists_next h.chain h.getLast hmem hroot
    refine hothers ⟨v', fun heq => ?_, hv'⟩
    rw [howner'] at heq
    exact (List.nodup_cons.mp h.nodup).1 (heq ▸ hp)
  · rw [List.getLast?_cons_cons]
    exact h.getLast

/-- Below an assignment that meets the demands there is a completion for them. -/
lemma exists_completion_below {ds : List (Demand V K)} {T : V → Option K} (hT : Extends T σ)
    (hsat : ∀ d ∈ ds, d.Sat σ) : ∃ τ, Completion ds T τ ∧ Extends τ σ := by
  classical
  let τ : V → Option K := fun v => if ∃ d ∈ ds, d.Names v then σ v else T v
  have hnamed : ∀ {v}, (∃ d ∈ ds, d.Names v) → τ v = σ v := fun h => if_pos h
  have hrest : ∀ {v}, (¬ ∃ d ∈ ds, d.Names v) → τ v = T v := fun h => if_neg h
  refine ⟨τ, ⟨fun v c hv => ?_, fun v c hv => ?_, fun d hd => ?_⟩, fun v c hv => ?_⟩
  · by_cases h : ∃ d ∈ ds, d.Names v
    · rw [hnamed h]
      exact hT v c hv
    · rw [hrest h, hv]
  · by_cases h : ∃ d ∈ ds, d.Names v
    · exact Or.inr h
    · rw [hrest h] at hv
      exact Or.inl hv
  · have hd' := hsat d hd
    cases d with
    | on v allowed =>
        obtain ⟨c, hc, hv⟩ := hd'
        have hv' : τ v = σ v := hnamed ⟨.on v allowed, hd, rfl⟩
        exact ⟨c, hc, hv'.trans hv⟩
    | closed p => exact hd'
  · by_cases h : ∃ d ∈ ds, d.Names v
    · rw [hnamed h] at hv
      exact hv
    · rw [hrest h] at hv
      exact hT v c hv

lemma exists_mem_leaves (next : K → S → List S) {l : List K}
    (hnext : ∀ c s, X.Valid s → Extends (X.denote s) σ → X.Stack s (c :: l) →
      ∃ s' ∈ next c s, X.Valid s' ∧ Extends (X.denote s) (X.denote s') ∧ Extends (X.denote s') σ)
    (hs : X.Valid s) (hext : Extends (X.denote s) σ) {N : List K}
    (hN : ∀ c ∈ N, X.Stack s (c :: l)) : ∃ s' ∈ leaves next N s, Extends (X.denote s') σ := by
  induction N generalizing s with
  | nil => exact ⟨s, List.mem_singleton_self s, hext⟩
  | cons c N ih =>
      obtain ⟨s₁, hs₁, hvalid, hext₁, hσ⟩ := hnext c s hs hext (hN c List.mem_cons_self)
      obtain ⟨s', hs', hσ'⟩ := ih hvalid hσ
        (fun x hx => (hN x (List.mem_cons_of_mem c hx)).mono hext₁)
      exact ⟨s', List.mem_flatMap.mpr ⟨s₁, hs₁, hs'⟩, hσ'⟩

/-- A configuration has no values to spare. -/
lemma IsConfiguration.eq_of_extends (hτ : X.IsConfiguration τ) (hσ : X.IsConfiguration σ)
    (hext : Extends τ σ) : τ = σ := by
  have hvalue : ∀ v c, σ v = some c → X.Reaches τ (X.owner v) → τ v = some c := by
    intro v c hv hreach
    obtain ⟨-, d, hd, hnames⟩ := hσ.only v c hv
    obtain ⟨c', hc'⟩ := (hτ.sat _ hreach d hd).exists_value hnames
    rw [hc', ← hext v c' hc', hv]
  have hreach : ∀ k, X.Reaches σ k → X.Reaches τ k := by
    intro k hk
    induction hk with
    | refl => exact Relation.ReflTransGen.refl
    | tail _ hedge ih =>
        obtain ⟨v, rfl, hv⟩ := hedge
        exact ih.tail ⟨v, rfl, hvalue v _ hv ih⟩
  funext v
  cases hv : σ v with
  | some c => exact hvalue v c hv (hreach _ (hσ.only v c hv).1)
  | none =>
      cases hv' : τ v with
      | none => rfl
      | some c => exact absurd ((hext v c hv').symm.trans hv) (Option.some_ne_none c)

/-- The stack of the search at the start. -/
lemma stack_root (X : Search S K V) (s : S) : X.Stack s [X.root] :=
  ⟨List.nodup_singleton _, List.isChain_singleton _, rfl⟩

/-- All values are in `U`. -/
def ValuesIn (X : Search S K V) (U : Finset K) : Prop :=
  X.root ∈ U ∧ ∀ s v c, X.Valid s → X.denote s v = some c → c ∈ U

lemma Stack.length_le {U : Finset K} (hU : X.ValuesIn U) {l : List K} (hs : X.Valid s)
    (h : X.Stack s l) : l.length ≤ U.card := by
  classical
  rw [← List.toFinset_card_of_nodup h.nodup]
  refine Finset.card_le_card (fun c hc => ?_)
  rw [List.mem_toFinset] at hc
  by_cases hroot : c = X.root
  · exact hroot ▸ hU.1
  · cases l with
    | nil => exact absurd hc List.not_mem_nil
    | cons k l =>
        obtain ⟨p, -, v, -, hv⟩ := exists_next h.chain h.getLast hc hroot
        exact hU.2 s v c hs hv

lemma exists_mem_search {U : Finset K} (hU : X.ValuesIn U) (hσ : X.IsConfiguration σ)
    {l : List K} (hs : X.Valid s) (hext : Extends (X.denote s) σ) (hstack : X.Stack s (k :: l))
    (hreach : X.Reaches σ k) (hfuel : U.card < fuel + (k :: l).length) :
    ∃ s' ∈ X.search fuel k s, Extends (X.denote s') σ := by
  induction fuel generalizing k s l with
  | zero =>
      have hlen := hstack.length_le hU hs
      omega
  | succ fuel ih =>
      obtain ⟨τ, hτ, hτσ⟩ := exists_completion_below hext (hσ.sat k hreach)
      obtain ⟨s₁, hs₁, rfl⟩ := List.mem_map.mp (((X.enumerates_bind k hs).mem_iff τ).mpr hτ)
      have hvalid := X.valid_bind hs hs₁
      have hstack₁ := hstack.mono hτ.isExtension
      obtain ⟨s', hs', hσ'⟩ := exists_mem_leaves (X := X) (X.search fuel) (l := k :: l)
        (fun c s hs hext hstack => by
          obtain ⟨v, howner, hv⟩ := (List.isChain_cons_cons.mp hstack.chain).1
          obtain ⟨s', hs', hσ'⟩ := ih hs hext hstack (hreach.tail ⟨v, howner, hext v c hv⟩)
            (by rw [List.length_cons]; omega)
          obtain ⟨hvalid', hext'⟩ := valid_and_extends_of_mem_search hs hs'
          exact ⟨s', hs', hvalid', hext', hσ'⟩)
        hvalid hτσ (fun c hc => hstack₁.push hvalid hc)
      exact ⟨s', List.mem_flatMap.mpr ⟨s₁, hs₁, hs'⟩, hσ'⟩

/-- The search finds exactly the configurations, each of them once. -/
theorem enumerates_search {U : Finset K} (hU : X.ValuesIn U) (hs : X.Valid s)
    (hempty : ∀ v, X.denote s v = none) (hfuel : U.card ≤ fuel) :
    Enumerates ((X.search fuel X.root s).map X.denote) X.IsConfiguration := by
  refine ⟨nodup_search hs, fun σ => ⟨fun h => ?_, fun hσ => ?_⟩⟩
  · obtain ⟨s', hs', rfl⟩ := List.mem_map.mp h
    exact isConfiguration_of_mem_search hs hempty hs'
  · have hdepth : U.card < fuel + [X.root].length := Nat.lt_succ_of_le hfuel
    obtain ⟨s', hs', hext⟩ := exists_mem_search hU hσ hs
      (fun v c hv => absurd hv (by rw [hempty v]; exact (Option.some_ne_none c).symm))
      (stack_root X s) Relation.ReflTransGen.refl hdepth
    have hconfig := isConfiguration_of_mem_search hs hempty hs'
    exact List.mem_map.mpr ⟨s', hs', hconfig.eq_of_extends hσ hext⟩

end Search

end Configurations
