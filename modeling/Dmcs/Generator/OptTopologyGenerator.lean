import Dmcs.Mcs.NewBeliefState
import Mathlib.Logic.Relation

/-!
# Topologies and their optimisation (`TopologyGenerator`, `OptTopologyGenerator`)

A topology generator lists, for every context, the neighbors it asks.  An optimiser works on the
interfaces of these edges: walking over the contexts from the last to the first, it removes edges
that would let a request go round or meet itself, and adds the bits of a removed interface to the
edges over which they are to travel instead.

`Tracks` is the abstraction the proofs work with: which edges are left, and which of the original
interfaces each of them carries.  An optimiser is run on these two relations only.

Contexts are counted from 1 by the generators and from 0 in the interfaces.

## How an optimiser is verified

* `Tracks D F` is kept by the two operations of an optimiser: adding the interface of an edge to
  another one makes the second carry what the first carries (`Tracks.add`), and removing an edge
  takes it out of `D` (`Tracks.erase`).
* `Tracks.run` is the rule for the loop over the contexts.
* `CarriesOver` asks of the two relations at the end that the edges go from a smaller to a larger
  context and reach all, and that there is a path for every removed edge that carries its interface.
-/

namespace Dmcs

/-- `genNeighbor`. -/
def genNeighbor (src dst : ℕ) : ℕ × ℕ := (src - 1, dst - 1)

/-- `generate`: the edges of all contexts. -/
def generate (genNeighborList : ℕ → List (ℕ × ℕ)) (system_size : ℕ) : List (ℕ × ℕ) :=
  (List.range' 1 system_size).flatMap genNeighborList

/-- The map from edges to interfaces; every edge has a state of its own. -/
abbrev LocalInterfaceMap (w : ℕ) : Type := ℕ × ℕ → Option (NewBeliefState w)

section Interfaces

variable {w : ℕ}

/-- `getInterface` asserts that the edge is there. -/
def getInterface (lcim : LocalInterfaceMap w) (src dst : ℕ) : Option (NewBeliefState w) :=
  lcim (src, dst)

/-- `(*bs) = (*bs) | (*bs')`, where `bs` and `bs'` are the interfaces of two edges. -/
def addInterface (e e' : ℕ × ℕ) (lcim : LocalInterfaceMap w) : Option (LocalInterfaceMap w) := do
  let bs ← getInterface lcim e.1 e.2
  let bs' ← getInterface lcim e'.1 e'.2
  some (Function.update lcim e (some (bs.union bs')))

def eraseInterface (e : ℕ × ℕ) (lcim : LocalInterfaceMap w) : LocalInterfaceMap w :=
  Function.update lcim e none

/-- `create_opt_interface()`: the contexts from `i` down to the first. -/
def createOptInterface (step : ℕ → LocalInterfaceMap w → Option (LocalInterfaceMap w)) :
    ℕ → LocalInterfaceMap w → Option (LocalInterfaceMap w)
  | 0, lcim => some lcim
  | i + 1, lcim => do
      let lcim ← step (i + 1) lcim
      createOptInterface step i lcim

end Interfaces

/-- A pair of generators: the edges a context gets, and what the optimiser does at it. -/
structure Topology where
  genNeighborList : ℕ → ℕ → List (ℕ × ℕ)
  create_opt_interface : ∀ {w : ℕ}, ℕ → ℕ → LocalInterfaceMap w → Option (LocalInterfaceMap w)

/-- Every context is reached from the first when each has an edge from a smaller one. -/
lemma reachable_of_parent {n : ℕ} {R : ℕ → ℕ → Prop}
    (hparent : ∀ c, 0 < c → c < n → ∃ a, a < c ∧ R a c) :
    ∀ c < n, Relation.ReflTransGen R 0 c := by
  intro c hc
  induction c using Nat.strong_induction_on with
  | h c ih =>
      rcases Nat.eq_zero_or_pos c with rfl | hpos
      · exact Relation.ReflTransGen.refl
      · obtain ⟨a, ha, hR⟩ := hparent c hpos hc
        exact (ih a ha (ha.trans hc)).tail hR

section Checkability

variable {w : ℕ}

/-- There is an edge from `a` to `b`. -/
def Remains (lcim : LocalInterfaceMap w) (a b : ℕ) : Prop := (lcim (a, b)).isSome = true

/-- The edge from `a` to `b` carries every bit of `V`. -/
def Carries (lcim : LocalInterfaceMap w) (V : NewBeliefState w) (a b : ℕ) : Prop :=
  ∃ U, lcim (a, b) = some U ∧ V.union U = U

/-- What the optimised interfaces still allow: no request goes round, every context is asked, and
for every edge that was removed there is a context that sees both its ends over all its bits. -/
structure PreservesCheckability (system_size : ℕ) (lcim opt : LocalInterfaceMap w) : Prop where
  acyclic : ∀ c, ¬ Relation.TransGen (Remains opt) c c
  reachable : ∀ c < system_size, Relation.ReflTransGen (Remains opt) 0 c
  checkable : ∀ a b V, lcim (a, b) = some V → opt (a, b) = none →
    ∃ c, Relation.ReflTransGen (Carries opt V) c a ∧ Relation.ReflTransGen (Carries opt V) c b

/-- Whatever interfaces the edges of the topology have, the optimiser comes through and preserves
checkability. -/
def Topology.Optimises (t : Topology) (system_size : ℕ) : Prop :=
  ∀ (w : ℕ) (lcim : LocalInterfaceMap w),
    (∀ e, (lcim e).isSome = true ↔ e ∈ generate (t.genNeighborList system_size) system_size) →
    ∃ opt, createOptInterface (t.create_opt_interface system_size) system_size lcim = some opt ∧
      PreservesCheckability system_size lcim opt

end Checkability

/-! ## Edges that are left and interfaces they carry -/

/-- The edges of `lcim` are those of `D`, and where `F e r` holds the edge `e`, if it is there,
carries the interface that `r` had in `orig`. -/
structure Tracks {w : ℕ} (orig : LocalInterfaceMap w) (D : ℕ × ℕ → Prop)
    (F : ℕ × ℕ → ℕ × ℕ → Prop) (lcim : LocalInterfaceMap w) : Prop where
  dom : ∀ e, (lcim e).isSome = true ↔ D e
  carries : ∀ e r V U, F e r → orig r = some V → lcim e = some U → V.union U = U

namespace Tracks

variable {w : ℕ} {orig lcim : LocalInterfaceMap w} {D D' : ℕ × ℕ → Prop}
  {F F' : ℕ × ℕ → ℕ × ℕ → Prop} {e e' : ℕ × ℕ}

lemma union_eq_left {s t u : NewBeliefState w} (h : s.union t = t) :
    s.union (t.union u) = t.union u := by
  rw [← h]
  apply NewBeliefState.ext_bits
  · intro i
    simp [Bool.or_assoc]
  · intro i
    simp [Bool.or_assoc]

lemma union_eq_right {s t u : NewBeliefState w} (h : s.union u = u) :
    s.union (t.union u) = t.union u := by
  rw [← h]
  apply NewBeliefState.ext_bits
  · intro i
    simp [Bool.or_left_comm]
  · intro i
    simp [Bool.or_left_comm]

/-- At the start every edge carries its own interface. -/
lemma start (h : ∀ e, (orig e).isSome = true ↔ D e) : Tracks orig D Eq orig := by
  refine ⟨h, ?_⟩
  rintro e _ V U rfl hV hU
  rw [hV, Option.some_inj] at hU
  rw [← hU]
  apply NewBeliefState.ext_bits
  · intro i
    simp
  · intro i
    simp

lemma imp (h : Tracks orig D F lcim) (hD : ∀ e, D e ↔ D' e) (hF : ∀ e r, D' e → F' e r → F e r) :
    Tracks orig D' F' lcim := by
  refine ⟨fun e => (h.dom e).trans (hD e), ?_⟩
  intro e r V U hr hV hU
  refine h.carries e r V U (hF e r ?_ hr) hV hU
  rw [← hD, ← h.dom, hU]
  rfl

/-- Adding an interface to another edge: what the one carries the other carries as well. -/
lemma add (h : Tracks orig D F lcim) (he : D e) (he' : D e') :
    ∃ lcim', addInterface e e' lcim = some lcim' ∧
      Tracks orig D (fun x r => F x r ∨ (x = e ∧ F e' r)) lcim' := by
  obtain ⟨bs, hbs⟩ := Option.isSome_iff_exists.1 ((h.dom e).2 he)
  obtain ⟨bs', hbs'⟩ := Option.isSome_iff_exists.1 ((h.dom e').2 he')
  have hadd : addInterface e e' lcim = some (Function.update lcim e (some (bs.union bs'))) := by
    unfold addInterface getInterface
    rw [hbs, hbs']
    rfl
  refine ⟨_, hadd, ?_, ?_⟩
  · intro x
    by_cases hx : x = e
    · rw [hx, Function.update_self]
      exact ⟨fun _ => he, fun _ => rfl⟩
    · rw [Function.update_of_ne hx]
      exact h.dom x
  · intro x r V U hr hV hU
    by_cases hx : x = e
    · rw [hx, Function.update_self, Option.some_inj] at hU
      rw [← hU]
      rcases hr with hr | ⟨-, hr⟩
      · rw [hx] at hr
        exact union_eq_left (h.carries e r V bs hr hV hbs)
      · exact union_eq_right (h.carries e' r V bs' hr hV hbs')
    · rw [Function.update_of_ne hx] at hU
      rcases hr with hr | ⟨hxe, -⟩
      · exact h.carries x r V U hr hV hU
      · exact absurd hxe hx

lemma erase (h : Tracks orig D F lcim) (e : ℕ × ℕ) :
    Tracks orig (fun x => D x ∧ x ≠ e) F (eraseInterface e lcim) := by
  unfold eraseInterface
  constructor
  · intro x
    by_cases hx : x = e
    · simp [hx]
    · rw [Function.update_of_ne hx, h.dom]
      exact ⟨fun hD => ⟨hD, hx⟩, fun hD => hD.1⟩
  · intro x r V U hr hV hU
    by_cases hx : x = e
    · rw [hx, Function.update_self] at hU
      cases hU
    · rw [Function.update_of_ne hx] at hU
      exact h.carries x r V U hr hV hU

/-- The loop: what a context keeps, the whole run keeps.  `D i` and `F i` describe the interfaces
when the contexts after `i` are done. -/
lemma run {step : ℕ → LocalInterfaceMap w → Option (LocalInterfaceMap w)} {D : ℕ → ℕ × ℕ → Prop}
    {F : ℕ → ℕ × ℕ → ℕ × ℕ → Prop} {n : ℕ}
    (hstep : ∀ i < n, ∀ lcim, Tracks orig (D (i + 1)) (F (i + 1)) lcim →
      ∃ lcim', step (i + 1) lcim = some lcim' ∧ Tracks orig (D i) (F i) lcim')
    (h : Tracks orig (D n) (F n) lcim) :
    ∃ opt, createOptInterface step n lcim = some opt ∧ Tracks orig (D 0) (F 0) opt := by
  induction n generalizing lcim with
  | zero => exact ⟨lcim, rfl, h⟩
  | succ i ih =>
      obtain ⟨lcim', hlcim', h'⟩ := hstep i (Nat.lt_succ_self i) lcim h
      obtain ⟨opt, hopt, hend⟩ := ih (fun j hj => hstep j (Nat.lt_succ_of_lt hj)) h'
      refine ⟨opt, ?_, hend⟩
      unfold createOptInterface
      rw [hlcim']
      exact hopt

end Tracks

/-- Edges that go from a smaller to a larger context and reach all, and paths for the edges that are
removed. -/
structure CarriesOver (system_size : ℕ) (E D : ℕ × ℕ → Prop) (F : ℕ × ℕ → ℕ × ℕ → Prop) : Prop where
  increasing : ∀ a b, D (a, b) → a < b
  parent : ∀ b, 0 < b → b < system_size → ∃ a, a < b ∧ D (a, b)
  path : ∀ r, E r → ¬ D r → ∃ c,
    Relation.ReflTransGen (fun a b => D (a, b) ∧ F (a, b) r) c r.1 ∧
    Relation.ReflTransGen (fun a b => D (a, b) ∧ F (a, b) r) c r.2

/-- The two relations say all that is to be shown of the interfaces. -/
lemma CarriesOver.preservesCheckability {w n : ℕ} {orig opt : LocalInterfaceMap w}
    {E D : ℕ × ℕ → Prop} {F : ℕ × ℕ → ℕ × ℕ → Prop} (h : CarriesOver n E D F)
    (horig : ∀ e, (orig e).isSome = true ↔ E e) (hopt : Tracks orig D F opt) :
    PreservesCheckability n orig opt where
  acyclic c hc := by
    have hlt : ∀ a b, Relation.TransGen (Remains opt) a b → a < b := by
      intro a b hab
      induction hab with
      | single hab => exact h.increasing a _ ((hopt.dom _).1 hab)
      | tail _ hbc ih => exact ih.trans (h.increasing _ _ ((hopt.dom _).1 hbc))
    exact lt_irrefl c (hlt c c hc)
  reachable := by
    apply reachable_of_parent
    intro c hpos hc
    obtain ⟨a, ha, hD⟩ := h.parent c hpos hc
    exact ⟨a, ha, (hopt.dom (a, c)).2 hD⟩
  checkable a b V hV hnone := by
    have hE : E (a, b) := by
      rw [← horig, hV]
      rfl
    have hD : ¬ D (a, b) := by
      rw [← hopt.dom, hnone]
      exact Bool.false_ne_true
    have hcarries : ∀ x y, D (x, y) ∧ F (x, y) (a, b) → Carries opt V x y := by
      rintro x y ⟨hxy, hF⟩
      obtain ⟨U, hU⟩ := Option.isSome_iff_exists.1 ((hopt.dom (x, y)).2 hxy)
      exact ⟨U, hU, hopt.carries _ _ V U hF hV hU⟩
    obtain ⟨c, hca, hcb⟩ := h.path (a, b) hE hD
    exact ⟨c, Relation.ReflTransGen.mono hcarries _ _ hca,
      Relation.ReflTransGen.mono hcarries _ _ hcb⟩

end Dmcs
