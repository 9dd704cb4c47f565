import Mathlib.Data.Finset.Card
import Mathlib.Logic.Relation

/-!
# Unfolding a finite graph along histories

A search that carries the set of vertices it has already entered, and stops at a vertex of that
set, unfolds a finite graph into a finite tree.  `induction` is the induction over such a tree, on
the vertices that are not in the history yet.  `FreshPath R h c d` says that the search, started at
`c` with history `h`, enters `d`; `freshPath_of_reflTransGen` says that from an empty history it
enters every vertex that can be reached at all.
-/

namespace History

variable {α : Type*} [DecidableEq α]

/-- Induction on the vertices of `U` that are not in the history. -/
theorem induction (U : Finset α) {motive : Finset α → α → Prop}
    (step : ∀ h c, c ∈ U → (c ∉ h → ∀ d ∈ U, motive (insert c h) d) → motive h c)
    (h : Finset α) {c : α} (hc : c ∈ U) : motive h c := by
  have hrank : ∀ (n : ℕ) (h : Finset α) (c : α), c ∈ U → (U \ h).card = n → motive h c := by
    intro n
    induction n using Nat.strong_induction_on with
    | _ n ih =>
        intro h c hc hn
        refine step h c hc (fun hch d hd => ?_)
        have hlt : (U \ insert c h).card < n := by
          rw [← hn]
          refine Finset.card_lt_card ((Finset.ssubset_iff_of_subset ?_).mpr ⟨c, ?_, ?_⟩)
          · exact Finset.sdiff_subset_sdiff le_rfl (Finset.subset_insert c h)
          · exact Finset.mem_sdiff.mpr ⟨hc, hch⟩
          · simp
        exact ih _ hlt (insert c h) d hd rfl
  exact hrank _ h c hc rfl

variable (R : α → α → Prop)

/-- A path from `c` to `d` that enters no vertex of `h` and no vertex twice. -/
inductive FreshPath : Finset α → α → α → Prop
  | refl {h : Finset α} {c : α} (hc : c ∉ h) : FreshPath h c c
  | step {h : Finset α} {c e d : α} (hc : c ∉ h) (hce : R c e)
      (path : FreshPath (insert c h) e d) : FreshPath h c d

variable {R}

lemma FreshPath.start_not_mem {h : Finset α} {c d : α} (path : FreshPath R h c d) : c ∉ h := by
  cases path with
  | refl hc => exact hc
  | step hc => exact hc

/-- A path that avoids `h` is either at its end or leaves `c` for good. -/
private lemma leaves {h : Finset α} {c d : α}
    (path : Relation.ReflTransGen (fun x y => R x y ∧ y ∉ h) c d) :
    d = c ∨ ∃ e, R c e ∧ e ∉ insert c h ∧
      Relation.ReflTransGen (fun x y => R x y ∧ y ∉ insert c h) e d := by
  induction path with
  | refl => exact Or.inl rfl
  | @tail x y _ hxy ih =>
      by_cases hyc : y = c
      · exact Or.inl hyc
      · have hy : y ∉ insert c h := by simp [hyc, hxy.2]
        rcases ih with rfl | ⟨e, hce, he, hex⟩
        · exact Or.inr ⟨y, hxy.1, hy, .refl⟩
        · exact Or.inr ⟨e, hce, he, hex.tail ⟨hxy.1, hy⟩⟩

/-- From an empty history every reachable vertex is entered. -/
theorem freshPath_of_reflTransGen (U : Finset α) (hU : ∀ x y, R x y → y ∈ U) {c d : α}
    (hc : c ∈ U) (path : Relation.ReflTransGen R c d) : FreshPath R ∅ c d := by
  have hall : ∀ h : Finset α, ∀ c ∈ U, c ∉ h → ∀ d,
      Relation.ReflTransGen (fun x y => R x y ∧ y ∉ h) c d → FreshPath R h c d := by
    intro h c hc
    refine induction U (motive := fun h c => c ∉ h → ∀ d,
      Relation.ReflTransGen (fun x y => R x y ∧ y ∉ h) c d → FreshPath R h c d) ?_ h hc
    intro h c _ ih hch d path
    rcases leaves path with rfl | ⟨e, hce, he, hed⟩
    · exact .refl hch
    · exact .step hch hce (ih hch e (hU c e hce) he d hed)
  refine hall ∅ c hc (by simp) d (path.lift id (fun x y hxy => ⟨hxy, ?_⟩))
  exact Finset.notMem_empty _

end History
