import Dmcs.Generator.OptTopologyGenerator

/-!
# Rings and their optimisation (`RingTopoGenerator`, `MultipleRingTopoGenerator`)

A ring is cut at the edge from its last context to the first, a multiple ring, whose three ears
share their ends, at the three edges that close an ear.  All other edges get the bits of the edges
that are cut.

## The argument

As for the other topologies, `Left` and `Carried` describe what the loop has done when the contexts
after `i` are done.  In the ring the only edge that is removed is removed last, so all contexts in
between carry its interface on.  In three rings the closing edges are there until the first context
is done (`left_closing`), and every other edge has got all three interfaces by then.
-/

namespace Dmcs

/-! ## The ring -/

namespace Ring

def genNeighborList (system_size id : ℕ) : List (ℕ × ℕ) :=
  if id = system_size then [genNeighbor id 1] else [genNeighbor id (id + 1)]

def create_opt_interface {w : ℕ} (system_size id : ℕ) (lcim : LocalInterfaceMap w) :
    Option (LocalInterfaceMap w) :=
  if id = system_size then some lcim
  else do
    let lcim ←
      if system_size > 1 then addInterface (id - 1, id) (system_size - 1, 0) lcim else some lcim
    if id = 1 then some (eraseInterface (system_size - 1, 0) lcim) else some lcim

def topology : Topology := ⟨genNeighborList, create_opt_interface⟩

/-- The edges when the contexts after `i` are done. -/
def Left (n i : ℕ) (e : ℕ × ℕ) : Prop :=
  (e.2 = e.1 + 1 ∧ e.2 < n) ∨ (0 < i ∧ e = (n - 1, 0))

/-- The interfaces they carry. -/
def Carried (n i : ℕ) (e r : ℕ × ℕ) : Prop :=
  e = r ∨ (r = (n - 1, 0) ∧ e.2 = e.1 + 1 ∧ e.2 < n ∧ i < e.2)

variable {n : ℕ}

lemma mem_generate (hn : 2 ≤ n) (e : ℕ × ℕ) :
    e ∈ generate (genNeighborList n) n ↔ Left n n e := by
  obtain ⟨a, b⟩ := e
  unfold generate Left genNeighborList genNeighbor
  simp only [List.mem_flatMap, List.mem_range'_1, Prod.mk.injEq]
  constructor
  · rintro ⟨id, hid, hmem⟩
    split at hmem
    · simp only [List.mem_singleton, Prod.mk.injEq] at hmem
      omega
    · simp only [List.mem_singleton, Prod.mk.injEq] at hmem
      omega
  · rintro (⟨hb, hlt⟩ | ⟨-, ha, hb⟩)
    · refine ⟨a + 1, by omega, ?_⟩
      rw [if_neg (by omega)]
      simp only [List.mem_singleton, Prod.mk.injEq]
      omega
    · refine ⟨n, by omega, ?_⟩
      rw [if_pos rfl]
      simp only [List.mem_singleton, Prod.mk.injEq]
      omega

lemma step {w : ℕ} {orig lcim : LocalInterfaceMap w} (hn : 2 ≤ n) {i : ℕ} (hi : i < n)
    (h : Tracks orig (Left n (i + 1)) (Carried n (i + 1)) lcim) :
    ∃ lcim', create_opt_interface n (i + 1) lcim = some lcim' ∧
      Tracks orig (Left n i) (Carried n i) lcim' := by
  unfold create_opt_interface
  -- the edge of the last context is the one that is cut later on
  by_cases hlast : i + 1 = n
  · refine ⟨lcim, if_pos hlast, h.imp ?_ ?_⟩
    · intro e
      unfold Left
      have hpos : 0 < i := by omega
      simp [hpos]
    · rintro e r - (heq | ⟨-, -, hlt, hgt⟩)
      · exact Or.inl heq
      · omega
  · have hfirst : Left n (i + 1) (i, i + 1) := Or.inl ⟨rfl, by show i + 1 < n; omega⟩
    have hclosing : Left n (i + 1) (n - 1, 0) := Or.inr ⟨Nat.succ_pos i, rfl⟩
    obtain ⟨lcim', hadd, h'⟩ := h.add hfirst hclosing
    have hcarried : ∀ e r, Carried n i e r →
        Carried n (i + 1) e r ∨ (e = (i, i + 1) ∧ Carried n (i + 1) (n - 1, 0) r) := by
      rintro ⟨a, b⟩ r (heq | ⟨rfl, hb, hlt, hib⟩)
      · exact Or.inl (Or.inl heq)
      · simp only at hb hlt hib
        by_cases hnew : b = i + 1
        · right
          refine ⟨?_, Or.inl rfl⟩
          rw [Prod.mk.injEq]
          omega
        · exact Or.inl (Or.inr ⟨rfl, hb, hlt, by show i + 1 < b; omega⟩)
    rw [if_neg hlast, if_pos (by omega), Nat.add_sub_cancel, hadd]
    -- the first context removes it
    by_cases hi0 : i = 0
    · subst hi0
      refine ⟨_, rfl, (h'.erase (n - 1, 0)).imp ?_ (fun e r _ => hcarried e r)⟩
      rintro ⟨a, b⟩
      unfold Left
      simp only [Prod.mk.injEq, ne_eq]
      omega
    · refine ⟨lcim', if_neg (by omega), h'.imp ?_ (fun e r _ => hcarried e r)⟩
      intro e
      unfold Left
      have hpos : 0 < i := by omega
      simp [hpos]

lemma carriesOver (hn : 2 ≤ n) : CarriesOver n (Left n n) (Left n 0) (Carried n 0) where
  increasing a b h := by
    rcases h with ⟨hb, -⟩ | ⟨hpos, -⟩
    · simp only at hb
      omega
    · exact absurd hpos (lt_irrefl 0)
  parent b hb hbn := ⟨b - 1, by omega, Or.inl ⟨by show b = b - 1 + 1; omega, hbn⟩⟩
  path r hr hgone := by
    rcases hr with hr | ⟨-, rfl⟩
    · exact absurd (Or.inl hr) hgone
    · -- from the first context the path over all others
      refine ⟨0, ?_, Relation.ReflTransGen.refl⟩
      have hpath : ∀ c < n, Relation.ReflTransGen
          (fun a b => Left n 0 (a, b) ∧ Carried n 0 (a, b) (n - 1, 0)) 0 c := by
        intro c hc
        induction c with
        | zero => exact Relation.ReflTransGen.refl
        | succ c ih =>
            refine (ih (Nat.lt_of_succ_lt hc)).tail ⟨Or.inl ⟨rfl, hc⟩, Or.inr ⟨rfl, rfl, hc, ?_⟩⟩
            exact Nat.succ_pos c
      exact hpath (n - 1) (by omega)

lemma optimises (hn : 2 ≤ n) : topology.Optimises n := by
  intro w lcim hlcim
  have horig : ∀ e, (lcim e).isSome = true ↔ Left n n e :=
    fun e => (hlcim e).trans (mem_generate hn e)
  have hstart : Tracks lcim (Left n n) (Carried n n) lcim := by
    apply (Tracks.start horig).imp (fun _ => Iff.rfl)
    rintro e r - (heq | ⟨-, -, hlt, hgt⟩)
    · exact heq
    · omega
  obtain ⟨opt, hopt, htracks⟩ := Tracks.run (fun i hi lcim h => step hn hi h) hstart
  exact ⟨opt, hopt, (carriesOver hn).preservesCheckability horig htracks⟩

end Ring

/-! ## Three rings -/

namespace MultipleRing

def genNeighborList (system_size id : ℕ) : List (ℕ × ℕ) :=
  let earLoopSize := (system_size + 3) / 3
  let secondLoopJump := earLoopSize - 1
  let firstLoopEnd := 2 + earLoopSize + earLoopSize - 3
  if id = 2 then [genNeighbor id (id + 1), genNeighbor id (id + earLoopSize)]
  else if id = earLoopSize + 1 then [genNeighbor id 1, genNeighbor id (id + secondLoopJump)]
  else if id = system_size then [genNeighbor id earLoopSize]
  else if id = firstLoopEnd then [genNeighbor id 3]
  else [genNeighbor id (id + 1)]

/-- Adding the interfaces `bs_2a`, `bs_2b` and `bs_2c` of three edges to that of `e`. -/
def addThree {w : ℕ} (a b c e : ℕ × ℕ) (lcim : LocalInterfaceMap w) :
    Option (LocalInterfaceMap w) := do
  let lcim ← addInterface e a lcim
  let lcim ← addInterface e b lcim
  addInterface e c lcim

def create_opt_interface {w : ℕ} (system_size id : ℕ) (lcim : LocalInterfaceMap w) :
    Option (LocalInterfaceMap w) :=
  let earLoopSize := (system_size + 3) / 3
  let secondLoopJump := earLoopSize - 1
  let firstLoopEnd := 2 + earLoopSize + earLoopSize - 3
  let add := addThree (firstLoopEnd - 1, 2) (earLoopSize, 0) (system_size - 1, earLoopSize - 1)
  if id = firstLoopEnd ∨ id = system_size then some lcim
  else do
    let lcim ←
      if id = earLoopSize + 1 then add (id - 1, id + secondLoopJump - 1) lcim
      else add (id - 1, id) lcim
    let lcim ← if id = 2 then add (id - 1, id + earLoopSize - 1) lcim else some lcim
    if id = 1 then
      some (eraseInterface (system_size - 1, earLoopSize - 1)
        (eraseInterface (earLoopSize, 0) (eraseInterface (firstLoopEnd - 1, 2) lcim)))
    else some lcim

def topology : Topology := ⟨genNeighborList, create_opt_interface⟩

/-- The edges that close an ear of size `q`. -/
def Closing (q : ℕ) (e : ℕ × ℕ) : Prop :=
  e = (2 * q - 2, 2) ∨ e = (q, 0) ∨ e = (3 * q - 4, q - 1)

/-- All other edges: along an ear, and from the first ear to the others. -/
def Kept (q : ℕ) (e : ℕ × ℕ) : Prop :=
  (e.2 = e.1 + 1 ∧ e.2 < 3 * q - 3 ∧ e.1 ≠ q ∧ e.1 ≠ 2 * q - 2) ∨
    e = (1, q + 1) ∨ e = (q, 2 * q - 1)

def Left (q i : ℕ) (e : ℕ × ℕ) : Prop := Kept q e ∨ (0 < i ∧ Closing q e)

def Carried (q i : ℕ) (e r : ℕ × ℕ) : Prop := e = r ∨ (Closing q r ∧ Kept q e ∧ i ≤ e.1)

variable {q : ℕ}

lemma mem_generate (hq : 3 ≤ q) (e : ℕ × ℕ) :
    e ∈ generate (genNeighborList (3 * (q - 1))) (3 * (q - 1)) ↔ Left q (3 * (q - 1)) e := by
  obtain ⟨a, b⟩ := e
  have hear : (3 * (q - 1) + 3) / 3 = q := by omega
  unfold generate Left Kept Closing genNeighborList genNeighbor
  simp only [hear, List.mem_flatMap, List.mem_range'_1, Prod.mk.injEq]
  constructor
  · rintro ⟨id, hid, hmem⟩
    split_ifs at hmem with hsecond hjump hlast hend
    · simp only [List.mem_cons, List.not_mem_nil, Prod.mk.injEq, or_false] at hmem
      rcases hmem with ⟨ha, hb⟩ | ⟨ha, hb⟩
      · exact Or.inl (Or.inl (by omega))
      · exact Or.inl (Or.inr (Or.inl (by omega)))
    · simp only [List.mem_cons, List.not_mem_nil, Prod.mk.injEq, or_false] at hmem
      rcases hmem with ⟨ha, hb⟩ | ⟨ha, hb⟩
      · exact Or.inr ⟨by omega, Or.inr (Or.inl (by omega))⟩
      · exact Or.inl (Or.inr (Or.inr (by omega)))
    · simp only [List.mem_singleton, Prod.mk.injEq] at hmem
      exact Or.inr ⟨by omega, Or.inr (Or.inr (by omega))⟩
    · simp only [List.mem_singleton, Prod.mk.injEq] at hmem
      exact Or.inr ⟨by omega, Or.inl (by omega)⟩
    · simp only [List.mem_singleton, Prod.mk.injEq] at hmem
      exact Or.inl (Or.inl (by omega))
  · intro h
    refine ⟨a + 1, ?_, ?_⟩
    · rcases h with (h | h | h) | ⟨-, h | h | h⟩ <;> omega
    · rcases h with (⟨hb, hlt, hq₁, hq₂⟩ | ⟨rfl, rfl⟩ | ⟨rfl, rfl⟩) |
        ⟨-, ⟨rfl, rfl⟩ | ⟨rfl, rfl⟩ | ⟨rfl, rfl⟩⟩
      · by_cases hsecond : a + 1 = 2
        · rw [if_pos hsecond]
          simp
          omega
        · rw [if_neg hsecond, if_neg (by omega), if_neg (by omega), if_neg (by omega)]
          simp
          omega
      · rw [if_pos rfl]
        simp
        omega
      · rw [if_neg (by omega), if_pos rfl]
        simp
        omega
      · rw [if_neg (by omega), if_neg (by omega), if_neg (by omega), if_pos (by omega)]
        simp
      · rw [if_neg (by omega), if_pos rfl]
        simp
      · rw [if_neg (by omega), if_neg (by omega), if_pos (by omega)]
        simp

lemma add_three {w : ℕ} {orig lcim : LocalInterfaceMap w} {D : ℕ × ℕ → Prop}
    {F : ℕ × ℕ → ℕ × ℕ → Prop} {a b c e : ℕ × ℕ} (h : Tracks orig D F lcim) (he : D e)
    (ha : D a) (hb : D b) (hc : D c) :
    ∃ lcim', addThree a b c e lcim = some lcim' ∧
      Tracks orig D (fun x r => F x r ∨ (x = e ∧ (F a r ∨ F b r ∨ F c r))) lcim' := by
  obtain ⟨lcim₁, hadd₁, h₁⟩ := h.add he ha
  obtain ⟨lcim₂, hadd₂, h₂⟩ := h₁.add he hb
  obtain ⟨lcim₃, hadd₃, h₃⟩ := h₂.add he hc
  refine ⟨lcim₃, ?_, h₃.imp (fun _ => Iff.rfl) ?_⟩
  · unfold addThree
    rw [hadd₁]
    show (addInterface e b lcim₁ >>= _) = _
    rw [hadd₂]
    exact hadd₃
  · rintro x r - (hF | ⟨rfl, hF | hF | hF⟩)
    · exact Or.inl (Or.inl (Or.inl hF))
    · exact Or.inl (Or.inl (Or.inr ⟨rfl, hF⟩))
    · exact Or.inl (Or.inr ⟨rfl, Or.inl hF⟩)
    · exact Or.inr ⟨rfl, Or.inl (Or.inl hF)⟩

/-- The three closing edges are there until the first context is done. -/
lemma left_closing {i : ℕ} : Left q (i + 1) (2 * q - 2, 2) ∧ Left q (i + 1) (q, 0) ∧
    Left q (i + 1) (3 * q - 4, q - 1) :=
  ⟨Or.inr ⟨Nat.succ_pos i, Or.inl rfl⟩, Or.inr ⟨Nat.succ_pos i, Or.inr (Or.inl rfl)⟩,
    Or.inr ⟨Nat.succ_pos i, Or.inr (Or.inr rfl)⟩⟩

/-- What is carried after a context was carried before, or it is new on the edges of the context,
which get all three interfaces. -/
lemma carried_cases {i : ℕ} {e r : ℕ × ℕ} (h : Carried q i e r) :
    Carried q (i + 1) e r ∨ (Kept q e ∧ e.1 = i ∧ (Carried q (i + 1) (2 * q - 2, 2) r ∨
      Carried q (i + 1) (q, 0) r ∨ Carried q (i + 1) (3 * q - 4, q - 1) r)) := by
  rcases h with rfl | ⟨hr, he, hi⟩
  · exact Or.inl (Or.inl rfl)
  · by_cases heq : e.1 = i
    · refine Or.inr ⟨he, heq, ?_⟩
      rcases hr with rfl | rfl | rfl
      · exact Or.inl (Or.inl rfl)
      · exact Or.inr (Or.inl (Or.inl rfl))
      · exact Or.inr (Or.inr (Or.inl rfl))
    · exact Or.inl (Or.inr ⟨hr, he, by omega⟩)

lemma left_succ {i : ℕ} (hi : 0 < i) (e : ℕ × ℕ) : Left q (i + 1) e ↔ Left q i e := by
  unfold Left
  simp [hi]

lemma not_closing_of_kept (hq : 3 ≤ q) {e : ℕ × ℕ} (he : Kept q e) : ¬ Closing q e := by
  obtain ⟨a, b⟩ := e
  unfold Kept at he
  unfold Closing
  simp only [Prod.mk.injEq] at he ⊢
  rcases he with he | he | he
  · omega
  · omega
  · omega

/-- The first context removes the closing edges. -/
lemma left_zero (hq : 3 ≤ q) (e : ℕ × ℕ) :
    ((Left q 1 e ∧ e ≠ (2 * q - 2, 2)) ∧ e ≠ (q, 0)) ∧ e ≠ (3 * q - 4, q - 1) ↔ Left q 0 e := by
  constructor
  · rintro ⟨⟨⟨hkept | ⟨-, hclosing⟩, ha⟩, hb⟩, hc⟩
    · exact Or.inl hkept
    · rcases hclosing with h | h | h
      · exact absurd h ha
      · exact absurd h hb
      · exact absurd h hc
  · rintro (hkept | ⟨hpos, -⟩)
    · have hnot := not_closing_of_kept hq hkept
      exact ⟨⟨⟨Or.inl hkept, fun h => hnot (Or.inl h)⟩, fun h => hnot (Or.inr (Or.inl h))⟩,
        fun h => hnot (Or.inr (Or.inr h))⟩
    · exact absurd hpos (lt_irrefl 0)

lemma step {w : ℕ} {orig lcim : LocalInterfaceMap w} (hq : 3 ≤ q) {i : ℕ} (hi : i < 3 * (q - 1))
    (h : Tracks orig (Left q (i + 1)) (Carried q (i + 1)) lcim) :
    ∃ lcim', create_opt_interface (3 * (q - 1)) (i + 1) lcim = some lcim' ∧
      Tracks orig (Left q i) (Carried q i) lcim' := by
  have hear : (3 * (q - 1) + 3) / 3 = q := by omega
  have hend : 2 + q + q - 3 - 1 = 2 * q - 2 := by omega
  have hlast : 3 * (q - 1) - 1 = 3 * q - 4 := by omega
  obtain ⟨ha, hb, hc⟩ := left_closing (q := q) (i := i)
  unfold create_opt_interface
  simp only [hear, hend, hlast]
  by_cases hskip : i + 1 = 2 + q + q - 3 ∨ i + 1 = 3 * (q - 1)
  · -- the edges of these two contexts are closing ones
    refine ⟨lcim, if_pos hskip, h.imp (left_succ (by omega)) ?_⟩
    rintro ⟨a, b⟩ r - (heq | ⟨hr, he, hle⟩)
    · exact Or.inl heq
    · refine Or.inr ⟨hr, he, ?_⟩
      simp only at hle ⊢
      unfold Kept at he
      simp only [Prod.mk.injEq] at he
      omega
  · rw [if_neg hskip]
    by_cases hjump : i = q
    · -- the first ear ends, the third one begins
      subst hjump
      have hedge : Left i (i + 1) (i, 2 * i - 1) := Or.inl (Or.inr (Or.inr rfl))
      obtain ⟨lcim', hadd, h'⟩ := add_three h hedge ha hb hc
      refine ⟨lcim', ?_, h'.imp (left_succ (by omega)) ?_⟩
      · have htarget : i + 1 + (i - 1) - 1 = 2 * i - 1 := by omega
        rw [if_pos rfl, Nat.add_sub_cancel, htarget, hadd]
        show (if i + 1 = 2 then _ else _) = _
        rw [if_neg (by omega)]
        exact if_neg (by omega)
      · rintro ⟨a, b⟩ r - hr
        refine (carried_cases hr).imp id (fun hnew => ⟨?_, hnew.2.2⟩)
        obtain ⟨he, ha, -⟩ := hnew
        unfold Kept at he
        simp only [Prod.mk.injEq] at he ha ⊢
        omega
    · have hedge : Left q (i + 1) (i, i + 1) :=
        Or.inl (Or.inl ⟨rfl, by show i + 1 < _; omega, hjump, by show i ≠ _; omega⟩)
      obtain ⟨lcim', hadd, h'⟩ := add_three h hedge ha hb hc
      rw [if_neg (by omega), Nat.add_sub_cancel, hadd]
      show ∃ lcim'', (if i + 1 = 2 then _ else _) = some lcim'' ∧ _
      by_cases hsecond : i = 1
      · -- the second ear begins
        subst hsecond
        have hedge' : Left q 2 (1, q + 1) := Or.inl (Or.inr (Or.inl rfl))
        obtain ⟨lcim'', hadd', h''⟩ := add_three h' hedge' ha hb hc
        refine ⟨lcim'', ?_, h''.imp (left_succ (by omega)) ?_⟩
        · have htarget : 2 + q - 1 = q + 1 := by omega
          rw [if_pos rfl, htarget, hadd']
          rw [Option.bind_eq_bind, Option.bind_some]
          exact if_neg (by omega)
        · rintro ⟨a, b⟩ r - hr
          rcases carried_cases hr with hold | ⟨he, ha, hthree⟩
          · exact Or.inl (Or.inl hold)
          · unfold Kept at he
            simp only [Prod.mk.injEq] at he ha
            rcases he with ⟨hb, -⟩ | ⟨-, hb⟩ | ⟨hq1, -⟩
            · refine Or.inl (Or.inr ⟨?_, hthree⟩)
              rw [Prod.mk.injEq]
              omega
            · refine Or.inr ⟨?_, hthree.imp Or.inl (Or.imp Or.inl Or.inl)⟩
              rw [Prod.mk.injEq]
              exact ⟨ha, hb⟩
            · omega
      · rw [if_neg (by omega)]
        have hnew : ∀ e r, Carried q i e r → Carried q (i + 1) e r ∨ (e = (i, i + 1) ∧
            (Carried q (i + 1) (2 * q - 2, 2) r ∨ Carried q (i + 1) (q, 0) r ∨
              Carried q (i + 1) (3 * q - 4, q - 1) r)) := by
          rintro ⟨a, b⟩ r hr
          refine (carried_cases hr).imp id (fun hnew => ⟨?_, hnew.2.2⟩)
          obtain ⟨he, ha, -⟩ := hnew
          unfold Kept at he
          simp only [Prod.mk.injEq] at he ha ⊢
          omega
        show ∃ lcim'', (if i + 1 = 1 then _ else some lcim') = some lcim'' ∧ _
        by_cases hfirst : i = 0
        · subst hfirst
          exact ⟨_, if_pos rfl, (((h'.erase _).erase _).erase _).imp (left_zero hq)
            (fun e r _ => hnew e r)⟩
        · exact ⟨lcim', if_neg (by omega), h'.imp (left_succ (by omega)) (fun e r _ => hnew e r)⟩

/-- Every context but the first is asked by an earlier one. -/
lemma exists_kept (hq : 3 ≤ q) {b : ℕ} (hb : 0 < b) (hlt : b < 3 * (q - 1)) :
    ∃ a < b, Kept q (a, b) := by
  by_cases hsecond : b = q + 1
  · exact ⟨1, by omega, Or.inr (Or.inl (by rw [hsecond]))⟩
  · by_cases hthird : b = 2 * q - 1
    · exact ⟨q, by omega, Or.inr (Or.inr (by rw [hthird]))⟩
    · refine ⟨b - 1, by omega, Or.inl ⟨?_, ?_, ?_, ?_⟩⟩
      · show b = b - 1 + 1
        omega
      · show b < _
        omega
      · show b - 1 ≠ q
        omega
      · show b - 1 ≠ 2 * q - 2
        omega

lemma carriesOver (hq : 3 ≤ q) :
    CarriesOver (3 * (q - 1)) (Left q (3 * (q - 1))) (Left q 0) (Carried q 0) where
  increasing a b h := by
    rcases h with (⟨hb, -⟩ | h | h) | ⟨hpos, -⟩
    · simp only at hb
      omega
    · rw [Prod.mk.injEq] at h
      omega
    · rw [Prod.mk.injEq] at h
      omega
    · exact absurd hpos (lt_irrefl 0)
  parent b hb hlt := by
    obtain ⟨a, ha, hkept⟩ := exists_kept hq hb hlt
    exact ⟨a, ha, Or.inl hkept⟩
  path r hr hgone := by
    have hclosing : Closing q r := by
      rcases hr with hr | ⟨-, hr⟩
      · exact absurd (Or.inl hr) hgone
      · exact hr
    -- the edges that are left lead from the first context everywhere, and carry everything
    have hpath : ∀ c < 3 * (q - 1), Relation.ReflTransGen
        (fun a b => Left q 0 (a, b) ∧ Carried q 0 (a, b) r) 0 c := by
      intro c hc
      induction c using Nat.strong_induction_on with
      | h c ih =>
          rcases Nat.eq_zero_or_pos c with rfl | hpos
          · exact Relation.ReflTransGen.refl
          · obtain ⟨a, ha, hkept⟩ := exists_kept hq hpos hc
            exact (ih a ha (ha.trans hc)).tail
              ⟨Or.inl hkept, Or.inr ⟨hclosing, hkept, Nat.zero_le a⟩⟩
    have hends : r.1 < 3 * (q - 1) ∧ r.2 < 3 * (q - 1) := by
      rcases hclosing with rfl | rfl | rfl
      · exact ⟨by show 2 * q - 2 < _; omega, by show 2 < _; omega⟩
      · exact ⟨by show q < _; omega, by show 0 < _; omega⟩
      · exact ⟨by show 3 * q - 4 < _; omega, by show q - 1 < _; omega⟩
    exact ⟨0, hpath r.1 hends.1, hpath r.2 hends.2⟩

lemma optimises (hq : 3 ≤ q) : topology.Optimises (3 * (q - 1)) := by
  intro w lcim hlcim
  have horig : ∀ e, (lcim e).isSome = true ↔ Left q (3 * (q - 1)) e :=
    fun e => (hlcim e).trans (mem_generate hq e)
  have hstart : Tracks lcim (Left q (3 * (q - 1))) (Carried q (3 * (q - 1))) lcim := by
    apply (Tracks.start horig).imp (fun _ => Iff.rfl)
    rintro e r - (heq | ⟨-, hkept, hle⟩)
    · exact heq
    · exfalso
      obtain ⟨a, b⟩ := e
      unfold Kept at hkept
      simp only [Prod.mk.injEq] at hkept hle
      omega
  obtain ⟨opt, hopt, htracks⟩ := Tracks.run (fun i hi lcim h => step hq hi h) hstart
  exact ⟨opt, hopt, (carriesOver hq).preservesCheckability horig htracks⟩

end MultipleRing

end Dmcs
