import Dmcs.Generator.RingTopologies

/-!
# Zig-zag diamonds and houses (`DiamondZigZagTopoGenerator`, `HouseTopoGenerator`)

A zig-zag diamond is optimised to the chain of its contexts, and a house to its walls: what remains
of a topology of houses is a tree, in which the roof of a house hangs from a wall of its parent.

## The argument

For each generator `Left i` are the edges that remain when the contexts after `i` are done, and
`Carried i e r` says that the edge `e` carries the interface of `r` by then.  The step lemma shows
that one call of `create_opt_interface` leads from the one to the other; `Tracks.run` makes of it a
statement about the whole loop, and `CarriesOver.preservesCheckability` gives what is to be shown.

In a house the contexts are counted from 1 and come in groups of four behind the first one, so a
case is made of the remainder of a context by four (`id_cases`).  The house that hangs from a
context is handled when that context is reached, and this is where the interface of a removed edge
is handed on to the house below (`addChild_tracks`).
-/

namespace Dmcs

/-! ## The zig-zag diamond -/

namespace DiamondZigZag

def genNeighborList (system_size id : ℕ) : List (ℕ × ℕ) :=
  if id = system_size then []
  else if id % 3 = 1 ∨ id % 3 = 2 then [genNeighbor id (id + 1), genNeighbor id (id + 2)]
  else [genNeighbor id (id + 1)]

def create_opt_interface {w : ℕ} (system_size id : ℕ) (lcim : LocalInterfaceMap w) :
    Option (LocalInterfaceMap w) :=
  if id = system_size then some lcim
  else if id % 3 = 1 then addInterface (id - 1, id) (id, id + 1) lcim
  else if id % 3 = 2 then do
    let lcim ← addInterface (id - 1, id) (id - 2, id) lcim
    let lcim ← addInterface (id - 1, id) (id, id + 1) lcim
    some (eraseInterface (id - 2, id) lcim)
  else do
    let lcim ← addInterface (id - 1, id) (id - 2, id) lcim
    some (eraseInterface (id - 2, id) lcim)

def topology : Topology := ⟨genNeighborList, create_opt_interface⟩

/-- The chain, and the shortcuts over the contexts that are not done. -/
def Left (n i : ℕ) (e : ℕ × ℕ) : Prop :=
  e.2 < n ∧ (e.2 = e.1 + 1 ∨ (e.2 = e.1 + 2 ∧ e.1 % 3 ≠ 2 ∧ e.2 ≤ i))

/-- The two edges under a shortcut carry its interface. -/
def Carried (i : ℕ) (e r : ℕ × ℕ) : Prop :=
  e = r ∨ (r.2 = r.1 + 2 ∧ r.1 % 3 ≠ 2 ∧ e.2 = e.1 + 1 ∧ i < e.2 ∧ (e.1 = r.1 ∨ e.2 = r.2))

variable {m : ℕ}

lemma mem_generate (e : ℕ × ℕ) : e ∈ generate (genNeighborList (3 * m + 1)) (3 * m + 1) ↔
    Left (3 * m + 1) (3 * m + 1) e := by
  obtain ⟨a, b⟩ := e
  unfold generate Left genNeighborList genNeighbor
  simp only [List.mem_flatMap, List.mem_range'_1]
  constructor
  · rintro ⟨id, hid, hmem⟩
    split_ifs at hmem
    · cases hmem
    · simp only [List.mem_cons, List.not_mem_nil, Prod.mk.injEq, or_false] at hmem
      omega
    · simp only [List.mem_singleton, Prod.mk.injEq] at hmem
      omega
  · rintro ⟨hlt, h⟩
    refine ⟨a + 1, by omega, ?_⟩
    rw [if_neg (by omega)]
    split_ifs
    · simp only [List.mem_cons, List.not_mem_nil, Prod.mk.injEq, or_false]
      omega
    · simp only [List.mem_singleton, Prod.mk.injEq]
      omega

/-- What is carried after a context was carried before, or the edge from the context is new. -/
lemma carried_cases {i : ℕ} {e r : ℕ × ℕ} (h : Carried i e r) :
    Carried (i + 1) e r ∨
      (e = (i, i + 1) ∧ r.2 = r.1 + 2 ∧ r.1 % 3 ≠ 2 ∧ (r.1 = i ∨ r.2 = i + 1)) := by
  obtain ⟨a, b⟩ := e
  rcases h with heq | ⟨hr, hmod, hb, hi, hend⟩
  · exact Or.inl (Or.inl heq)
  · simp only at hb hi hend
    by_cases hnew : b = i + 1
    · right
      refine ⟨?_, hr, hmod, ?_⟩
      · rw [Prod.mk.injEq]
        omega
      · omega
    · exact Or.inl (Or.inr ⟨hr, hmod, hb, by show i + 1 < b; omega, hend⟩)

lemma step {w : ℕ} {orig lcim : LocalInterfaceMap w} {i : ℕ} (hi : i < 3 * m + 1)
    (h : Tracks orig (Left (3 * m + 1) (i + 1)) (Carried (i + 1)) lcim) :
    ∃ lcim', create_opt_interface (3 * m + 1) (i + 1) lcim = some lcim' ∧
      Tracks orig (Left (3 * m + 1) i) (Carried i) lcim' := by
  unfold create_opt_interface
  by_cases hlast : i + 1 = 3 * m + 1
  · refine ⟨lcim, if_pos hlast, h.imp ?_ ?_⟩
    · rintro ⟨a, b⟩
      unfold Left
      simp only
      omega
    · rintro e r ⟨hlt, -⟩ hr
      rcases carried_cases hr with hold | ⟨rfl, -⟩
      · exact hold
      · simp only at hlt
        omega
  · rw [if_neg hlast]
    have hedge : Left (3 * m + 1) (i + 1) (i, i + 1) := ⟨by show i + 1 < _; omega, Or.inl rfl⟩
    by_cases hone : (i + 1) % 3 = 1
    · -- the upper edge of a shortcut that begins here gets what the lower one has
      have hnext : Left (3 * m + 1) (i + 1) (i + 1, i + 2) :=
        ⟨by show i + 2 < _; omega, Or.inl rfl⟩
      obtain ⟨lcim', hadd, h'⟩ := h.add hedge hnext
      rw [if_pos hone, Nat.add_sub_cancel]
      refine ⟨lcim', hadd, h'.imp ?_ ?_⟩
      · rintro ⟨a, b⟩
        unfold Left
        simp only
        omega
      · rintro e r - hr
        rcases carried_cases hr with hold | ⟨rfl, hr, hmod, hend⟩
        · exact Or.inl hold
        · refine Or.inr ⟨rfl, Or.inr ⟨hr, hmod, rfl, ?_, Or.inr ?_⟩⟩
          · show i + 1 < i + 2
            omega
          · show i + 2 = r.2
            omega
    -- two contexts further up a shortcut ends here: its interface goes to the edge of this context,
    -- and the shortcut goes
    · have hshort : Left (3 * m + 1) (i + 1) (i - 1, i + 1) := by
        refine ⟨by show i + 1 < _; omega, Or.inr ⟨?_, ?_, le_refl (i + 1)⟩⟩
        · show i + 1 = i - 1 + 2
          omega
        · show (i - 1) % 3 ≠ 2
          omega
      have hgone : ∀ e, Left (3 * m + 1) (i + 1) e ∧ e ≠ (i - 1, i + 1) ↔ Left (3 * m + 1) i e := by
        rintro ⟨a, b⟩
        unfold Left
        simp only [Prod.mk.injEq, ne_eq]
        omega
      have hsub : i + 1 - 2 = i - 1 := by omega
      obtain ⟨lcim₁, hadd₁, h₁⟩ := h.add hedge hshort
      rw [if_neg hone, Nat.add_sub_cancel, hsub]
      -- where the next shortcut overlaps with it, the edge above gets the interface as well
      by_cases htwo : (i + 1) % 3 = 2
      · have hnext : Left (3 * m + 1) (i + 1) (i + 1, i + 2) :=
          ⟨by show i + 2 < _; omega, Or.inl rfl⟩
        obtain ⟨lcim₂, hadd₂, h₂⟩ := h₁.add hedge hnext
        refine ⟨eraseInterface (i - 1, i + 1) lcim₂, ?_, (h₂.erase _).imp hgone ?_⟩
        · rw [if_pos htwo, hadd₁]
          show (addInterface (i, i + 1) (i + 1, i + 2) lcim₁ >>= _) = _
          rw [hadd₂]
          rfl
        · rintro e r - hr
          rcases carried_cases hr with hold | ⟨rfl, hr, hmod, hend | hend⟩
          · exact Or.inl (Or.inl hold)
          · refine Or.inr ⟨rfl, Or.inl (Or.inr ⟨hr, hmod, rfl, ?_, Or.inr ?_⟩)⟩
            · show i + 1 < i + 2
              omega
            · show i + 2 = r.2
              omega
          · refine Or.inl (Or.inr ⟨rfl, Or.inl ?_⟩)
            rw [Prod.ext_iff]
            exact ⟨by show i - 1 = r.1; omega, hend.symm⟩
      · refine ⟨eraseInterface (i - 1, i + 1) lcim₁, ?_, (h₁.erase _).imp hgone ?_⟩
        · rw [if_neg htwo, hadd₁]
          rfl
        · rintro e r - hr
          rcases carried_cases hr with hold | ⟨rfl, hr, hmod, hend | hend⟩
          · exact Or.inl hold
          · omega
          · refine Or.inr ⟨rfl, Or.inl ?_⟩
            rw [Prod.ext_iff]
            exact ⟨by show i - 1 = r.1; omega, hend.symm⟩

lemma carriesOver (m : ℕ) :
    CarriesOver (3 * m + 1) (Left (3 * m + 1) (3 * m + 1)) (Left (3 * m + 1) 0) (Carried 0) where
  increasing a b h := by
    obtain ⟨-, h⟩ := h
    simp only at h
    omega
  parent b hb hlt := ⟨b - 1, by omega, hlt, Or.inl (by show b = b - 1 + 1; omega)⟩
  path r hr hgone := by
    obtain ⟨c, d⟩ := r
    obtain ⟨hlt, hd | ⟨hd, hmod, -⟩⟩ := hr
    · exact absurd ⟨hlt, Or.inl hd⟩ hgone
    · simp only at hlt hd hmod
      subst hd
      refine ⟨c, Relation.ReflTransGen.refl, ?_⟩
      apply (Relation.ReflTransGen.single (b := c + 1) _).tail
      · refine ⟨⟨hlt, Or.inl rfl⟩, Or.inr ⟨rfl, hmod, rfl, ?_, Or.inr rfl⟩⟩
        exact Nat.succ_pos _
      · refine ⟨⟨by show c + 1 < _; omega, Or.inl rfl⟩, Or.inr ⟨rfl, hmod, rfl, ?_, Or.inl rfl⟩⟩
        exact Nat.succ_pos _

lemma optimises (m : ℕ) : topology.Optimises (3 * m + 1) := by
  intro w lcim hlcim
  have horig : ∀ e, (lcim e).isSome = true ↔ Left (3 * m + 1) (3 * m + 1) e :=
    fun e => (hlcim e).trans (mem_generate e)
  have hstart : Tracks lcim (Left (3 * m + 1) (3 * m + 1)) (Carried (3 * m + 1)) lcim := by
    apply (Tracks.start horig).imp (fun _ => Iff.rfl)
    rintro e r ⟨hlt, -⟩ (heq | ⟨-, -, -, hgt, -⟩)
    · exact heq
    · omega
  obtain ⟨opt, hopt, htracks⟩ := Tracks.run (fun i hi lcim h => step hi h) hstart
  exact ⟨opt, hopt, (carriesOver m).preservesCheckability horig htracks⟩

end DiamondZigZag

/-! ## Houses -/

namespace House

def genNeighborList (system_size id : ℕ) : List (ℕ × ℕ) :=
  if id = 1 then [genNeighbor id (id + 1), genNeighbor id (id + 2)]
  else if (id - 1) % 4 = 1 ∨ (id - 1) % 4 = 2 then [genNeighbor id (id + 1)]
  else if (id - 1) % 4 = 3 then
    let child_id := id + (id / 4 - 1) * 4 + 2
    genNeighbor id (id + 1) ::
      if child_id < system_size then [genNeighbor id child_id, genNeighbor id (child_id + 1)]
      else []
  else
    let child_id := id + (id / 4 - 1) * 4 + 5
    genNeighbor id (id - 3) ::
      if child_id < system_size then [genNeighbor id child_id, genNeighbor id (child_id + 1)]
      else []

def create_opt_interface {w : ℕ} (system_size id : ℕ) (lcim : LocalInterfaceMap w) :
    Option (LocalInterfaceMap w) :=
  if id = 1 then addInterface (id - 1, id) (id, id + 1) lcim
  else if id % 4 = 2 then
    let house_id := (id + 2) / 4
    let parent_id :=
      if house_id % 2 = 0 then 2 * ((id - 2) / 4 + 1)
      else if id ≠ 2 then 2 * ((id - 5) / 4 + 1) + 1
      else 1
    do
      let lcim ← addInterface (id - 1, id) (parent_id - 1, id) lcim
      let lcim ← addInterface (id - 1, id) (id, id + 1) lcim
      some (eraseInterface (parent_id - 1, id) lcim)
  else if id % 4 = 3 then addInterface (id - 1, id) (id, id + 1) lcim
  else if id % 4 = 0 then do
    let lcim ← addInterface (id - 1, id) (id, id - 3) lcim
    let child_id := id + (id / 4 - 1) * 4 + 2
    if child_id < system_size then
      addInterface (id - 1, child_id - 1) (child_id - 1, child_id)
        (eraseInterface (id, id - 3) lcim)
    else some (eraseInterface (id, id - 3) lcim)
  else
    let child_id := id + (id / 4 - 1) * 4 + 5
    if child_id < system_size then
      addInterface (id - 1, child_id - 1) (child_id - 1, child_id) lcim
    else some lcim

def topology : Topology := ⟨genNeighborList, create_opt_interface⟩

/-- The context from which the house of the contexts `4 * g + 1`, ..., `4 * g + 4` hangs. -/
def parent (g : ℕ) : ℕ := if g % 2 = 1 then 2 * g + 1 else 2 * g

/-- The edges by which a house hangs. -/
def hangs (g : ℕ) : List (ℕ × ℕ) := [(parent g, 4 * g + 1), (parent g, 4 * g + 2)]

/-- The edges of a house that are kept. -/
def Wall (g : ℕ) (e : ℕ × ℕ) : Prop :=
  e = (parent g, 4 * g + 1) ∨ e = (4 * g + 1, 4 * g + 2) ∨ e = (4 * g + 2, 4 * g + 3) ∨
    e = (4 * g + 3, 4 * g + 4)

/-- The edges that are removed, each with the context at which that happens. -/
def Removed (g : ℕ) (e : ℕ × ℕ) (id : ℕ) : Prop :=
  (e = (parent g, 4 * g + 2) ∧ id = 4 * g + 2) ∨ (e = (4 * g + 4, 4 * g + 1) ∧ id = 4 * g + 4)

/-- An edge gets the interface of a removed one at the context `id`. -/
def Given (g : ℕ) (e r : ℕ × ℕ) (id : ℕ) : Prop :=
  (r = (4 * g + 4, 4 * g + 1) ∧
    ((e = (4 * g + 3, 4 * g + 4) ∧ id = 4 * g + 4) ∨ (e = (4 * g + 2, 4 * g + 3) ∧ id = 4 * g + 3) ∨
      (e = (4 * g + 1, 4 * g + 2) ∧ id = 4 * g + 2))) ∨
  (r = (parent g, 4 * g + 2) ∧
    ((e = (4 * g + 1, 4 * g + 2) ∧ id = 4 * g + 2) ∨
      (e = (parent g, 4 * g + 1) ∧ id = parent g + 1)))

def Left (m i : ℕ) (e : ℕ × ℕ) : Prop := ∃ g < m, Wall g e ∨ ∃ id ≤ i, Removed g e id

def Carried (m i : ℕ) (e r : ℕ × ℕ) : Prop := e = r ∨ ∃ g < m, ∃ id > i, Given g e r id

variable {m i g : ℕ}

lemma parent_odd (k : ℕ) : parent (2 * k + 1) = 4 * k + 3 := by
  unfold parent
  rw [if_pos (by omega)]
  omega

lemma parent_even (k : ℕ) : parent (2 * k) = 4 * k := by
  unfold parent
  rw [if_neg (by omega)]
  omega

/-- A house hangs from one of the two last contexts of another, or from the first context. -/
lemma parent_eq (g : ℕ) :
    (∃ k, g = 2 * k + 1 ∧ parent g = 4 * k + 3) ∨ ∃ k, g = 2 * k ∧ parent g = 4 * k := by
  rcases Nat.even_or_odd' g with ⟨k, rfl | rfl⟩
  · exact Or.inr ⟨k, rfl, parent_even k⟩
  · exact Or.inl ⟨k, rfl, parent_odd k⟩

lemma parent_mod (g : ℕ) :
    (g % 2 = 1 ∧ parent g = 2 * g + 1) ∨ (g % 2 = 0 ∧ parent g = 2 * g) := by
  unfold parent
  split_ifs with h
  · exact Or.inl ⟨h, rfl⟩
  · exact Or.inr ⟨by omega, rfl⟩

lemma parent_lt (g : ℕ) : parent g < 4 * g + 1 := by
  have := parent_mod g
  omega

lemma wall {e : ℕ × ℕ} (hg : g < m) (h : Wall g e) : Left m i e := ⟨g, hg, Or.inl h⟩

lemma removed {e : ℕ × ℕ} {id : ℕ} (hg : g < m) (h : Removed g e id) (hid : id ≤ i) :
    Left m i e := ⟨g, hg, Or.inr ⟨id, hid, h⟩⟩

/-- The edges before a context is done: those after it, and those it removes. -/
lemma left_succ (e : ℕ × ℕ) :
    Left m (i + 1) e ↔ Left m i e ∨ ∃ g < m, Removed g e (i + 1) := by
  constructor
  · rintro ⟨g, hg, hwall | ⟨id, hid, hremoved⟩⟩
    · exact Or.inl (wall hg hwall)
    · rcases Nat.lt_or_ge i id with hlt | hle
      · have heq : id = i + 1 := by omega
        subst heq
        exact Or.inr ⟨g, hg, hremoved⟩
      · exact Or.inl (removed hg hremoved hle)
  · rintro (⟨g, hg, hwall | ⟨id, hid, hremoved⟩⟩ | ⟨g, hg, hremoved⟩)
    · exact wall hg hwall
    · exact removed hg hremoved (by omega)
    · exact removed hg hremoved (le_refl _)

/-- What is carried after a context was carried before, or is given at the context. -/
lemma carried_cases {e r : ℕ × ℕ} (h : Carried m i e r) :
    Carried m (i + 1) e r ∨ ∃ g < m, Given g e r (i + 1) := by
  rcases h with heq | ⟨g, hg, id, hid, hgiven⟩
  · exact Or.inl (Or.inl heq)
  · rcases Nat.lt_or_ge (i + 1) id with hlt | hle
    · exact Or.inl (Or.inr ⟨g, hg, id, hlt, hgiven⟩)
    · have heq : id = i + 1 := by omega
      subst heq
      exact Or.inr ⟨g, hg, hgiven⟩

/-- An edge is removed at one context only, and no wall is. -/
lemma removed_unique {e : ℕ × ℕ} {id : ℕ} (h : Removed g e id) (hleft : Left m i e) : id ≤ i := by
  obtain ⟨a, b⟩ := e
  obtain ⟨g', -, hwall | ⟨id', hid', hremoved⟩⟩ := hleft
  · have := parent_lt g
    have := parent_lt g'
    unfold Wall at hwall
    unfold Removed at h
    simp only [Prod.mk.injEq] at hwall h
    omega
  · have := parent_lt g
    have := parent_lt g'
    unfold Removed at hremoved h
    simp only [Prod.mk.injEq] at hremoved h
    omega

/-- The first context, and the four of a house as the generators count them. -/
lemma id_cases {id : ℕ} (hpos : 1 ≤ id) (hlt : id < 1 + (4 * m + 1)) :
    id = 1 ∨ ∃ g < m, id = 4 * g + 2 ∨ id = 4 * g + 3 ∨ id = 4 * g + 4 ∨ id = 4 * g + 5 := by
  rcases Nat.eq_or_lt_of_le hpos with rfl | hgt
  · exact Or.inl rfl
  · refine Or.inr ⟨(id - 2) / 4, ?_, ?_⟩
    · omega
    · omega

lemma genNeighborList_two (g : ℕ) :
    genNeighborList (4 * m + 1) (4 * g + 2) = [(4 * g + 1, 4 * g + 2)] := by
  unfold genNeighborList
  rw [if_neg (by omega), if_pos (by omega)]
  rfl

lemma genNeighborList_three (g : ℕ) :
    genNeighborList (4 * m + 1) (4 * g + 3) = [(4 * g + 2, 4 * g + 3)] := by
  unfold genNeighborList
  rw [if_neg (by omega), if_pos (by omega)]
  rfl

lemma hangs_odd (g : ℕ) : hangs (2 * g + 1) = [(4 * g + 3, 8 * g + 5), (4 * g + 3, 8 * g + 6)] := by
  have hfirst : 4 * (2 * g + 1) + 1 = 8 * g + 5 := by omega
  have hsecond : 4 * (2 * g + 1) + 2 = 8 * g + 6 := by omega
  unfold hangs
  rw [parent_odd, hfirst, hsecond]

lemma hangs_even (g : ℕ) :
    hangs (2 * (g + 1)) = [(4 * g + 4, 8 * g + 9), (4 * g + 4, 8 * g + 10)] := by
  have hfirst : 4 * (2 * (g + 1)) + 1 = 8 * g + 9 := by omega
  have hsecond : 4 * (2 * (g + 1)) + 2 = 8 * g + 10 := by omega
  unfold hangs
  rw [parent_even, hfirst, hsecond]
  rfl

/-- From the third wall the house `2 * g + 1` hangs. -/
lemma genNeighborList_four (g : ℕ) : genNeighborList (4 * m + 1) (4 * g + 4) =
    (4 * g + 3, 4 * g + 4) :: if 2 * g + 1 < m then hangs (2 * g + 1) else [] := by
  have hchild : 4 * g + 4 + ((4 * g + 4) / 4 - 1) * 4 + 2 = 8 * g + 6 := by omega
  unfold genNeighborList
  rw [if_neg (by omega), if_neg (by omega), if_pos (by omega), hchild, hangs_odd]
  show _ :: (if 8 * g + 6 < 4 * m + 1 then _ else _) = _
  by_cases h : 2 * g + 1 < m
  · rw [if_pos h, if_pos (by omega)]
    rfl
  · rw [if_neg h, if_neg (by omega)]
    rfl

/-- From the last wall the house `2 * g + 2` hangs. -/
lemma genNeighborList_five (g : ℕ) : genNeighborList (4 * m + 1) (4 * g + 5) =
    (4 * g + 4, 4 * g + 1) :: if 2 * (g + 1) < m then hangs (2 * (g + 1)) else [] := by
  have hchild : 4 * g + 5 + ((4 * g + 5) / 4 - 1) * 4 + 5 = 8 * g + 10 := by omega
  unfold genNeighborList
  rw [if_neg (by omega), if_neg (by omega), if_neg (by omega), hchild, hangs_even]
  show _ :: (if 8 * g + 10 < 4 * m + 1 then _ else _) = _
  by_cases h : 2 * (g + 1) < m
  · rw [if_pos h, if_pos (by omega)]
    rfl
  · rw [if_neg h, if_neg (by omega)]
    rfl

lemma mem_hangs {e : ℕ × ℕ} :
    e ∈ hangs g ↔ e = (parent g, 4 * g + 1) ∨ e = (parent g, 4 * g + 2) := by
  unfold hangs
  simp

lemma left_of_mem_hangs {e : ℕ × ℕ} (hg : g < m) (he : e ∈ hangs g) : Left m (4 * m + 1) e := by
  rcases mem_hangs.1 he with he | he
  · exact wall hg (Or.inl he)
  · exact removed hg (Or.inl ⟨he, rfl⟩) (by omega)

/-- The edges by which a house hangs are generated at the context it hangs from. -/
lemma hangs_subset (hg : g < m) : hangs g ⊆ genNeighborList (4 * m + 1) (parent g + 1) := by
  rcases parent_eq g with ⟨k, rfl, hk⟩ | ⟨k, rfl, hk⟩
  · rw [hk, genNeighborList_four, if_pos hg]
    exact List.subset_cons_self _ _
  · rcases Nat.eq_zero_or_pos k with rfl | hpos
    · rw [hk]
      exact List.Subset.refl _
    · obtain ⟨j, rfl⟩ := Nat.exists_eq_add_one.2 hpos
      have hid : 4 * (j + 1) + 1 = 4 * j + 5 := by omega
      rw [hk, hid, genNeighborList_five, if_pos hg]
      exact List.subset_cons_self _ _

lemma mem_generate (hm : 0 < m) (e : ℕ × ℕ) :
    e ∈ generate (genNeighborList (4 * m + 1)) (4 * m + 1) ↔ Left m (4 * m + 1) e := by
  unfold generate
  rw [List.mem_flatMap]
  constructor
  · rintro ⟨id, hid, hmem⟩
    obtain ⟨hpos, hlt⟩ := List.mem_range'_1.1 hid
    rcases id_cases hpos hlt with rfl | ⟨g, hg, rfl | rfl | rfl | rfl⟩
    · exact left_of_mem_hangs hm hmem
    · rw [genNeighborList_two, List.mem_singleton] at hmem
      exact wall hg (Or.inr (Or.inl hmem))
    · rw [genNeighborList_three, List.mem_singleton] at hmem
      exact wall hg (Or.inr (Or.inr (Or.inl hmem)))
    · rw [genNeighborList_four, List.mem_cons] at hmem
      rcases hmem with hmem | hmem
      · exact wall hg (Or.inr (Or.inr (Or.inr hmem)))
      · split_ifs at hmem with hchild
        · exact left_of_mem_hangs hchild hmem
        · cases hmem
    · rw [genNeighborList_five, List.mem_cons] at hmem
      rcases hmem with hmem | hmem
      · exact removed hg (Or.inr ⟨hmem, rfl⟩) (by omega)
      · split_ifs at hmem with hchild
        · exact left_of_mem_hangs hchild hmem
        · cases hmem
  · have hmem : ∀ id, e ∈ genNeighborList (4 * m + 1) id → 1 ≤ id → id < 1 + (4 * m + 1) →
        ∃ id ∈ List.range' 1 (4 * m + 1), e ∈ genNeighborList (4 * m + 1) id :=
      fun id he hpos hlt => ⟨id, List.mem_range'_1.2 ⟨hpos, hlt⟩, he⟩
    rintro ⟨g, hg, hwall | ⟨id, -, hremoved⟩⟩
    · have := parent_lt g
      rcases hwall with he | he | he | he
      · refine hmem (parent g + 1) (hangs_subset hg (mem_hangs.2 (Or.inl he))) ?_ ?_
        · omega
        · omega
      · refine hmem (4 * g + 2) ?_ (by omega) (by omega)
        rw [genNeighborList_two, he]
        exact List.mem_singleton_self _
      · refine hmem (4 * g + 3) ?_ (by omega) (by omega)
        rw [genNeighborList_three, he]
        exact List.mem_singleton_self _
      · refine hmem (4 * g + 4) ?_ (by omega) (by omega)
        rw [genNeighborList_four, he]
        exact List.mem_cons_self
    · have := parent_lt g
      rcases hremoved with ⟨he, -⟩ | ⟨he, -⟩
      · refine hmem (parent g + 1) (hangs_subset hg (mem_hangs.2 (Or.inr he))) ?_ ?_
        · omega
        · omega
      · refine hmem (4 * g + 5) ?_ (by omega) (by omega)
        rw [genNeighborList_five, he]
        exact List.mem_cons_self

/-! ### One context of the loop -/

section Step

variable {w : ℕ} {orig lcim : LocalInterfaceMap w}

lemma create_two (g : ℕ) (lcim : LocalInterfaceMap w) :
    create_opt_interface (4 * m + 1) (4 * g + 2) lcim = (do
      let lcim ← addInterface (4 * g + 1, 4 * g + 2) (parent g, 4 * g + 2) lcim
      let lcim ← addInterface (4 * g + 1, 4 * g + 2) (4 * g + 2, 4 * g + 3) lcim
      some (eraseInterface (parent g, 4 * g + 2) lcim)) := by
  have hparent : (if (4 * g + 2 + 2) / 4 % 2 = 0 then 2 * ((4 * g + 2 - 2) / 4 + 1)
      else if 4 * g + 2 ≠ 2 then 2 * ((4 * g + 2 - 5) / 4 + 1) + 1 else 1) - 1 = parent g := by
    unfold parent
    split_ifs
    all_goals omega
  unfold create_opt_interface
  rw [if_neg (by omega), if_pos (by omega)]
  dsimp only
  rw [hparent]
  rfl

lemma create_three (g : ℕ) (lcim : LocalInterfaceMap w) :
    create_opt_interface (4 * m + 1) (4 * g + 3) lcim =
      addInterface (4 * g + 2, 4 * g + 3) (4 * g + 3, 4 * g + 4) lcim := by
  unfold create_opt_interface
  rw [if_neg (by omega), if_neg (by omega), if_pos (by omega)]
  rfl

/-- `bs_p2` of a child gets `bs_23`. -/
def addChild (k : ℕ) (lcim : LocalInterfaceMap w) : Option (LocalInterfaceMap w) :=
  addInterface (parent k, 4 * k + 1) (4 * k + 1, 4 * k + 2) lcim

lemma addChild_odd (g : ℕ) (lcim : LocalInterfaceMap w) :
    addInterface (4 * g + 3, 8 * g + 5) (8 * g + 5, 8 * g + 6) lcim =
      addChild (2 * g + 1) lcim := by
  have hfirst : 4 * (2 * g + 1) + 1 = 8 * g + 5 := by omega
  have hsecond : 4 * (2 * g + 1) + 2 = 8 * g + 6 := by omega
  unfold addChild
  rw [parent_odd, hfirst, hsecond]

lemma addChild_even (g : ℕ) (lcim : LocalInterfaceMap w) :
    addInterface (4 * g + 4, 8 * g + 9) (8 * g + 9, 8 * g + 10) lcim =
      addChild (2 * (g + 1)) lcim := by
  have hfirst : 4 * (2 * (g + 1)) + 1 = 8 * g + 9 := by omega
  have hsecond : 4 * (2 * (g + 1)) + 2 = 8 * g + 10 := by omega
  unfold addChild
  rw [parent_even, hfirst, hsecond]
  rfl

lemma create_four (g : ℕ) (lcim : LocalInterfaceMap w) :
    create_opt_interface (4 * m + 1) (4 * g + 4) lcim = (do
      let lcim ← addInterface (4 * g + 3, 4 * g + 4) (4 * g + 4, 4 * g + 1) lcim
      if 2 * g + 1 < m then addChild (2 * g + 1) (eraseInterface (4 * g + 4, 4 * g + 1) lcim)
      else some (eraseInterface (4 * g + 4, 4 * g + 1) lcim)) := by
  have hchild : 4 * g + 4 + ((4 * g + 4) / 4 - 1) * 4 + 2 = 8 * g + 6 := by omega
  have hbound : 8 * g + 6 < 4 * m + 1 ↔ 2 * g + 1 < m := by omega
  unfold create_opt_interface
  rw [if_neg (by omega), if_neg (by omega), if_neg (by omega), if_pos (by omega)]
  simp only [hchild, hbound, ← addChild_odd]
  rfl

lemma create_five (g : ℕ) (lcim : LocalInterfaceMap w) :
    create_opt_interface (4 * m + 1) (4 * g + 5) lcim =
      if 2 * (g + 1) < m then addChild (2 * (g + 1)) lcim else some lcim := by
  have hchild : 4 * g + 5 + ((4 * g + 5) / 4 - 1) * 4 + 5 = 8 * g + 10 := by omega
  have hbound : 8 * g + 10 < 4 * m + 1 ↔ 2 * (g + 1) < m := by omega
  unfold create_opt_interface
  rw [if_neg (by omega), if_neg (by omega), if_neg (by omega), if_neg (by omega)]
  simp only [hchild, hbound, ← addChild_even]
  rfl

/-- A context that removes no edge. -/
lemma left_of_keep (h : ∀ g e, ¬ Removed g e (i + 1)) (e : ℕ × ℕ) :
    Left m (i + 1) e ↔ Left m i e := by
  rw [left_succ]
  constructor
  · rintro (hleft | ⟨g, -, hremoved⟩)
    · exact hleft
    · exact absurd hremoved (h g e)
  · exact Or.inl

/-- A context that removes the edge `x`. -/
lemma left_of_erase {x : ℕ × ℕ} (hx : Removed g x (i + 1))
    (h : ∀ k e, Removed k e (i + 1) → e = x) (e : ℕ × ℕ) :
    Left m (i + 1) e ∧ e ≠ x ↔ Left m i e := by
  rw [left_succ]
  constructor
  · rintro ⟨hleft | ⟨k, -, hremoved⟩, hne⟩
    · exact hleft
    · exact absurd (h k e hremoved) hne
  · intro hleft
    refine ⟨Or.inl hleft, ?_⟩
    rintro rfl
    exact absurd (removed_unique hx hleft) (Nat.not_succ_le_self i)

/-- The first edge of a house gets what the second one has of the edge above it. -/
def Hung (k : ℕ) (e r : ℕ × ℕ) : Prop := e = (parent k, 4 * k + 1) ∧ r = (parent k, 4 * k + 2)

lemma carried_child {k : ℕ} (hk : k < m) :
    Carried m (parent k + 1) (4 * k + 1, 4 * k + 2) (parent k, 4 * k + 2) := by
  refine Or.inr ⟨k, hk, 4 * k + 2, ?_, Or.inr ⟨rfl, Or.inl ⟨rfl, rfl⟩⟩⟩
  have := parent_lt k
  omega

lemma addChild_tracks {k : ℕ} {F : ℕ × ℕ → ℕ × ℕ → Prop} (hk : k < m)
    (hF : F (4 * k + 1, 4 * k + 2) (parent k, 4 * k + 2)) (h : Tracks orig (Left m i) F lcim) :
    ∃ lcim', addChild k lcim = some lcim' ∧
      Tracks orig (Left m i) (fun e r => F e r ∨ Hung k e r) lcim' := by
  obtain ⟨lcim', hadd, h'⟩ := h.add (wall hk (Or.inl rfl)) (wall hk (Or.inr (Or.inl rfl)))
  refine ⟨lcim', hadd, h'.imp (fun _ => Iff.rfl) ?_⟩
  rintro e r - (hr | ⟨rfl, rfl⟩)
  · exact Or.inl hr
  · exact Or.inr ⟨rfl, hF⟩

/-- Where the contexts are counted from 1, a remainder of 1 is that of the last context of a house;
interfaces are given there to the next house only. -/
lemma given_hanging {k id : ℕ} {e r : ℕ × ℕ} (hid : id % 4 = 1) (h : Given k e r id) :
    id = parent k + 1 ∧ Hung k e r := by
  rcases h with ⟨-, ⟨-, h⟩ | ⟨-, h⟩ | ⟨-, h⟩⟩ | ⟨hr, ⟨-, h⟩ | ⟨he, h⟩⟩
  · omega
  · omega
  · omega
  · omega
  · exact ⟨h, he, hr⟩

lemma keep_hanging (hid : (i + 1) % 4 = 1) (e : ℕ × ℕ) : Left m (i + 1) e ↔ Left m i e := by
  apply left_of_keep
  rintro g e (⟨-, h⟩ | ⟨-, h⟩)
  · omega
  · omega

lemma step_one (hm : 0 < m) (h : Tracks orig (Left m 1) (Carried m 1) lcim) :
    ∃ lcim', create_opt_interface (4 * m + 1) 1 lcim = some lcim' ∧
      Tracks orig (Left m 0) (Carried m 0) lcim' := by
  obtain ⟨lcim', hadd, h'⟩ := addChild_tracks hm (carried_child hm) h
  refine ⟨lcim', hadd, h'.imp (keep_hanging rfl) ?_⟩
  intro e r _ hr
  rcases carried_cases hr with hold | ⟨k, hk, hgiven⟩
  · exact Or.inl hold
  · obtain ⟨hid, hhung⟩ := given_hanging rfl hgiven
    have hk0 : k = 0 := by
      have := parent_mod k
      omega
    subst hk0
    exact Or.inr hhung

lemma step_two (hg : g < m) (h : Tracks orig (Left m (4 * g + 2)) (Carried m (4 * g + 2)) lcim) :
    ∃ lcim', create_opt_interface (4 * m + 1) (4 * g + 2) lcim = some lcim' ∧
      Tracks orig (Left m (4 * g + 1)) (Carried m (4 * g + 1)) lcim' := by
  have hfirst : Left m (4 * g + 2) (4 * g + 1, 4 * g + 2) := wall hg (Or.inr (Or.inl rfl))
  have hnext : Left m (4 * g + 2) (4 * g + 2, 4 * g + 3) := wall hg (Or.inr (Or.inr (Or.inl rfl)))
  have hx : Removed g (parent g, 4 * g + 2) (4 * g + 2) := Or.inl ⟨rfl, rfl⟩
  obtain ⟨lcim₁, hadd₁, h₁⟩ := h.add hfirst (removed hg hx (le_refl _))
  obtain ⟨lcim₂, hadd₂, h₂⟩ := h₁.add hfirst hnext
  refine ⟨eraseInterface (parent g, 4 * g + 2) lcim₂, ?_,
    (h₂.erase _).imp (left_of_erase hx ?_) ?_⟩
  · rw [create_two, hadd₁]
    show (addInterface _ _ lcim₁ >>= _) = _
    rw [hadd₂]
    rfl
  · rintro k e (⟨he, hid⟩ | ⟨-, hid⟩)
    · have hkg : k = g := by omega
      rw [he, hkg]
    · omega
  · intro e r _ hr
    rcases carried_cases hr with hold | ⟨k, -, hgiven⟩
    · exact Or.inl (Or.inl hold)
    · have hkg : k = g := by
        have := parent_mod k
        unfold Given at hgiven
        omega
      subst hkg
      rcases hgiven with ⟨rfl, ⟨-, hid⟩ | ⟨-, hid⟩ | ⟨rfl, -⟩⟩ | ⟨rfl, ⟨rfl, -⟩ | ⟨-, hid⟩⟩
      · omega
      · omega
      · refine Or.inr ⟨rfl, Or.inl (Or.inr ⟨k, hg, 4 * k + 3, Nat.lt_succ_self _, ?_⟩)⟩
        exact Or.inl ⟨rfl, Or.inr (Or.inl ⟨rfl, rfl⟩)⟩
      · exact Or.inl (Or.inr ⟨rfl, Or.inl rfl⟩)
      · have := parent_mod k
        omega

lemma step_three (hg : g < m) (h : Tracks orig (Left m (4 * g + 3)) (Carried m (4 * g + 3)) lcim) :
    ∃ lcim', create_opt_interface (4 * m + 1) (4 * g + 3) lcim = some lcim' ∧
      Tracks orig (Left m (4 * g + 2)) (Carried m (4 * g + 2)) lcim' := by
  have hfirst : Left m (4 * g + 3) (4 * g + 2, 4 * g + 3) := wall hg (Or.inr (Or.inr (Or.inl rfl)))
  have hnext : Left m (4 * g + 3) (4 * g + 3, 4 * g + 4) := wall hg (Or.inr (Or.inr (Or.inr rfl)))
  obtain ⟨lcim', hadd, h'⟩ := h.add hfirst hnext
  rw [create_three]
  refine ⟨lcim', hadd, h'.imp (left_of_keep ?_) ?_⟩
  · rintro k e (⟨-, hid⟩ | ⟨-, hid⟩)
    · omega
    · omega
  · intro e r _ hr
    rcases carried_cases hr with hold | ⟨k, -, hgiven⟩
    · exact Or.inl hold
    · have hkg : k = g := by
        have := parent_mod k
        unfold Given at hgiven
        omega
      subst hkg
      have := parent_mod k
      rcases hgiven with ⟨rfl, ⟨-, hid⟩ | ⟨rfl, -⟩ | ⟨-, hid⟩⟩ | ⟨-, ⟨-, hid⟩ | ⟨-, hid⟩⟩
      · omega
      · refine Or.inr ⟨rfl, Or.inr ⟨k, hg, 4 * k + 4, Nat.lt_succ_self _, ?_⟩⟩
        exact Or.inl ⟨rfl, Or.inl ⟨rfl, rfl⟩⟩
      · omega
      · omega
      · omega

lemma step_four (hg : g < m) (h : Tracks orig (Left m (4 * g + 4)) (Carried m (4 * g + 4)) lcim) :
    ∃ lcim', create_opt_interface (4 * m + 1) (4 * g + 4) lcim = some lcim' ∧
      Tracks orig (Left m (4 * g + 3)) (Carried m (4 * g + 3)) lcim' := by
  have hfirst : Left m (4 * g + 4) (4 * g + 3, 4 * g + 4) := wall hg (Or.inr (Or.inr (Or.inr rfl)))
  have hx : Removed g (4 * g + 4, 4 * g + 1) (4 * g + 4) := Or.inr ⟨rfl, rfl⟩
  have hgone : ∀ e, Left m (4 * g + 4) e ∧ e ≠ (4 * g + 4, 4 * g + 1) ↔ Left m (4 * g + 3) e := by
    apply left_of_erase hx
    rintro k e (⟨-, hid⟩ | ⟨he, hid⟩)
    · omega
    · have hkg : k = g := by omega
      rw [he, hkg]
  have hid : 4 * g + 4 = parent (2 * g + 1) + 1 := by rw [parent_odd]
  have hcases : ∀ e r, Carried m (4 * g + 3) e r → (Carried m (4 * g + 4) e r ∨
      (e = (4 * g + 3, 4 * g + 4) ∧ Carried m (4 * g + 4) (4 * g + 4, 4 * g + 1) r)) ∨
      (2 * g + 1 < m ∧ Hung (2 * g + 1) e r) := by
    intro e r hr
    rcases carried_cases hr with hold | ⟨k, hk, hgiven⟩
    · exact Or.inl (Or.inl hold)
    · have := parent_mod k
      rcases hgiven with ⟨hr, ⟨he, hk'⟩ | ⟨-, hk'⟩ | ⟨-, hk'⟩⟩ | ⟨hr, ⟨-, hk'⟩ | ⟨he, hk'⟩⟩
      · have hkg : k = g := by omega
        rw [hkg] at hr he
        exact Or.inl (Or.inr ⟨he, Or.inl hr.symm⟩)
      · omega
      · omega
      · omega
      · have hkg : k = 2 * g + 1 := by omega
        rw [hkg] at hk hr he
        exact Or.inr ⟨hk, he, hr⟩
  obtain ⟨lcim₁, hadd₁, h₁⟩ := h.add hfirst (removed hg hx (le_refl _))
  have h₂ := (h₁.erase (4 * g + 4, 4 * g + 1)).imp hgone (fun _ _ _ hr => hr)
  rw [create_four, hadd₁]
  show ∃ lcim', (if 2 * g + 1 < m then _ else _) = _ ∧ _
  by_cases hchild : 2 * g + 1 < m
  · rw [if_pos hchild]
    have hF := carried_child hchild
    rw [← hid] at hF
    obtain ⟨lcim₃, hadd₃, h₃⟩ := addChild_tracks hchild (Or.inl hF) h₂
    refine ⟨lcim₃, hadd₃, h₃.imp (fun _ => Iff.rfl) ?_⟩
    intro e r _ hr
    rcases hcases e r hr with hr | ⟨-, hhung⟩
    · exact Or.inl hr
    · exact Or.inr hhung
  · rw [if_neg hchild]
    refine ⟨_, rfl, h₂.imp (fun _ => Iff.rfl) ?_⟩
    intro e r _ hr
    rcases hcases e r hr with hr | ⟨hlt, -⟩
    · exact hr
    · exact absurd hlt hchild

lemma step_five (h : Tracks orig (Left m (4 * g + 5)) (Carried m (4 * g + 5)) lcim) :
    ∃ lcim', create_opt_interface (4 * m + 1) (4 * g + 5) lcim = some lcim' ∧
      Tracks orig (Left m (4 * g + 4)) (Carried m (4 * g + 4)) lcim' := by
  have hmod : (4 * g + 4 + 1) % 4 = 1 := by omega
  have hid : 4 * g + 5 = parent (2 * (g + 1)) + 1 := by
    rw [parent_even]
    rfl
  have hcases : ∀ e r, Carried m (4 * g + 4) e r →
      Carried m (4 * g + 5) e r ∨ (2 * (g + 1) < m ∧ Hung (2 * (g + 1)) e r) := by
    intro e r hr
    rcases carried_cases hr with hold | ⟨k, hk, hgiven⟩
    · exact Or.inl hold
    · obtain ⟨hkid, hhung⟩ := given_hanging hmod hgiven
      have hk' : k = 2 * (g + 1) := by
        have := parent_mod k
        omega
      subst hk'
      exact Or.inr ⟨hk, hhung⟩
  rw [create_five]
  by_cases hchild : 2 * (g + 1) < m
  · have hF := carried_child hchild
    rw [← hid] at hF
    obtain ⟨lcim', hadd, h'⟩ := addChild_tracks hchild hF h
    rw [if_pos hchild]
    refine ⟨lcim', hadd, h'.imp (keep_hanging hmod) ?_⟩
    intro e r _ hr
    rcases hcases e r hr with hold | ⟨-, hhung⟩
    · exact Or.inl hold
    · exact Or.inr hhung
  · rw [if_neg hchild]
    refine ⟨lcim, rfl, h.imp (keep_hanging hmod) ?_⟩
    intro e r _ hr
    rcases hcases e r hr with hold | ⟨hlt, -⟩
    · exact hold
    · exact absurd hlt hchild

end Step

lemma step {w : ℕ} {orig lcim : LocalInterfaceMap w} (hm : 0 < m) (hi : i < 4 * m + 1)
    (h : Tracks orig (Left m (i + 1)) (Carried m (i + 1)) lcim) :
    ∃ lcim', create_opt_interface (4 * m + 1) (i + 1) lcim = some lcim' ∧
      Tracks orig (Left m i) (Carried m i) lcim' := by
  rcases id_cases (m := m) (Nat.succ_pos i) (by omega) with hid | ⟨g, hg, hid | hid | hid | hid⟩
  · obtain rfl : i = 0 := by omega
    exact step_one hm h
  · obtain rfl : i = 4 * g + 1 := by omega
    exact step_two hg h
  · obtain rfl : i = 4 * g + 2 := by omega
    exact step_three hg h
  · obtain rfl : i = 4 * g + 3 := by omega
    exact step_four hg h
  · obtain rfl : i = 4 * g + 4 := by omega
    exact step_five h

lemma left_zero {e : ℕ × ℕ} (h : Left m 0 e) : ∃ g < m, Wall g e := by
  obtain ⟨g, hg, hwall | ⟨id, hid, ⟨-, h⟩ | ⟨-, h⟩⟩⟩ := h
  · exact ⟨g, hg, hwall⟩
  · omega
  · omega

/-- One step of a path that carries the interface of a removed edge. -/
lemma hop {a b : ℕ} {r : ℕ × ℕ} {id : ℕ} (hg : g < m) (hwall : Wall g (a, b))
    (hgiven : Given g (a, b) r id) (hid : 0 < id) : Left m 0 (a, b) ∧ Carried m 0 (a, b) r :=
  ⟨wall hg hwall, Or.inr ⟨g, hg, id, hid, hgiven⟩⟩

lemma carriesOver (m : ℕ) :
    CarriesOver (4 * m + 1) (Left m (4 * m + 1)) (Left m 0) (Carried m 0) where
  increasing a b h := by
    obtain ⟨g, -, hwall⟩ := left_zero h
    have := parent_lt g
    unfold Wall at hwall
    simp only [Prod.mk.injEq] at hwall
    omega
  parent b hb hlt := by
    have hg : (b - 1) / 4 < m := by omega
    have hlast : b = 4 * ((b - 1) / 4) + 1 ∨ b = 4 * ((b - 1) / 4) + 2 ∨
        b = 4 * ((b - 1) / 4) + 3 ∨ b = 4 * ((b - 1) / 4) + 4 := by omega
    generalize (b - 1) / 4 = g at hg hlast
    rcases hlast with rfl | rfl | rfl | rfl
    · exact ⟨parent g, parent_lt g, wall hg (Or.inl rfl)⟩
    · exact ⟨4 * g + 1, Nat.lt_succ_self _, wall hg (Or.inr (Or.inl rfl))⟩
    · exact ⟨4 * g + 2, Nat.lt_succ_self _, wall hg (Or.inr (Or.inr (Or.inl rfl)))⟩
    · exact ⟨4 * g + 3, Nat.lt_succ_self _, wall hg (Or.inr (Or.inr (Or.inr rfl)))⟩
  path r hr hgone := by
    obtain ⟨g, hg, hwall | ⟨id, -, hremoved⟩⟩ := hr
    · exact absurd (wall hg hwall) hgone
    · rcases hremoved with ⟨rfl, -⟩ | ⟨rfl, -⟩
      · -- over the first edge of the house
        refine ⟨parent g, Relation.ReflTransGen.refl, ?_⟩
        apply (Relation.ReflTransGen.single (b := 4 * g + 1) _).tail
        · exact hop hg (Or.inr (Or.inl rfl)) (Or.inr ⟨rfl, Or.inl ⟨rfl, rfl⟩⟩) (Nat.succ_pos _)
        · exact hop hg (Or.inl rfl) (Or.inr ⟨rfl, Or.inr ⟨rfl, rfl⟩⟩) (Nat.succ_pos _)
      · -- along the walls
        refine ⟨4 * g + 1, ?_, Relation.ReflTransGen.refl⟩
        apply ((Relation.ReflTransGen.single (b := 4 * g + 2) _).tail (c := 4 * g + 3) _).tail
        · exact hop hg (Or.inr (Or.inr (Or.inr rfl))) (Or.inl ⟨rfl, Or.inl ⟨rfl, rfl⟩⟩)
            (Nat.succ_pos _)
        · exact hop hg (Or.inr (Or.inl rfl)) (Or.inl ⟨rfl, Or.inr (Or.inr ⟨rfl, rfl⟩)⟩)
            (Nat.succ_pos _)
        · exact hop hg (Or.inr (Or.inr (Or.inl rfl))) (Or.inl ⟨rfl, Or.inr (Or.inl ⟨rfl, rfl⟩)⟩)
            (Nat.succ_pos _)

lemma optimises (hm : 0 < m) : topology.Optimises (4 * m + 1) := by
  intro w lcim hlcim
  have horig : ∀ e, (lcim e).isSome = true ↔ Left m (4 * m + 1) e :=
    fun e => (hlcim e).trans (mem_generate hm e)
  have hstart : Tracks lcim (Left m (4 * m + 1)) (Carried m (4 * m + 1)) lcim := by
    apply (Tracks.start horig).imp (fun _ => Iff.rfl)
    rintro e r - (heq | ⟨g, hg, id, hid, hgiven⟩)
    · exact heq
    · have := parent_lt g
      unfold Given at hgiven
      omega
  obtain ⟨opt, hopt, htracks⟩ := Tracks.run (fun i hi lcim h => step hm hi h) hstart
  exact ⟨opt, hopt, (carriesOver m).preservesCheckability horig htracks⟩

end House

/-! ## All the topologies -/

/-- Optimised topologies preserve checkability, for every size that the generators are for.  Each of
the four is followed edge by edge through the calls of `create_opt_interface`, from the last context
down to the first. -/
theorem optTopologies_preserve_checkability :
    (∀ m, 1 ≤ m → DiamondZigZag.topology.Optimises (3 * m + 1)) ∧
      (∀ m, 1 ≤ m → House.topology.Optimises (4 * m + 1)) ∧
      (∀ n, 2 ≤ n → Ring.topology.Optimises n) ∧
      ∀ q, 3 ≤ q → MultipleRing.topology.Optimises (3 * (q - 1)) := by
  refine ⟨?_, ?_, ?_, ?_⟩
  · intro m _
    exact DiamondZigZag.optimises m
  · intro m hm
    exact House.optimises hm
  · intro n hn
    exact Ring.optimises hn
  · intro q hq
    exact MultipleRing.optimises hq

/-- The smallest of each. -/
theorem smallest_optTopologies_preserve_checkability :
    DiamondZigZag.topology.Optimises 4 ∧ House.topology.Optimises 5 ∧ Ring.topology.Optimises 2 ∧
      MultipleRing.topology.Optimises 6 := by
  obtain ⟨hdiamond, hhouse, hring, hmultiple⟩ := optTopologies_preserve_checkability
  exact ⟨hdiamond 1 (le_refl 1), hhouse 1 (le_refl 1), hring 2 (le_refl 2),
    hmultiple 3 (le_refl 3)⟩

end Dmcs
