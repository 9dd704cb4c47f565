import Mathlib.Algebra.Order.Ring.Nat
import Mathlib.Data.List.GetD
import Mathlib.Data.Option.Basic
import Dmcs.Mcs.CachePosition

/-!
# What the binary search of `find_position` finds

After a sequence of updates the cache holds the running totals of the counts, as `size_t` numbers.
`find_position` is a binary search among them.  It should count the totals below `k`.

Two of its exits do not.  Below the first mark it answers `1`, because the test after the loop only
asks whether the mark it stands on is `k`.  And among several marks equal to `k`, which counts of
zero produce, it answers with the one it probes first.  Besides, the marks are no longer sorted when
a total wraps; up to `k` they are, so a wrapped mark does harm only where the search probes it
(`Unmisled`).  `findPosition_eq_iff` says exactly when the answer is right.

## The argument

The search halves an interval.  `Halved` lists the intervals that halving makes of a given one, and
`Reaches` says that one of them has a given middle, so that the conditions speak of the length of
the list and not of the course of a search.

The ways to be wrong are kept apart.  `FindsFirst` is about the exits of the search, and about the
totals as they would be without a largest number: nothing is recorded, or `k` is the first total and
no other, or the first total is below `k` and the first total equal to `k`, if there is one, is
probed before the others.  `Unmisled` is about totals that wrap: where the search probes a total
above `k`, the mark behind it is above `k` too, or it happens to lead to the same answer.
-/

namespace Dmcs

namespace CachePosition

/-- The calls `update_cache(1, c₁), …, update_cache(n, cₙ)` on a fresh cache. -/
def updates (counts : List ℕ) : Option CachePosition :=
  (counts.zipIdx 1).foldlM (fun c entry => c.updateCache entry.2 entry.1) init

/-- The running totals of the counts, from a total on. -/
def totals : ℕ → List ℕ → List ℕ
  | _, [] => []
  | total, count :: counts => (total + count) :: totals (total + count) counts

/-- The number of steps whose mark is below `k`. -/
def stepsBelow (mark : List ℕ) (k : ℕ) : ℕ := mark.countP (fun m => m < k)

/-- The intervals `[b, e)` that repeated halving makes of `[beg, stop)`. -/
inductive Halved : ℕ → ℕ → ℕ → ℕ → Prop
  | refl (beg stop : ℕ) : Halved beg stop beg stop
  | left {beg stop b e : ℕ} (h : Halved beg ((beg + stop) / 2) b e) : Halved beg stop b e
  | right {beg stop b e : ℕ} (h : Halved ((beg + stop) / 2) stop b e) : Halved beg stop b e

/-- Halving `[beg, stop)` makes an interval whose middle is `p` and which reaches up to `q`. -/
def Reaches (beg stop p q : ℕ) : Prop :=
  ∃ b e, Halved beg stop b e ∧ b + 1 < e ∧ (b + e) / 2 = p ∧ q ≤ e

/-- The marks equal to `k` lie from `stepsBelow mark k` up to `stepsBelow mark (k + 1)`.  Either
nothing is recorded; or `k` is the first mark and no other; or the first mark is below `k`, and `k`
is no mark or its first occurrence is the middle of an interval of the halving that holds all the
others. -/
def FindsFirst (mark : List ℕ) (k : ℕ) : Prop :=
  let p := stepsBelow mark k
  let q := stepsBelow mark (k + 1)
  mark = [] ∨ (p = 0 ∧ q = 1) ∨ (0 < p ∧ (p = q ∨ Reaches 0 mark.length p q))

/-- The probes of a search for the totals from position `p` on, those above `k` beginning at `q`: at
the middle of every interval made by halving `[beg, stop)` that begins below `p`, if the total there
is above `k`, the stored mark is too, or it is `k` and the middle is `p`. -/
def Unmisled (stored : List ℕ) (k beg stop p q : ℕ) : Prop :=
  ∀ b e, Halved beg stop b e → b + 1 < e → b ≤ p - 1 → q ≤ (b + e) / 2 →
    k < stored.getD ((b + e) / 2) 0 ∨ ((b + e) / 2 = p ∧ stored.getD ((b + e) / 2) 0 = k)

section Updates

variable {mark : List ℕ} {k : ℕ}

/-- The updates keep the running totals, modulo `2 ^ 64`. -/
lemma updates_eq {counts : List ℕ} (hcounts : ∀ c ∈ counts, c < 2 ^ 64) :
    updates counts = some ⟨(totals 0 counts).map (· % 2 ^ 64)⟩ := by
  have key : ∀ (counts done : List ℕ) (total : ℕ), (∀ c ∈ counts, c < 2 ^ 64) →
      done.getLastD 0 = total % 2 ^ 64 → (counts.zipIdx (done.length + 1)).foldlM
      (fun c entry => c.updateCache entry.2 entry.1) (⟨done⟩ : CachePosition) =
        some ⟨done ++ (totals total counts).map (· % 2 ^ 64)⟩ := by
    intro counts
    induction counts with
    | nil =>
        intro done total _ _
        simp [totals]
    | cons count counts ih =>
        intro done total hcounts htotal
        have hcount := hcounts count List.mem_cons_self
        have hstep : updateCache ⟨done⟩ (done.length + 1) count =
            some ⟨done ++ [(total + count) % 2 ^ 64]⟩ := by
          unfold updateCache
          rw [if_neg (by simp), if_pos rfl, htotal, Nat.add_mod_mod, Nat.add_comm count total]
          cases done with
          | nil =>
              have htotal : total % 2 ^ 64 = 0 := by simpa using htotal.symm
              have hsum : (total + count) % 2 ^ 64 = count := by
                rw [Nat.add_mod, htotal, Nat.zero_add, Nat.mod_mod, Nat.mod_eq_of_lt hcount]
              rw [hsum]
              rfl
          | cons m done => simp
        have ih := ih (done ++ [(total + count) % 2 ^ 64]) (total + count)
          (fun c hc => hcounts c (List.mem_cons_of_mem _ hc)) (List.getLastD_concat ..)
        rw [List.length_append, List.length_singleton] at ih
        rw [List.zipIdx_cons, List.foldlM_cons, hstep]
        show (counts.zipIdx (done.length + 1 + 1)).foldlM _ _ = _
        rw [ih, totals, List.append_assoc, List.map_cons, List.singleton_append]
  exact key counts [] 0 hcounts rfl

lemma le_of_mem_totals {total m : ℕ} {counts : List ℕ} (hm : m ∈ totals total counts) :
    total ≤ m := by
  induction counts generalizing total with
  | nil => cases hm
  | cons count counts ih =>
      rcases List.mem_cons.mp hm with rfl | hm
      · exact Nat.le_add_right _ _
      · exact (Nat.le_add_right _ _).trans (ih hm)

/-- Running totals are sorted. -/
lemma pairwise_totals (total : ℕ) (counts : List ℕ) :
    (totals total counts).Pairwise (· ≤ ·) := by
  induction counts generalizing total with
  | nil => exact List.Pairwise.nil
  | cons count counts ih => exact List.pairwise_cons.mpr ⟨fun _ => le_of_mem_totals, ih _⟩

/-- In a sorted vector the marks below `k` come first. -/
lemma getD_lt_iff (hmark : mark.Pairwise (· ≤ ·)) {i : ℕ} (hi : i < mark.length) :
    mark.getD i 0 < k ↔ i < stepsBelow mark k := by
  induction mark generalizing i with
  | nil => simp at hi
  | cons m mark ih =>
      obtain ⟨hle, hmark⟩ := List.pairwise_cons.mp hmark
      unfold stepsBelow
      rw [List.countP_cons]
      by_cases hm : m < k
      · rw [if_pos (decide_eq_true hm)]
        cases i with
        | zero => simpa using hm
        | succ i =>
            rw [List.getD_cons_succ, ih hmark (Nat.lt_of_succ_lt_succ hi)]
            exact Nat.succ_lt_succ_iff.symm
      · have hzero : mark.countP (fun m => decide (m < k)) = 0 := by
          rw [List.countP_eq_zero]
          intro x hx
          have := hle x hx
          simp only [decide_eq_true_eq]
          omega
        rw [if_neg (by simpa using hm), hzero]
        cases i with
        | zero => simpa using hm
        | succ i =>
            rw [List.getD_cons_succ, ih hmark (Nat.lt_of_succ_lt_succ hi), stepsBelow, hzero]
            simp

lemma stepsBelow_le (mark : List ℕ) (k : ℕ) : stepsBelow mark k ≤ mark.length :=
  List.countP_le_length

lemma stepsBelow_mono (mark : List ℕ) (k : ℕ) :
    stepsBelow mark k ≤ stepsBelow mark (k + 1) := by
  refine List.countP_mono_left (fun m _ hm => ?_)
  simp only [decide_eq_true_eq] at hm ⊢
  omega

end Updates

/-! ## The search -/

section Search

variable {mark : List ℕ} {k : ℕ}

lemma Halved.subset {beg stop b e : ℕ} (h : Halved beg stop b e) (hle : beg ≤ stop) :
    beg ≤ b ∧ e ≤ stop := by
  induction h with
  | refl => exact ⟨le_rfl, le_rfl⟩
  | left _ ih =>
      have := ih (by omega)
      omega
  | right _ ih =>
      have := ih (by omega)
      omega

section Reaches

variable {beg stop p q : ℕ}

lemma reaches_right (hle : beg ≤ stop) (hmid : (beg + stop) / 2 < p) :
    Reaches beg stop p q ↔ Reaches ((beg + stop) / 2) stop p q := by
  refine ⟨?_, fun ⟨b, e, h, hrest⟩ => ⟨b, e, Halved.right h, hrest⟩⟩
  rintro ⟨b, e, h, hlt, hp, hq⟩
  cases h with
  | refl => omega
  | left h =>
      have := h.subset (by omega)
      omega
  | right h => exact ⟨b, e, h, hlt, hp, hq⟩

lemma reaches_left (hle : beg ≤ stop) (hpq : p < q) (hmid : q ≤ (beg + stop) / 2) :
    Reaches beg stop p q ↔ Reaches beg ((beg + stop) / 2) p q := by
  refine ⟨?_, fun ⟨b, e, h, hrest⟩ => ⟨b, e, Halved.left h, hrest⟩⟩
  rintro ⟨b, e, h, hlt, hp, hq⟩
  cases h with
  | refl => omega
  | left h => exact ⟨b, e, h, hlt, hp, hq⟩
  | right h =>
      have := h.subset (by omega)
      omega

/-- The interval whose middle falls into `[p, q)` decides. -/
lemma reaches_mid (hlt : beg + 1 < stop) (hstop : q ≤ stop) (hp : p ≤ (beg + stop) / 2)
    (hq : (beg + stop) / 2 < q) : Reaches beg stop p q ↔ (beg + stop) / 2 = p := by
  refine ⟨?_, fun hmid => ⟨beg, stop, Halved.refl beg stop, hlt, hmid, hstop⟩⟩
  rintro ⟨b, e, h, hbe, hmid, hqe⟩
  cases h with
  | refl => exact hmid
  | left h =>
      have := h.subset (by omega)
      omega
  | right h =>
      have := h.subset (by omega)
      omega

end Reaches

section Unmisled

variable {stored : List ℕ} {beg stop p q : ℕ}

lemma unmisled_right (hle : beg ≤ stop) (hpq : p ≤ q) (hmid : (beg + stop) / 2 < p) :
    Unmisled stored k beg stop p q ↔ Unmisled stored k ((beg + stop) / 2) stop p q := by
  refine ⟨fun H b e h => H b e (Halved.right h), fun H b e h hlt hb hq => ?_⟩
  cases h with
  | refl => omega
  | left h =>
      have := h.subset (by omega)
      omega
  | right h => exact H b e h hlt hb hq

lemma unmisled_left (hlt : beg + 1 < stop) (hpq : p ≤ q) (hmid : q ≤ (beg + stop) / 2)
    (hk : k < stored.getD ((beg + stop) / 2) 0) :
    Unmisled stored k beg stop p q ↔ Unmisled stored k beg ((beg + stop) / 2) p q := by
  refine ⟨fun H b e h => H b e (Halved.left h), fun H b e h hbe hb hq => ?_⟩
  cases h with
  | refl => exact Or.inl hk
  | left h => exact H b e h hbe hb hq
  | right h =>
      have := h.subset (by omega)
      omega

/-- Once a probe falls on `p`, or between `p` and `q`, no other probe lies beyond `q`. -/
lemma unmisled_mid (hlt : beg + 1 < stop) (hp : p ≤ (beg + stop) / 2)
    (hq : (beg + stop) / 2 ≤ q)
    (hmid : q = (beg + stop) / 2 → (beg + stop) / 2 = p ∧ stored.getD ((beg + stop) / 2) 0 = k) :
    Unmisled stored k beg stop p q := by
  intro b e h hbe hb hqm
  cases h with
  | refl => exact Or.inr (hmid (by omega))
  | left h =>
      have := h.subset (by omega)
      omega
  | right h =>
      have := h.subset (by omega)
      omega

/-- Nothing is probed in an interval of one position. -/
lemma unmisled_of_le (hle : beg ≤ stop) (hone : stop ≤ beg + 1) :
    Unmisled stored k beg stop p q := by
  intro b e h hbe hb hq
  have := h.subset hle
  omega

end Unmisled

/-- From a mark other than `k` on the search only moves up. -/
lemma lt_searchLoop (stored : List ℕ) (k fuel : ℕ) :
    ∀ beg stop, stored.getD beg 0 ≠ k → beg < searchLoop stored k fuel beg stop := by
  induction fuel with
  | zero =>
      intro beg stop hne
      rw [searchLoop, if_neg hne]
      exact Nat.lt_succ_self beg
  | succ fuel ih =>
      intro beg stop hne
      rw [searchLoop]
      split
      · simp only
        split
        · exact (show beg < (beg + stop) / 2 by omega).trans (ih _ stop (by omega))
        · split
          · exact ih beg _ hne
          · omega
      · exact Nat.lt_succ_self beg

variable {stored : List ℕ}

/-- The probe at a total above `k`: the search is misled unless the stored mark is above `k` too, or
it is `k` and the probe stands at `p`. -/
lemma searchLoop_above {fuel beg stop p q : ℕ} {Good : Prop} (hlt : beg + 1 < stop)
    (hbeg : beg ≤ p - 1) (hpq : p ≤ q) (hq : q ≤ (beg + stop) / 2)
    (hgood : p = (beg + stop) / 2 → Good)
    (ih : k < stored.getD ((beg + stop) / 2) 0 →
      (searchLoop stored k fuel beg ((beg + stop) / 2) = p ↔
        Good ∧ Unmisled stored k beg ((beg + stop) / 2) p q)) :
    searchLoop stored k (fuel + 1) beg stop = p ↔ Good ∧ Unmisled stored k beg stop p q := by
  have hself : Unmisled stored k beg stop p q → k < stored.getD ((beg + stop) / 2) 0 ∨
      ((beg + stop) / 2 = p ∧ stored.getD ((beg + stop) / 2) 0 = k) :=
    fun H => H beg stop (Halved.refl beg stop) hlt hbeg hq
  rw [searchLoop, if_pos hlt]
  simp only
  rcases lt_trichotomy (stored.getD ((beg + stop) / 2) 0) k with hless | heq | hmore
  · -- the search goes up and does not come back
    rw [if_pos hless]
    have hup := lt_searchLoop stored k fuel ((beg + stop) / 2) stop hless.ne
    refine iff_of_false (by omega) (fun H => ?_)
    have := hself H.2
    omega
  · -- the search stops here
    rw [if_neg (by omega), if_neg (by omega)]
    constructor
    · intro hmid
      exact ⟨hgood hmid.symm, unmisled_mid hlt hmid.ge (by omega) (fun _ => ⟨hmid, heq⟩)⟩
    · intro H
      have := hself H.2
      omega
  · rw [if_neg (by omega), if_pos hmore, ih hmore, unmisled_left hlt hpq hq hmore]

/-- The search among stored marks that agree with the sorted totals as far as these are at most
`k`.  Above the first mark it finds where the totals equal to `k` begin, unless it probes another of
them first; where no total is below `k`, it finds the first mark if that is the only one. -/
lemma searchLoop_eq_iff (hmark : mark.Pairwise (· ≤ ·))
    (hstored : ∀ i < mark.length, (i = 0 ∨ i < stepsBelow mark (k + 1)) →
      stored.getD i 0 = mark.getD i 0) (fuel : ℕ) :
    ∀ beg stop, beg ≤ stepsBelow mark k - 1 → beg < stop → stepsBelow mark (k + 1) ≤ stop →
      stop ≤ mark.length → stop ≤ fuel + beg + 1 →
        (searchLoop stored k fuel beg stop = stepsBelow mark k ↔
          ((stepsBelow mark k = 0 ∧ stepsBelow mark (k + 1) = 1) ∨ (0 < stepsBelow mark k ∧
            (stepsBelow mark k = stepsBelow mark (k + 1) ∨
              Reaches beg stop (stepsBelow mark k) (stepsBelow mark (k + 1))))) ∧
          Unmisled stored k beg stop (stepsBelow mark k) (stepsBelow mark (k + 1))) := by
  have hmono := stepsBelow_mono mark k
  -- where the search ends the first mark of the range decides
  have hexit : ∀ beg stop, beg ≤ stepsBelow mark k - 1 → beg < stop →
      stepsBelow mark (k + 1) ≤ stop → stop ≤ mark.length → stop ≤ beg + 1 →
        ((if stored.getD beg 0 = k then beg else beg + 1) = stepsBelow mark k ↔
          ((stepsBelow mark k = 0 ∧ stepsBelow mark (k + 1) = 1) ∨ (0 < stepsBelow mark k ∧
            (stepsBelow mark k = stepsBelow mark (k + 1) ∨
              Reaches beg stop (stepsBelow mark k) (stepsBelow mark (k + 1))))) ∧
          Unmisled stored k beg stop (stepsBelow mark k) (stepsBelow mark (k + 1))) := by
    intro beg stop hbeg hlt hstop hlen hone
    have hbelow := getD_lt_iff (k := k) hmark (show beg < mark.length by omega)
    have hupto := getD_lt_iff (k := k + 1) hmark (show beg < mark.length by omega)
    rw [and_iff_left (unmisled_of_le hlt.le hone), hstored beg (by omega) (by omega)]
    rcases Nat.eq_zero_or_pos (stepsBelow mark k) with hzero | hpos
    · have hne : ¬ 0 < stepsBelow mark k := by omega
      simp only [hne, false_and, or_false]
      split <;> omega
    · rw [if_neg (by omega)]
      exact iff_of_true (by omega) (Or.inr ⟨hpos, Or.inl (by omega)⟩)
  -- the probe is above all totals that are `k`, below them, or on one of them
  induction fuel with
  | zero =>
      intro beg stop hbeg hlt hstop hlen hfuel
      rw [searchLoop]
      exact hexit beg stop hbeg hlt hstop hlen (by omega)
  | succ fuel ih =>
      intro beg stop hbeg hlt hstop hlen hfuel
      by_cases hrun : beg + 1 < stop
      · have hmid : (beg + stop) / 2 < mark.length := by omega
        have hbelow := getD_lt_iff (k := k) hmark hmid
        have hupto := getD_lt_iff (k := k + 1) hmark hmid
        by_cases hq : stepsBelow mark (k + 1) ≤ (beg + stop) / 2
        · refine searchLoop_above hrun hbeg hmono hq
            (fun h => Or.inr ⟨by omega, Or.inl (by omega)⟩) (fun _ => ?_)
          rw [ih beg _ hbeg (by omega) hq (by omega) (by omega)]
          refine and_congr_left' (or_congr_right
            (and_congr_right fun _ => or_congr_right' fun hne => ?_))
          rw [reaches_left (by omega) (by omega) hq]
        · have hval : stored.getD ((beg + stop) / 2) 0 = mark.getD ((beg + stop) / 2) 0 :=
            hstored _ hmid (Or.inr (by omega))
          rw [searchLoop, if_pos hrun]
          simp only
          rw [hval]
          by_cases hp : (beg + stop) / 2 < stepsBelow mark k
          · rw [if_pos (hbelow.mpr hp), ih _ stop (by omega) (by omega) hstop hlen (by omega),
              reaches_right (by omega) hp, unmisled_right (by omega) hmono hp]
          · -- the probe falls on a total that is `k`, and the search stops
            rw [if_neg (by omega), if_neg (by omega),
              and_iff_left (unmisled_mid hrun (by omega) (by omega) (by omega)),
              reaches_mid hrun hstop (by omega) (by omega)]
            omega
      · rw [searchLoop, if_neg hrun]
        exact hexit beg stop hbeg hlt hstop hlen (by omega)

/-- `find_position` counts the totals below `k` exactly if it finds the first of those equal to `k`
and is not misled by a stored mark. -/
lemma findPosition_eq_stepsBelow_iff (hmark : mark.Pairwise (· ≤ ·))
    (hlen : stored.length = mark.length)
    (hstored : ∀ i < mark.length, (i = 0 ∨ i < stepsBelow mark (k + 1)) →
      stored.getD i 0 = mark.getD i 0) :
    findPosition ⟨stored⟩ k = stepsBelow mark k ↔ FindsFirst mark k ∧
      Unmisled stored k 0 mark.length (stepsBelow mark k) (stepsBelow mark (k + 1)) := by
  have hle := stepsBelow_le mark (k + 1)
  unfold findPosition FindsFirst
  by_cases hnil : mark = []
  · subst hnil
    rw [List.length_nil] at hlen
    rw [if_pos (List.eq_nil_of_length_eq_zero hlen)]
    simp [stepsBelow, unmisled_of_le]
  · have hpos := List.length_pos_iff.mpr hnil
    have hne : stored ≠ [] := List.length_pos_iff.mp (by omega)
    rw [if_neg hne]
    simp only [hnil, false_or]
    rw [hlen]
    exact searchLoop_eq_iff hmark hstored _ 0 _ (Nat.zero_le _) hpos hle le_rfl (by omega)

end Search

/-- The totals up to `k` are stored as they are, and so is the first count. -/
lemma getD_totals_stored {counts : List ℕ} (hcounts : ∀ c ∈ counts, c < 2 ^ 64) {k : ℕ}
    (hk : k < 2 ^ 64) {i : ℕ} (hi : i < (totals 0 counts).length)
    (h : i = 0 ∨ i < stepsBelow (totals 0 counts) (k + 1)) :
    ((totals 0 counts).map (· % 2 ^ 64)).getD i 0 = (totals 0 counts).getD i 0 := by
  have hlt : (totals 0 counts).getD i 0 < 2 ^ 64 := by
    rcases h with rfl | h
    · cases counts with
      | nil => simp [totals]
      | cons count counts => simpa [totals] using hcounts count List.mem_cons_self
    · have := (getD_lt_iff (pairwise_totals 0 counts) hi).mpr h
      omega
  have hget := List.getD_map (totals 0 counts) (d := 0) (n := i) (fun m => m % 2 ^ 64)
  exact hget.trans (Nat.mod_eq_of_lt hlt)

/-- After any updates the search of `find_position` comes to its end, and its result is the number
of recorded steps that together with those before them hold fewer than `k` models exactly if
`FindsFirst` and no wrapped mark misleads the search.  The counts are any `size_t` values, and the
marks are their totals in 64-bit words. -/
theorem findPosition_eq_iff {counts : List ℕ} (hcounts : ∀ c ∈ counts, c < 2 ^ 64) {k : ℕ}
    (hk : k < 2 ^ 64) :
    ∃ c, updates counts = some c ∧ c.mark = (totals 0 counts).map (· % 2 ^ 64) ∧
      ((∀ more, searchLoop c.mark k (c.mark.length + more) 0 c.mark.length =
          searchLoop c.mark k c.mark.length 0 c.mark.length) ∧
        c.findPosition k = stepsBelow (totals 0 counts) k ↔
          FindsFirst (totals 0 counts) k ∧
            Unmisled c.mark k 0 c.mark.length (stepsBelow (totals 0 counts) k)
              (stepsBelow (totals 0 counts) (k + 1))) := by
  refine ⟨_, updates_eq hcounts, rfl, ?_⟩
  rw [findPosition_eq_stepsBelow_iff (pairwise_totals 0 counts) (List.length_map _)
    (fun i hi h => getD_totals_stored hcounts hk hi h), List.length_map]
  refine and_iff_right (fun more => ?_)
  induction more with
  | zero => rfl
  | succ more ih =>
      rw [← Nat.add_assoc, searchLoop_succ _ _ _ _ _ (by omega)]
      exact ih

/-- A count that makes the totals wrap: the stored marks are `1, 5, 4, 14`, and the third model is
found at step `1`. -/
theorem findPosition_eq_iff_wrapped :
    ∃ c, updates [1, 4, 2 ^ 64 - 1, 10] = some c ∧ c.mark = [1, 5, 4, 14] ∧
      c.findPosition 3 = 1 := by
  obtain ⟨c, hc, hmark, hfind⟩ := findPosition_eq_iff
    (show ∀ c ∈ [1, 4, 2 ^ 64 - 1, 10], c < 2 ^ 64 by decide) (show 3 < 2 ^ 64 by decide)
  have hmark : c.mark = [1, 5, 4, 14] := hmark
  refine ⟨c, hc, hmark, (hfind.mpr ⟨Or.inr (Or.inr ⟨by decide, Or.inl (by decide)⟩), ?_⟩).2⟩
  rw [hmark]
  intro b e h hbe hb hq
  have hsub := h.subset (by decide)
  have hb : b = 0 := by simpa [totals, stepsBelow] using hb
  have hmid : (b + e) / 2 = 1 ∨ (b + e) / 2 = 2 := by
    have he : e ≤ 4 := hsub.2
    omega
  rcases hmid with h1 | h2
  · exact Or.inl (by rw [h1]; decide)
  · exact Or.inl (by rw [h2]; decide)

/-- Below the first mark: one step with five models, and the third is asked for. -/
theorem findPosition_below_first :
    ¬ ∃ c, updates [5] = some c ∧ c.findPosition 3 = stepsBelow (totals 0 [5]) 3 := by
  rintro ⟨c, hc, hfind⟩
  obtain rfl : (⟨[5]⟩ : CachePosition) = c := Option.some_injective _ hc
  exact absurd hfind (by decide)

/-- Counts of zero: the marks are `1, 3, 3, 3`, and of the last three the middle one is probed
first. -/
example : (updates [1, 2, 0, 0]).map (fun c => (c.findPosition 3, stepsBelow c.mark 3)) =
    some (2, 1) := by decide

/-- A wrapped mark: the totals are `2 ^ 63, 2 ^ 64`, the stored marks `2 ^ 63, 0`. -/
example : (updates [2 ^ 63, 2 ^ 63]).map (fun c => (c.mark, c.findPosition (2 ^ 63 + 1))) =
    some ([2 ^ 63, 0], 2) := by decide

end CachePosition

end Dmcs
