import Dmcs.Mcs.JoinPacks

/-!
# The pack size (`pack_size`)

The neighbours hold fixed lists of belief states and answer a request with the page it asks for
(`Serves`).  Joining pack by pack should then be joining everything at once (`JoinsAlike`).

`next_join` computes the range of the next pack on `size_t` and asks until a pack is empty.  So the
position after the last pack of every list has to be a `size_t` (`FitsPacks`); then the joins are
the same (`joinsAlike_of_fits`).  Otherwise the last ranges wrap around.  If the pack size divides
the largest `size_t`, the joiner is sent the beginning of the list again, as for pack size
`2 ^ 64 - 1` the whole of it; if not, it is sent nothing and leaves out the end of the list
(`exists_codePacks`).  Either way it tries other combinations (`joinRun_packs_iff`).

## The two sides

If the position after the last pack of every list is a `size_t`, the packs that are read are the
packs of the list (`Packs.ofList`), and `joinRun_of_packs` with `product_packs_perm` gives the same
combinations as `joinRun_of_lists`, in another order.

If it is not, some list has a pack number whose range wraps.  Where the largest `size_t` is a
multiple of the pack size, the range that wraps begins at `0`, and packs are read a second time;
otherwise it ends before it begins.  Either way the number of combinations tried is not the number
there are.  No list is too short for this: with the largest pack size
two lists of one state each are enough.
-/

namespace Dmcs

open Odometer Paging QueryID

variable {bso : BeliefStateOffset}

namespace StreamingJoiner

variable {J : JoinerConfig} {env : Environment bso} {history : Finset ℕ} {qid : Qid}
  {Ls : List (List (NewBeliefState bso.width))}

/-- Every neighbour holds a fixed list and answers a request with the page it asks for. -/
structure Serves (J : JoinerConfig) (env : Environment bso)
    (Ls : List (List (NewBeliefState bso.width))) : Prop where
  length : Ls.length = J.neighbors.length
  answer : ∀ t i, i < J.neighbors.length → ∀ message,
    env.answer t (J.neighbor i) message = page message.k1 message.k2 (Ls.getD i [])

lemma Serves.answerOf_eq (h : Serves J env Ls) {i : ℕ} {L : List (NewBeliefState bso.width)}
    (hL : Ls[i]? = some L) (t k1 k2 : ℕ) :
    answerOf J env history qid t i k1 k2 = page k1 k2 L := by
  obtain ⟨hi, -⟩ := List.getElem?_eq_some_iff.mp hL
  rw [answerOf, h.answer t i (h.length ▸ hi), List.getD_eq_getElem?_getD, hL]
  rfl

lemma Serves.listsServed (h : Serves J env Ls) (history : Finset ℕ) :
    ListsServed J env history Ls :=
  ⟨h.length, fun i L hL t qid => by rw [h.answerOf_eq hL, page_zero]⟩

/-! ## What is read of a list -/

section

variable {α : Type*} {p c : ℕ} {L : List α}

/-- What a list holds in the range that `next_join` computes for pack number `c`. -/
def codePack (p c : ℕ) (L : List α) : List α := page (packRange p c).1 (packRange p c).2 L

/-- Of one belief, with the largest pack size: the first two packs are the same. -/
example : (List.range 3).map (fun c => codePack (2 ^ 64 - 1) c [true]) = [[true], [true], []] := by
  decide

lemma codePack_eq_pack (hp : 1 ≤ p) (hc : (c + 1) * p < 2 ^ 64) :
    codePack p c L = pack p c L := by
  have hmul : (c + 1) * p = c * p + p := by rw [Nat.add_mul, Nat.one_mul]
  rw [codePack, packRange, pack, Nat.mod_eq_of_lt (by omega : c * p + 1 < 2 ^ 64),
    Nat.mod_eq_of_lt hc]

/-- A range that begins behind the list. -/
lemma codePack_eq_nil (hc : c * p + 1 < 2 ^ 64) (hL : L.length ≤ c * p) : codePack p c L = [] := by
  rw [codePack, packRange, Nat.mod_eq_of_lt hc]
  exact page_eq_nil_of_length_lt (by omega) (by omega)

/-- The position after the last pack is a `size_t`: all packs are as they should be. -/
lemma codePack_of_fits (hp : 1 ≤ p) (hfit : noPacks p L * p + 1 < 2 ^ 64) (hc : c ≤ noPacks p L) :
    codePack p c L = pack p c L := by
  obtain ⟨hlen, -⟩ := length_le_noPacks_mul hp L
  rcases Nat.lt_or_eq_of_le hc with hlt | rfl
  · have hle : (c + 1) * p ≤ noPacks p L * p := Nat.mul_le_mul_right p hlt
    exact codePack_eq_pack hp (by omega)
  · rw [codePack_eq_nil hfit hlen, eq_comm, ← not_ne_iff, pack_ne_nil_iff hp]
    exact Nat.lt_irrefl _

/-- Then the list is read once. -/
lemma all_of_fits (hp : 1 ≤ p) (hfit : noPacks p L * p + 1 < 2 ^ 64) {P : Packs α}
    (hP : ∀ c, P.pack c = codePack p c L) : P.all = L := by
  have hpack : ∀ c ≤ noPacks p L, P.pack c = pack p c L :=
    fun c hc => (hP c).trans (codePack_of_fits hp hfit hc)
  have hcount : P.count = noPacks p L := by
    refine le_antisymm (not_lt.mp (fun hlt => ?_)) (not_lt.mp (fun hlt => ?_))
    · refine P.ne_nil _ hlt ?_
      rw [hpack _ (Nat.le_refl _), ← not_ne_iff, pack_ne_nil_iff hp]
      exact Nat.lt_irrefl _
    · exact (pack_ne_nil_iff hp).mpr hlt (hpack _ hlt.le ▸ P.eq_nil)
  rw [← Packs.all_ofList hp L, Packs.all, Packs.all, hcount]
  exact List.flatMap_congr (fun c hc => hpack c (List.mem_range.mp hc).le)

/-- The largest `size_t` is not a multiple of the pack size: the first range that wraps around ends
before it begins. -/
lemma codePack_wrapped_eq_nil (hp : 1 ≤ p) (hp64 : p < 2 ^ 64) (hdvd : ¬ p ∣ 2 ^ 64 - 1) :
    codePack p ((2 ^ 64 - 1) / p) L = [] := by
  have hle := Nat.div_mul_le_self (2 ^ 64 - 1) p
  have hlt := Nat.lt_div_mul_add (a := 2 ^ 64 - 1) (by omega : 0 < p)
  have hne : (2 ^ 64 - 1) / p * p ≠ 2 ^ 64 - 1 := fun heq => hdvd (Dvd.intro_left _ heq)
  generalize (2 ^ 64 - 1) / p = K at hle hlt hne ⊢
  have hmul : (K + 1) * p = K * p + p := by rw [Nat.add_mul, Nat.one_mul]
  have hend : (K + 1) * p % 2 ^ 64 = K * p + p - 2 ^ 64 := by
    rw [hmul, Nat.mod_eq_sub_mod (by omega), Nat.mod_eq_of_lt (by omega)]
  rw [codePack, packRange, hend, Nat.mod_eq_of_lt (by omega), page_pos (by omega),
    List.drop_eq_nil_iff, List.length_take]
  omega

/-- The largest `size_t` is a multiple of the pack size: the first range that wraps around begins at
`0`. -/
lemma codePack_wrapped_ne_nil (hp : 1 < p) (hp64 : p < 2 ^ 64) (hdvd : p ∣ 2 ^ 64 - 1)
    (hL : L ≠ []) : codePack p ((2 ^ 64 - 1) / p) L ≠ [] := by
  have hlen := List.length_pos_iff.mpr hL
  have hmul : ((2 ^ 64 - 1) / p + 1) * p = 2 ^ 64 + (p - 1) := by
    rw [Nat.add_mul, Nat.one_mul, Nat.div_mul_cancel hdvd]
    omega
  have hlow : ((2 ^ 64 - 1) / p * p + 1) % 2 ^ 64 = 0 := by
    rw [Nat.div_mul_cancel hdvd]
    rfl
  have hhigh : ((2 ^ 64 - 1) / p + 1) * p % 2 ^ 64 = p - 1 := by
    rw [hmul, Nat.add_mod_left, Nat.mod_eq_of_lt (by omega)]
  rw [codePack, packRange, hlow, hhigh, page, if_neg (by omega), ← List.length_pos_iff,
    List.length_drop, List.length_take]
  omega

/-- After the list was read twice, the range begins at the largest `size_t`. -/
lemma codePack_end_eq_nil (hdvd : p ∣ 2 ^ 64 - 1) (hL : L.length + 1 < 2 ^ 64) :
    codePack p (2 * ((2 ^ 64 - 1) / p)) L = [] := by
  have hlow : (2 * ((2 ^ 64 - 1) / p) * p + 1) % 2 ^ 64 = 2 ^ 64 - 1 := by
    rw [Nat.mul_assoc, Nat.div_mul_cancel hdvd]
    rfl
  rw [codePack, packRange, hlow]
  exact page_eq_nil_of_length_lt (by omega) (by omega)

/-- Packs that do not fit: the list is read beyond its end, or not to its end. -/
lemma exists_codePacks_of_not_fits (hp : 1 ≤ p) (hp64 : p < 2 ^ 64) (hL : L.length + 1 < 2 ^ 64)
    (hfit : ¬ noPacks p L * p + 1 < 2 ^ 64) :
    ∃ P : Packs α, (∀ c, P.pack c = codePack p c L) ∧ P.count < 2 ^ 64 ∧
      (p ∣ 2 ^ 64 - 1 → L.length < P.all.length) ∧
        (¬ p ∣ 2 ^ 64 - 1 → P.all.length < L.length) := by
  obtain ⟨hcover, hlast⟩ := length_le_noPacks_mul hp L
  have hK := Nat.div_mul_le_self (2 ^ 64 - 1) p
  have hpack : ∀ c < (2 ^ 64 - 1) / p, codePack p c L = pack p c L := by
    intro c hc
    have hle : (c + 1) * p ≤ (2 ^ 64 - 1) / p * p := Nat.mul_le_mul_right p hc
    exact codePack_eq_pack hp (by omega)
  by_cases hdvd : p ∣ 2 ^ 64 - 1
  · -- one more range is read after the whole list
    have hKp := Nat.div_mul_cancel hdvd
    have hle : (2 ^ 64 - 1) / p ≤ noPacks p L :=
      Nat.le_of_mul_le_mul_right (by omega : (2 ^ 64 - 1) / p * p ≤ noPacks p L * p) hp
    have hp1 : 1 < p := by
      by_contra hone
      obtain rfl : p = 1 := by omega
      omega
    have hL0 : L ≠ [] := by
      rintro rfl
      simp only [List.length_nil] at hlast
      omega
    have hhalf : (2 ^ 64 - 1) / p ≤ (2 ^ 64 - 1) / 2 := Nat.div_le_div_left hp1 (by omega)
    let P : Packs α := .ofExists (fun c => codePack p c L) ⟨_, codePack_end_eq_nil hdvd hL⟩
    have hcount : P.count ≤ 2 * ((2 ^ 64 - 1) / p) :=
      Packs.count_ofExists_le (codePack_end_eq_nil hdvd hL)
    refine ⟨P, fun _ => rfl, by omega, fun _ => ?_, fun hnot => absurd hdvd hnot⟩
    have hmore : (2 ^ 64 - 1) / p < P.count := by
      by_contra hnot
      rcases Nat.lt_or_eq_of_le (not_lt.mp hnot) with hlt | heq
      · exact (pack_ne_nil_iff hp).mpr (by omega) ((hpack _ hlt).symm.trans P.eq_nil)
      · exact codePack_wrapped_ne_nil hp1 hp64 hdvd hL0 (heq ▸ P.eq_nil)
    obtain ⟨more, hmore⟩ := Nat.exists_eq_add_of_lt hmore
    have hwhole : (List.range ((2 ^ 64 - 1) / p)).flatMap P.pack = L := by
      rw [← List.take_of_length_le (by omega : L.length ≤ (2 ^ 64 - 1) / p * p), ← flatMap_pack]
      exact List.flatMap_congr (fun c hc => hpack c (List.mem_range.mp hc))
    have hnext := List.length_pos_iff.mpr (codePack_wrapped_ne_nil hp1 hp64 hdvd hL0)
    rw [Packs.all, hmore, Nat.add_assoc, List.range_add, List.flatMap_append, hwhole,
      List.length_append, Nat.add_comm more 1, List.range_add, List.map_append,
      List.flatMap_append, List.length_append]
    simp only [List.range_one, List.map_singleton, Nat.add_zero, List.flatMap_singleton]
    exact Nat.lt_add_of_pos_right (Nat.lt_of_lt_of_le hnext (Nat.le_add_right _ _))
  · -- the joiner is sent nothing before the list is at its end
    have hKne : (2 ^ 64 - 1) / p * p ≠ 2 ^ 64 - 1 := fun heq => hdvd (Dvd.intro_left _ heq)
    have hlt : (2 ^ 64 - 1) / p < noPacks p L :=
      Nat.lt_of_mul_lt_mul_right (by omega : (2 ^ 64 - 1) / p * p < noPacks p L * p)
    have hmul : ((2 ^ 64 - 1) / p + 1) * p ≤ noPacks p L * p := Nat.mul_le_mul_right p hlt
    rw [Nat.add_mul, Nat.one_mul] at hmul
    have hnil := codePack_wrapped_eq_nil (L := L) hp hp64 hdvd
    let P : Packs α := .ofExists (fun c => codePack p c L) ⟨_, hnil⟩
    have hcount : P.count ≤ (2 ^ 64 - 1) / p := Packs.count_ofExists_le hnil
    have hself := Nat.div_le_self (2 ^ 64 - 1) p
    refine ⟨P, fun _ => rfl, by omega, fun hdvd' => absurd hdvd' hdvd, fun _ => ?_⟩
    have hread : P.all = L.take (P.count * p) := by
      rw [Packs.all, ← flatMap_pack]
      exact List.flatMap_congr (fun c hc => hpack c (lt_of_lt_of_le (List.mem_range.mp hc) hcount))
    have hfewer : P.count * p ≤ (2 ^ 64 - 1) / p * p := Nat.mul_le_mul_right p hcount
    rw [hread, List.length_take]
    omega

/-- What is read of a list that is not empty, compared to the list. -/
lemma exists_codePacks (hp : 1 ≤ p) (hp64 : p < 2 ^ 64) (hL : L.length + 1 < 2 ^ 64)
    (hne : L ≠ []) :
    ∃ P : Packs α, (∀ c, P.pack c = codePack p c L) ∧ P.count < 2 ^ 64 ∧ P.all ≠ [] ∧
      (p ∣ 2 ^ 64 - 1 → L.length ≤ P.all.length) ∧ (¬ p ∣ 2 ^ 64 - 1 → P.all.length ≤ L.length) ∧
        (¬ noPacks p L * p + 1 < 2 ^ 64 → P.all.length ≠ L.length) := by
  by_cases hfit : noPacks p L * p + 1 < 2 ^ 64
  · have hnil : codePack p (noPacks p L) L = [] :=
      codePack_eq_nil hfit (length_le_noPacks_mul hp L).1
    let P : Packs α := .ofExists (fun c => codePack p c L) ⟨_, hnil⟩
    have hcount : P.count ≤ noPacks p L := Packs.count_ofExists_le hnil
    have hmul : noPacks p L * 1 ≤ noPacks p L * p := Nat.mul_le_mul_left _ hp
    have hall : P.all = L := all_of_fits hp hfit (fun _ => rfl)
    refine ⟨P, fun _ => rfl, by omega, hall ▸ hne, ?_, ?_, fun hnot => absurd hfit hnot⟩
    · exact fun _ => hall ▸ le_refl _
    · exact fun _ => hall ▸ le_refl _
  · obtain ⟨P, hP, hcount, hlonger, hshorter⟩ := exists_codePacks_of_not_fits hp hp64 hL hfit
    refine ⟨P, hP, hcount, Packs.all_ne_nil (P.count_pos_iff.mpr ?_), fun h => (hlonger h).le,
      fun h => (hshorter h).le, fun _ => ?_⟩
    · have hfirst : 0 < noPacks p L := Nat.pos_of_ne_zero (fun hzero => by simp [hzero] at hfit)
      rw [hP, codePack_eq_pack hp (by omega)]
      exact (pack_ne_nil_iff hp).mpr hfirst
    · by_cases hdvd : p ∣ 2 ^ 64 - 1
      · exact (hlonger hdvd).ne'
      · exact (hshorter hdvd).ne

end

/-! ## Packs and no packs -/

/-- The same joiner with another pack size. -/
def JoinerConfig.withPackSize (J : JoinerConfig) (p : ℕ) (hp : p < 2 ^ 64) : JoinerConfig :=
  { J with packSize := p, packSize_lt := hp }

/-- Joining pack by pack is joining everything at once.  From any idle state and whatever the order
of arrival, calling `first_join` and then `next_join` until one of them returns `NULL` ends without
a failing assertion; it tries every combination of one state per neighbour once and returns, up to
their order, the same states as without packs.  If a neighbour has no state, already the first call
returns `NULL`. -/
def JoinsAlike (J : JoinerConfig) (p : ℕ) (hp : p < 2 ^ 64)
    (Ls : List (List (NewBeliefState bso.width))) : Prop :=
  ∀ env env₀ : Environment bso, Serves J env Ls → Serves J env₀ Ls →
    ∀ (history history₀ : Finset ℕ) (qids qids₀ : ℕ → Qid), (∀ i, Plain (qids i)) →
      (∀ i, Plain (qids₀ i)) → ∀ s s₀ : State bso, Idle J s → Idle J s₀ →
        ∃ N, ∀ fuel ≥ N, ∃ results results₀ tried s' s₀',
          joinRun (J.withPackSize p hp) env history qids fuel s = .ok (results, s') ∧
          joinRun (J.withPackSize 0 zero_lt_word) env₀ history₀ qids₀ fuel s₀ =
            .ok (results₀, s₀') ∧
          results.Perm results₀ ∧ results₀ = (product Ls).filterMap joinOne ∧
          s'.tried = s.tried ++ tried ∧ tried.Perm (product Ls) ∧
          ([] ∈ Ls → ∃ s₁, firstJoin (J.withPackSize p hp) env history (qids 0) fuel s =
            .ok (⟨none, qids 0⟩, s₁))

/-- Either some list is empty, or the position after the last pack of each list is a `size_t`. -/
def FitsPacks (p : ℕ) (Ls : List (List (NewBeliefState bso.width))) : Prop :=
  [] ∈ Ls ∨ ∀ L ∈ Ls, noPacks p L * p + 1 < 2 ^ 64

/-- Neighbours with the given lists; the answers arrive one after the other. -/
def listEnvironment (J : JoinerConfig) (Ls : List (List (NewBeliefState bso.width))) :
    Environment bso where
  answer := fun _ nb message =>
    page message.k1 message.k2 (Ls.getD (J.offset2index nb.neighborOffset) [])
  arrive := fun _ ls => ls.flatten
  interleaving := interleaving_flatten

lemma serves_listEnvironment (h : Ls.length = J.neighbors.length) :
    Serves J (listEnvironment J Ls) Ls :=
  ⟨h, fun t i hi message => by simp only [listEnvironment, J.offset2index_neighbor hi]⟩

/-- Packs of fixed lists, as they are read. -/
lemma Serves.packsServed (h : Serves J env Ls) (history : Finset ℕ)
    {f : List (NewBeliefState bso.width) → Packs (NewBeliefState bso.width)}
    (hf : ∀ L ∈ Ls, (f L).count < 2 ^ 64 ∧
      ∀ c ≤ (f L).count, (f L).pack c = codePack J.packSize c L) :
    PacksServed J env history (Ls.map f) := by
  refine ⟨by rw [List.length_map, h.length], fun P hP => ?_, fun i P hP c hc t qid => ?_⟩
  · obtain ⟨L, hL, rfl⟩ := List.mem_map.mp hP
    exact (hf L hL).1
  · rw [List.getElem?_map] at hP
    obtain ⟨L, hL, rfl⟩ := Option.map_eq_some_iff.mp hP
    rw [h.answerOf_eq hL, (hf L (List.mem_of_getElem? hL)).2 c hc, codePack]

/-- A list without states is among the first packs. -/
lemma Serves.nil_mem_packAnswers (h : Serves J env Ls) (hempty : [] ∈ Ls) (t : ℕ) :
    [] ∈ packAnswers J env history qid 0 J.neighbors.length t := by
  obtain ⟨i, hi⟩ := List.getElem?_of_mem hempty
  obtain ⟨hlt, -⟩ := List.getElem?_eq_some_iff.mp hi
  rw [h.length] at hlt
  refine List.mem_map.mpr ⟨i, List.mem_range.mpr hlt, ?_⟩
  rw [Nat.zero_add, h.answerOf_eq hi, page_nil]

section

variable (h64 : J.neighbors.length < 64) {p : ℕ} (hp : 1 ≤ p) (hp64 : p < 2 ^ 64)

include h64 hp

/-- Lists whose packs fit are joined as they should be. -/
lemma joinsAlike_of_fits (hfit : FitsPacks p Ls) : JoinsAlike J p hp64 Ls := by
  intro env env₀ hserves hserves₀ history history₀ qids qids₀ hq hq₀ s s₀ hidle hidle₀
  have h64' : (J.withPackSize p hp64).neighbors.length < 64 := h64
  have hidle : Idle (J.withPackSize p hp64) s := ⟨hidle.net, hidle.inputs, hidle.packCount⟩
  have hs : Serves (J.withPackSize p hp64) env Ls := ⟨hserves.length, hserves.answer⟩
  have hs₀ : Serves (J.withPackSize 0 zero_lt_word) env₀ Ls := ⟨hserves₀.length, hserves₀.answer⟩
  obtain ⟨N₀, hN₀⟩ := joinRun_of_lists history₀ (J := J.withPackSize 0 zero_lt_word) h64
    (hs₀.listsServed history₀) rfl hq₀ ⟨hidle₀.net, hidle₀.inputs, hidle₀.packCount⟩
  by_cases hempty : [] ∈ Ls
  · have hnil : [] ∈ packAnswers (J.withPackSize p hp64) env history (qids 0) 0
        (J.withPackSize p hp64).neighbors.length s.net.clock :=
      hs.nil_mem_packAnswers hempty s.net.clock
    refine ⟨N₀, fun fuel hfuel => ?_⟩
    obtain ⟨s₀', hrun₀, -⟩ := hN₀ fuel hfuel
    obtain ⟨s', hrun, htried⟩ := joinRun_null h64' (hq 0) hidle hnil fuel
    obtain ⟨s₁, hfirst, -⟩ := firstJoin_null h64' (hq 0) hidle hnil fuel
    refine ⟨_, _, [], s', s₀', hrun, hrun₀, ?_, rfl, by rw [htried, List.append_nil], ?_,
      fun _ => ⟨s₁, hfirst⟩⟩
    · rw [product_eq_nil_of_mem hempty]
      exact List.Perm.refl _
    · rw [product_eq_nil_of_mem hempty]
  · have hfits := hfit.resolve_left hempty
    have hserved :
        PacksServed (J.withPackSize p hp64) env history (Ls.map (Packs.ofList p hp)) := by
      refine hs.packsServed history (fun L hL => ⟨?_, fun c hc => ?_⟩)
      · have hmul : noPacks p L * 1 ≤ noPacks p L * p := Nat.mul_le_mul_left _ hp
        have hlt := hfits L hL
        show noPacks p L < 2 ^ 64
        omega
      · exact (codePack_of_fits hp (hfits L hL) hc).symm
    obtain ⟨N, hN⟩ := joinRun_of_packs history h64' hserved hp hq hidle
    refine ⟨max N N₀, fun fuel hfuel => ?_⟩
    obtain ⟨s₀', hrun₀, -⟩ := hN₀ fuel (by omega)
    obtain ⟨results, tried, s', hrun, hperm, htried, hproduct⟩ := hN fuel (by omega)
    rw [Packs.map_all_ofList] at hperm hproduct
    exact ⟨results, _, tried, s', s₀', hrun, hrun₀, hperm, rfl, htried, hproduct,
      fun h => absurd h hempty⟩

/-- The combinations of what is read are as many as there should be. -/
lemma JoinsAlike.length_product (h : JoinsAlike J p hp64 Ls) (hlen : Ls.length = J.neighbors.length)
    {f : List (NewBeliefState bso.width) → Packs (NewBeliefState bso.width)}
    (hf : ∀ L ∈ Ls, (f L).count < 2 ^ 64 ∧ ∀ c, (f L).pack c = codePack p c L) :
    (product (Ls.map (fun L => (f L).all))).length = (product Ls).length := by
  have hserves := serves_listEnvironment hlen
  have hq : ∀ _ : ℕ, Plain (queryId 0 0) := fun _ => plain_queryId (by norm_num) (by norm_num)
  obtain ⟨N, hN⟩ := h _ _ hserves hserves ∅ ∅ _ _ hq hq _ _ (idle_init J) (idle_init J)
  have h64 : (J.withPackSize p hp64).neighbors.length < 64 := h64
  have hserved : PacksServed (J.withPackSize p hp64) (listEnvironment J Ls) ∅ (Ls.map f) :=
    Serves.packsServed (J := J.withPackSize p hp64) ⟨hserves.length, hserves.answer⟩ ∅
      (fun L hL => ⟨(hf L hL).1, fun c _ => (hf L hL).2 c⟩)
  obtain ⟨N', hN'⟩ := joinRun_of_packs ∅ h64 hserved hp hq
    ⟨(idle_init J).net, (idle_init J).inputs, (idle_init J).packCount⟩
  obtain ⟨_, _, tried, s, _, hrun, -, -, -, htried, hperm, -⟩ := hN (max N N') (by omega)
  obtain ⟨_, tried', s', hrun', -, htried', hperm'⟩ := hN' (max N N') (by omega)
  obtain ⟨-, rfl⟩ := Prod.mk.inj (Except.ok.inj (hrun.symm.trans hrun'))
  have hsame := List.append_cancel_left (htried.symm.trans htried')
  rw [List.map_map] at hperm'
  rw [← hperm.length_eq, hsame, hperm'.length_eq]
  rfl

/-- Lists that are joined as they should be have packs that fit. -/
lemma fits_of_joinsAlike (hlen : Ls.length = J.neighbors.length)
    (hshort : ∀ L ∈ Ls, L.length + 1 < 2 ^ 64) (h : JoinsAlike J p hp64 Ls) : FitsPacks p Ls := by
  by_contra hfit
  rw [FitsPacks, not_or] at hfit
  obtain ⟨hempty, hfit⟩ := hfit
  push Not at hfit
  obtain ⟨L, hL, hwrap⟩ := hfit
  have hne : ∀ L ∈ Ls, L ≠ [] := fun L hL hnil => hempty (hnil ▸ hL)
  choose! f hf using fun L (hL : L ∈ Ls) => exists_codePacks hp hp64 (hshort L hL) (hne L hL)
  have hsame := h.length_product h64 hp hp64 hlen (fun L hL => ⟨(hf L hL).2.1, (hf L hL).1⟩)
  obtain ⟨-, -, -, hlonger, hshorter, hdiffers⟩ := hf L hL
  have hdiffers := hdiffers (not_lt.mpr hwrap)
  by_cases hdvd : p ∣ 2 ^ 64 - 1
  · have hlt := length_product_lt (f := id) (g := fun L => (f L).all) (l := Ls) hne
      (fun L hL => (hf L hL).2.2.2.1 hdvd) ⟨L, hL, lt_of_le_of_ne (hlonger hdvd) hdiffers.symm⟩
    rw [List.map_id] at hlt
    omega
  · have hlt := length_product_lt (f := fun L => (f L).all) (g := id) (l := Ls)
      (fun L hL => (hf L hL).2.2.1) (fun L hL => (hf L hL).2.2.2.2.1 hdvd)
      ⟨L, hL, lt_of_le_of_ne (hshorter hdvd) hdiffers⟩
    rw [List.map_id] at hlt
    omega

/-- Packs give the same joins as no packs when they fit, and, for lists that fit into memory, only
then.  Where they do not fit, the range of a pack wraps around: the list is then read again from its
first element, or its end is never read. -/
theorem joinRun_packs_iff (hlen : Ls.length = J.neighbors.length) :
    (FitsPacks p Ls → JoinsAlike J p hp64 Ls) ∧
      ((∀ L ∈ Ls, L.length + 1 < 2 ^ 64) → JoinsAlike J p hp64 Ls → FitsPacks p Ls) :=
  ⟨joinsAlike_of_fits h64 hp hp64, fits_of_joinsAlike h64 hp hp64 hlen⟩

end

/-- Two neighbours. -/
def twoNeighbors : JoinerConfig where
  packSize := 1
  packSize_lt := one_lt_word
  neighbors := [⟨1, 0⟩, ⟨2, 1⟩]
  joinerOffset := 0
  neighbors_ne := by simp
  offsets_nodup := by simp
  neighborOffset_lt := by simp
  joinerOffset_lt := by simp

/-- Two blocks of two beliefs. -/
def twoBlocks : BeliefStateOffset := .ofSucc 1 1

/-- Three states of the first neighbour and one of the second. -/
def threeAndOne : List (List (NewBeliefState twoBlocks.width)) :=
  [List.replicate 3 (NewBeliefState.empty _), [NewBeliefState.empty _]]

/-- In packs of two, the three combinations are tried. -/
theorem joinRun_packs_iff_twoNeighbors :
    ∃ N, ∀ fuel ≥ N, ∃ results s,
      joinRun (twoNeighbors.withPackSize 2 (by decide)) (listEnvironment twoNeighbors threeAndOne) ∅
        (fun i => queryId 0 (i % 2)) fuel (State.init twoNeighbors) = .ok (results, s) ∧
      s.tried.length = 3 := by
  have hq : ∀ i, Plain (queryId 0 (i % 2)) := fun i => plain_queryId (by norm_num) (by omega)
  have hserves : Serves twoNeighbors (listEnvironment twoNeighbors threeAndOne) threeAndOne :=
    serves_listEnvironment rfl
  have hfit : FitsPacks 2 threeAndOne := by
    right
    decide
  obtain ⟨N, hN⟩ := (joinRun_packs_iff (J := twoNeighbors) (by decide) (by omega) (by decide)
    rfl).1 hfit _ _ hserves hserves ∅ ∅ _ _ hq hq _ _ (idle_init twoNeighbors)
    (idle_init twoNeighbors)
  refine ⟨N, fun fuel hfuel => ?_⟩
  obtain ⟨results, results₀, tried, s, s₀, hrun, -, -, -, htried, hperm, -⟩ := hN fuel hfuel
  refine ⟨results, s, hrun, ?_⟩
  rw [htried]
  exact hperm.length_eq.trans rfl

/-- One state of each neighbour. -/
def oneAndOne : List (List (NewBeliefState twoBlocks.width)) :=
  [[NewBeliefState.empty _], [NewBeliefState.empty _]]

/-- With the largest pack size every state is read twice. -/
theorem joinRun_packs_repeats :
    ¬ ∀ J : JoinerConfig, J.neighbors.length < 64 → ∀ (p : ℕ) (hp64 : p < 2 ^ 64), 1 ≤ p →
      ∀ Ls : List (List (NewBeliefState twoBlocks.width)), Ls.length = J.neighbors.length →
        JoinsAlike J p hp64 Ls := by
  intro h
  have hfit : FitsPacks (2 ^ 64 - 1) oneAndOne :=
    fits_of_joinsAlike (J := twoNeighbors) (by decide) (by decide) (by decide) rfl (by decide)
      (h twoNeighbors (by decide) _ (by decide) (by decide) oneAndOne rfl)
  revert hfit
  unfold FitsPacks
  decide

end StreamingJoiner

end Dmcs
