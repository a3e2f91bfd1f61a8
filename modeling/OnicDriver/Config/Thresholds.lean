import OnicDriver.C2h.Completion
import OnicDriver.Config.Setters
import Mathlib.Data.List.Perm.Basic
import Mathlib.Data.Finset.Max
import Mathlib.Data.Fintype.Card

/-!
# The order of the counter thresholds

What `qdma_sort_c2h_cntr_th_values` makes of any sixteen thresholds. A pass skips the index of the
pass before and everything below the least value found there, which it keeps in 8 bits. So equal
thresholds are chosen in turn for ever, and a threshold above 255 is chosen only as the first
candidate.
-/

namespace OnicDriver.Config

open Lib

/-! ## One pass -/

/-- The first of the candidates. -/
def First (cand : ℕ → Prop) (f : ℕ) : Prop := cand f ∧ ∀ i, cand i → f ≤ i

/-- What a pass chooses among the candidates: the last of the least ones, which is not above the low
byte of the first one; or the first one, with a threshold above 255 whose low byte is below all
candidates. -/
structure Chosen (th : ℕ → ℕ) (cand : ℕ → Prop) (r : ℕ) : Prop where
  mem : cand r
  how : (th r < 2 ^ 8 ∧ (∀ i, cand i → th r < th i ∨ th r = th i ∧ i ≤ r) ∧
      ∀ f, First cand f → th r ≤ th f % 2 ^ 8) ∨
    (First cand r ∧ 2 ^ 8 ≤ th r ∧ ∀ i, cand i → th r % 2 ^ 8 < th i)

/-- The second loop of a pass, over the candidates from the first one on. -/
theorem foldl_least (th : ℕ → ℕ) {l : List ℕ} (hl : l.Pairwise (· < ·)) (best : ℕ × ℕ)
    (hbest : best.1 < 2 ^ 8) :
    let res := l.foldl (fun best k => if best.1 ≥ th k then (th k % 2 ^ 8, k) else best) best
    (res = best ∧ ∀ k ∈ l, best.1 < th k) ∨
      (res.2 ∈ l ∧ res.1 = th res.2 ∧ th res.2 ≤ best.1 ∧
        ∀ k ∈ l, th res.2 < th k ∨ th res.2 = th k ∧ k ≤ res.2) := by
  induction l generalizing best with
  | nil => exact Or.inl ⟨rfl, by simp⟩
  | cons k l ih =>
    obtain ⟨hk, hl⟩ := List.pairwise_cons.mp hl
    rw [List.foldl_cons]
    by_cases hle : best.1 ≥ th k
    · rw [if_pos hle]
      have hmod : th k % 2 ^ 8 = th k := Nat.mod_eq_of_lt (hle.trans_lt hbest)
      right
      rcases ih hl (th k % 2 ^ 8, k) (Nat.mod_lt _ (by decide)) with
        ⟨heq, hall⟩ | ⟨hmem, hval, hres, hall⟩
      · rw [heq]
        refine ⟨List.mem_cons_self, hmod, hle, fun i hi => ?_⟩
        rcases List.mem_cons.mp hi with rfl | hi
        · exact Or.inr ⟨rfl, le_rfl⟩
        · exact Or.inl (hmod ▸ hall i hi)
      · have hres : th _ ≤ th k := hres.trans_eq hmod
        refine ⟨List.mem_cons_of_mem k hmem, hval, hres.trans hle, fun i hi => ?_⟩
        rcases List.mem_cons.mp hi with rfl | hi
        · exact (Nat.lt_or_eq_of_le hres).imp id fun heq => ⟨heq, (hk _ hmem).le⟩
        · exact hall i hi
    · rw [if_neg hle]
      rcases ih hl best hbest with ⟨heq, hall⟩ | ⟨hmem, hval, hres, hall⟩
      · refine Or.inl ⟨heq, fun i hi => ?_⟩
        rcases List.mem_cons.mp hi with rfl | hi
        · exact not_le.mp hle
        · exact hall i hi
      · refine Or.inr ⟨List.mem_cons_of_mem k hmem, hval, hres, fun i hi => ?_⟩
        rcases List.mem_cons.mp hi with rfl | hi
        · exact Or.inl (hres.trans_lt (not_le.mp hle))
        · exact hall i hi

/-- The entries that a pass looks at. -/
def Eligible (th : ℕ → ℕ) (refIdx : Option ℕ) (leastMax i : ℕ) : Prop :=
  i < 16 ∧ refIdx ≠ some i ∧ leastMax ≤ th i

/-- A pass with candidates chooses one, and keeps the low byte of its threshold. -/
theorem sortPass_chosen {th : ℕ → ℕ} {refIdx : Option ℕ} {leastMax : ℕ}
    (h : ∃ i, Eligible th refIdx leastMax i) (val idx : ℕ) :
    Chosen th (Eligible th refIdx leastMax) (sortPass th refIdx leastMax val idx).2 ∧
      (sortPass th refIdx leastMax val idx).1 =
        th (sortPass th refIdx leastMax val idx).2 % 2 ^ 8 := by
  have helig (i : ℕ) : (decide (refIdx ≠ some i) && !decide (th i < leastMax)) = true ↔
      refIdx ≠ some i ∧ leastMax ≤ th i := by simp
  cases hfind : (List.range QDMA_GLOBAL_CSR_ARRAY_SZ).find? fun i =>
      decide (refIdx ≠ some i) && !decide (th i < leastMax) with
  | none =>
    obtain ⟨i, hi, hrest⟩ := h
    exact absurd ((helig i).mpr hrest) (List.find?_eq_none.mp hfind i (List.mem_range.mpr hi))
  | some f =>
    obtain ⟨hf, hlt, hbefore⟩ := List.find?_range_eq_some.mp hfind
    have hfirst : First (Eligible th refIdx leastMax) f := by
      refine ⟨⟨List.mem_range.mp hlt, (helig f).mp hf⟩, fun i hi => ?_⟩
      by_contra hnot
      have := hbefore i (not_le.mp hnot)
      rw [(helig i).mpr hi.2] at this
      cases this
    have hmem (i : ℕ) : i ∈ ((List.range QDMA_GLOBAL_CSR_ARRAY_SZ).drop f).filter
        (fun i => decide (refIdx ≠ some i) && !decide (th i < leastMax)) ↔
        Eligible th refIdx leastMax i := by
      rw [List.mem_filter, helig, List.range_eq_range', List.drop_range', List.mem_range'_1]
      constructor
      · rintro ⟨⟨hfi, hi⟩, hrest⟩
        exact ⟨show i < 16 by simp only [QDMA_GLOBAL_CSR_ARRAY_SZ] at hi; omega, hrest⟩
      · rintro ⟨hi, hrest⟩
        have hfi := hfirst.2 i ⟨hi, hrest⟩
        exact ⟨by simp only [QDMA_GLOBAL_CSR_ARRAY_SZ]; omega, hrest⟩
    have hsorted : (((List.range QDMA_GLOBAL_CSR_ARRAY_SZ).drop f).filter
        fun i => decide (refIdx ≠ some i) && !decide (th i < leastMax)).Pairwise (· < ·) :=
      List.pairwise_lt_range.drop.filter _
    have hpass : sortPass th refIdx leastMax val idx =
        (((List.range QDMA_GLOBAL_CSR_ARRAY_SZ).drop f).filter
          fun i => decide (refIdx ≠ some i) && !decide (th i < leastMax)).foldl
          (fun best k => if best.1 ≥ th k then (th k % 2 ^ 8, k) else best) (th f % 2 ^ 8, f) := by
      simp only [sortPass, hfind]
    rw [hpass]
    rcases foldl_least th hsorted (th f % 2 ^ 8, f) (Nat.mod_lt _ (by decide)) with
      ⟨heq, hall⟩ | ⟨hin, hval, hle, hall⟩
    · rw [heq]
      have hlow : ∀ i, Eligible th refIdx leastMax i → th f % 2 ^ 8 < th i :=
        fun i hi => hall i ((hmem i).mpr hi)
      have hwide : 2 ^ 8 ≤ th f := by
        by_contra hnot
        have := hlow f hfirst.1
        omega
      exact ⟨⟨hfirst.1, Or.inr ⟨hfirst, hwide, hlow⟩⟩, rfl⟩
    · have hlow := hle.trans_lt (Nat.mod_lt (th f) (by decide : 2 ^ 8 > 0))
      refine ⟨⟨(hmem _).mp hin, Or.inl ⟨hlow, fun i hi => hall i ((hmem i).mpr hi), ?_⟩⟩, ?_⟩
      · intro g hg
        obtain rfl : g = f := le_antisymm (hg.2 f hfirst.1) (hfirst.2 g hg.1)
        exact hle
      · rw [hval, Nat.mod_eq_of_lt hlow]

/-! ## The passes -/

/-- The values that pass `j` starts from: the index to skip, the least value, and the value and the
index that stay when there is no candidate. -/
def passStart (th : ℕ → ℕ) : ℕ → Option ℕ × ℕ × ℕ × ℕ
  | 0 => (none, 0, th 0 % 2 ^ 8, 0)
  | j + 1 =>
    let (refIdx, leastMax, val, idx) := passStart th j
    let (val, idx) := sortPass th refIdx leastMax val idx
    (some idx, val, val, j + 1)

/-- The index that pass `j` chooses. -/
def chosenAt (th : ℕ → ℕ) (j : ℕ) : ℕ :=
  let (refIdx, leastMax, val, idx) := passStart th j
  (sortPass th refIdx leastMax val idx).2

theorem sortPasses_eq (th : ℕ → ℕ) (n j : ℕ) (sorted : ℕ → ℕ) :
    sortPasses th n j (passStart th j).1 (passStart th j).2.1 (passStart th j).2.2.1
        (passStart th j).2.2.2 sorted =
      fun k => if j ≤ k ∧ k < j + n then chosenAt th k else sorted k := by
  induction n generalizing j sorted with
  | zero =>
    funext k
    rw [if_neg (by omega)]
    rfl
  | succ n ih =>
    rw [sortPasses]
    refine (ih (j + 1) _).trans (funext fun k => ?_)
    by_cases hk : k = j
    · subst hk
      rw [if_neg (by omega), if_pos (by omega), Function.update_self]
      rfl
    · rw [Function.update_of_ne hk]
      exact if_congr (by omega) rfl rfl

/-- The table that the function leaves. -/
theorem qdmaSortC2hCntrThValues_eq (th sorted : ℕ → ℕ) {j : ℕ} (hj : j < 16) :
    qdmaSortC2hCntrThValues th sorted j = chosenAt th j := by
  have heq := congrFun (sortPasses_eq th QDMA_GLOBAL_CSR_ARRAY_SZ 0 sorted) j
  refine heq.trans (if_pos ⟨j.zero_le, ?_⟩)
  simp only [QDMA_GLOBAL_CSR_ARRAY_SZ]
  omega

/-- The candidates of pass `j`, where every pass before had some. -/
def Candidate (th : ℕ → ℕ) : ℕ → ℕ → Prop
  | 0, i => i < 16
  | j + 1, i => i < 16 ∧ i ≠ chosenAt th j ∧ th (chosenAt th j) % 2 ^ 8 ≤ th i

/-- What the passes choose, as long as there are candidates. -/
theorem chosenAt_chosen {th : ℕ → ℕ} {j : ℕ} (h : ∀ k ≤ j, ∃ i, Candidate th k i) :
    Chosen th (Candidate th j) (chosenAt th j) := by
  have hpass : ∀ k ≤ j, Eligible th (passStart th k).1 (passStart th k).2.1 = Candidate th k := by
    intro k hk
    induction k with
    | zero =>
      funext i
      simp [Eligible, Candidate, passStart]
    | succ k ih =>
      have hprev := ih (by omega)
      have hval := (sortPass_chosen (hprev ▸ h k (by omega)) (passStart th k).2.2.1
        (passStart th k).2.2.2).2
      funext i
      have hlow : (passStart th (k + 1)).2.1 = th (chosenAt th k) % 2 ^ 8 := hval
      have href : (passStart th (k + 1)).1 = some (chosenAt th k) := rfl
      rw [Eligible, Candidate, hlow, href]
      simp [eq_comm]
  have hchosen := (sortPass_chosen (hpass j le_rfl ▸ h j le_rfl) (passStart th j).2.2.1
    (passStart th j).2.2.2).1
  rw [hpass j le_rfl] at hchosen
  exact hchosen

/-! ## Sorted tables -/

/-- The table lists all indices, in the order of their thresholds. -/
structure SortsThresholds (th sorted : ℕ → ℕ) : Prop where
  perm : ((List.range 16).map sorted).Perm (List.range 16)
  mono : ∀ i j, i ≤ j → j < 16 → th (sorted i) ≤ th (sorted j)

/-- The same, said of the entries. -/
structure Ordered (th s : ℕ → ℕ) : Prop where
  lt : ∀ j < 16, s j < 16
  inj : ∀ i < 16, ∀ j < 16, s i = s j → i = j
  mono : ∀ i j, i ≤ j → j < 16 → th (s i) ≤ th (s j)

theorem Ordered.perm {th s : ℕ → ℕ} (h : Ordered th s) :
    ((List.range 16).map s).Perm (List.range 16) := by
  have hnodup : ((List.range 16).map s).Nodup :=
    List.nodup_range.map_on fun i hi j hj =>
      h.inj i (List.mem_range.mp hi) j (List.mem_range.mp hj)
  have hsub : (List.range 16).map s ⊆ List.range 16 := by
    intro i hi
    obtain ⟨j, hj, rfl⟩ := List.mem_map.mp hi
    exact List.mem_range.mpr (h.lt j (List.mem_range.mp hj))
  exact (List.subperm_of_subset hnodup hsub).perm_of_length_le (by simp)

theorem ordered_iff (th s : ℕ → ℕ) : Ordered th s ↔ SortsThresholds th s := by
  refine ⟨fun h => ⟨h.perm, h.mono⟩, fun h => ⟨fun j hj => ?_, fun i hi j hj heq => ?_, h.mono⟩⟩
  · exact List.mem_range.mp (h.perm.mem_iff.mp (List.mem_map_of_mem (List.mem_range.mpr hj)))
  · exact List.inj_on_of_nodup_map (h.perm.nodup_iff.mpr List.nodup_range)
      (List.mem_range.mpr hi) (List.mem_range.mpr hj) heq

theorem Ordered.surj {th s : ℕ → ℕ} (h : Ordered th s) {i : ℕ} (hi : i < 16) :
    ∃ j < 16, s j = i := by
  obtain ⟨j, hj, heq⟩ := List.mem_map.mp (h.perm.mem_iff.mpr (List.mem_range.mpr hi))
  exact ⟨j, List.mem_range.mp hj, heq⟩

/-- No two thresholds below 256 are equal. -/
def LowDistinct (th : ℕ → ℕ) : Prop :=
  ∀ i < 16, ∀ j < 16, th i < 2 ^ 8 → th i = th j → i = j

/-- The greatest of the thresholds below 256 occurs twice, and no other one does. -/
structure TopTwice (th : ℕ → ℕ) (a b : ℕ) : Prop where
  lt : a < b
  bound : b < 16
  low : th a < 2 ^ 8
  eq : th a = th b
  top : ∀ i < 16, th i < 2 ^ 8 → th i ≤ th a
  only : ∀ i < 16, ∀ j < 16, th i < 2 ^ 8 → th i = th j → i < j → i = a ∧ j = b

/-- The greatest of the thresholds below 256 stands before `p`, or is not above the low byte of the
threshold there. -/
def TopBefore (th : ℕ → ℕ) (p : ℕ) : Prop :=
  ∀ m < 16, th m < 2 ^ 8 → (∀ i < 16, th i < 2 ^ 8 → th i ≤ th m) → m < p ∨ th m ≤ th p % 2 ^ 8

/-- The thresholds above 255 are those at `p` and `q`. -/
structure WideAt (th : ℕ → ℕ) (p q : ℕ) : Prop where
  lt : p < 16 ∧ q < 16
  wide : 2 ^ 8 ≤ th p ∧ 2 ^ 8 ≤ th q
  only : ∀ i < 16, 2 ^ 8 ≤ th i → i = p ∨ i = q

/-- The tables that are sorted. With no threshold above 255, all are distinct, or the greatest one
occurs twice. With one or two above, their low bytes have to fit. -/
inductive Sortable (th : ℕ → ℕ) : Prop
  | low (hlow : ∀ i < 16, th i < 2 ^ 8) (hdistinct : LowDistinct th ∨ ∃ a b, TopTwice th a b)
  | one (p : ℕ) (hwide : WideAt th p p) (hdistinct : LowDistinct th) (htop : TopBefore th p)
  | between (p a b : ℕ) (hwide : WideAt th p p) (htwice : TopTwice th a b)
      (hbetween : a < p ∧ p < b) (hlow : th p % 2 ^ 8 < th a)
  | two (p q : ℕ) (hlt : p < q) (hwide : WideAt th p q) (hle : th p ≤ th q)
      (hdistinct : LowDistinct th) (htop : TopBefore th p)
      (hafter : ∀ i < 16, th i < 2 ^ 8 → th p % 2 ^ 8 ≤ th i → q < i ∧ th q % 2 ^ 8 < th i)

/-! ## Sorted tables are sortable -/

section Necessary

variable {th : ℕ → ℕ}

theorem First.unique {cand : ℕ → Prop} {f g : ℕ} (hf : First cand f) (hg : First cand g) : f = g :=
  le_antisymm (hf.2 g hg.1) (hg.2 f hf.1)

theorem Chosen.of_low {cand : ℕ → Prop} {r : ℕ} (h : Chosen th cand r) (hr : th r < 2 ^ 8) :
    (∀ i, cand i → th r < th i ∨ th r = th i ∧ i ≤ r) ∧
      ∀ f, First cand f → th r ≤ th f % 2 ^ 8 := by
  rcases h.how with hlow | hwide
  · exact hlow.2
  · omega

theorem Chosen.of_wide {cand : ℕ → Prop} {r : ℕ} (h : Chosen th cand r) (hr : 2 ^ 8 ≤ th r) :
    First cand r ∧ ∀ i, cand i → th r % 2 ^ 8 < th i := by
  rcases h.how with hlow | hwide
  · omega
  · exact ⟨hwide.1, hwide.2.2⟩

/-- An entry that has not been chosen yet is a candidate. -/
theorem Ordered.candidate (h : Ordered th (chosenAt th)) {j k : ℕ} (hjk : j ≤ k) (hk : k < 16) :
    Candidate th j (chosenAt th k) := by
  cases j with
  | zero => exact h.lt k hk
  | succ j =>
    refine ⟨h.lt k hk, fun heq => ?_, (Nat.mod_le _ _).trans (h.mono j k (by omega) hk)⟩
    have := h.inj k hk j (by omega) heq
    omega

theorem Ordered.chosen (h : Ordered th (chosenAt th)) {j : ℕ} (hj : j < 16) :
    Chosen th (Candidate th j) (chosenAt th j) :=
  chosenAt_chosen fun _ hk => ⟨chosenAt th j, h.candidate hk hj⟩

/-- An entry above 255 is a candidate unless it was chosen just before. -/
theorem candidate_of_wide {i : ℕ} (hi : i < 16) (hwide : 2 ^ 8 ≤ th i) {j : ℕ}
    (hne : i ≠ chosenAt th j) : Candidate th (j + 1) i :=
  ⟨hi, hne, (Nat.mod_lt _ (by decide)).le.trans hwide⟩

/-- Only the last two entries can be above 255. -/
theorem Ordered.low (h : Ordered th (chosenAt th)) {j : ℕ} (hj : j < 14) :
    th (chosenAt th j) < 2 ^ 8 := by
  by_contra hnot
  have hwide := not_lt.mp hnot
  have hwide' : 2 ^ 8 ≤ th (chosenAt th (j + 2)) :=
    hwide.trans (h.mono j (j + 2) (by omega) (by omega))
  have hne : chosenAt th j ≠ chosenAt th (j + 1) := fun heq => by
    have := h.inj j (by omega) (j + 1) (by omega) heq
    omega
  have hle := ((h.chosen (by omega)).of_wide hwide').1.2 _
    (candidate_of_wide (h.lt j (by omega)) hwide hne)
  have hge := ((h.chosen (by omega : j < 16)).of_wide hwide).1.2 _
    (h.candidate (by omega : j ≤ j + 2) (by omega))
  have := h.inj j (by omega) (j + 2) (by omega) (le_antisymm hge hle)
  omega

/-- After two equal thresholds comes one above 255. -/
theorem Ordered.wide_of_eq (h : Ordered th (chosenAt th)) {j : ℕ} (hj : j + 2 < 16)
    (heq : th (chosenAt th j) = th (chosenAt th (j + 1))) :
    2 ^ 8 ≤ th (chosenAt th (j + 2)) := by
  by_contra hnot
  have hlow := not_le.mp hnot
  have hmono := h.mono (j + 1) (j + 2) (by omega) hj
  have hlow1 : th (chosenAt th (j + 1)) < 2 ^ 8 := by omega
  have hne : chosenAt th j ≠ chosenAt th (j + 1) := fun heq => by
    have := h.inj j (by omega) (j + 1) (by omega) heq
    omega
  have hback : Candidate th (j + 2) (chosenAt th j) :=
    ⟨h.lt j (by omega), hne, (Nat.mod_le _ _).trans heq.ge⟩
  have h2 := ((h.chosen hj).of_low hlow).1 _ hback
  have h1 := ((h.chosen (by omega : j + 1 < 16)).of_low hlow1).1 _
    (h.candidate (by omega : j + 1 ≤ j + 2) hj)
  have h0 := ((h.chosen (by omega : j < 16)).of_low (by omega)).1 _
    (h.candidate (by omega : j ≤ j + 1) (by omega))
  omega

/-- Equal thresholds below 256 are chosen one after the other, and what comes next is above. -/
theorem Ordered.adjacent (h : Ordered th (chosenAt th)) {k l : ℕ} (hkl : k < l) (hl : l < 16)
    (heq : th (chosenAt th k) = th (chosenAt th l)) (hlow : th (chosenAt th l) < 2 ^ 8) :
    l = k + 1 ∧ (k + 2 < 16 → 2 ^ 8 ≤ th (chosenAt th (k + 2))) := by
  have hnext : th (chosenAt th k) = th (chosenAt th (k + 1)) := by
    have := h.mono k (k + 1) (by omega) (by omega)
    have := h.mono (k + 1) l (by omega) hl
    omega
  have hwide : k + 2 < 16 → 2 ^ 8 ≤ th (chosenAt th (k + 2)) := fun hk => h.wide_of_eq hk hnext
  refine ⟨?_, hwide⟩
  by_contra hne
  have hbelow := h.mono (k + 2) l (by omega) hl
  have := hwide (by omega)
  omega

theorem Ordered.lowDistinct (h : Ordered th (chosenAt th))
    (hno : ∀ k, k + 1 < 16 → th (chosenAt th (k + 1)) < 2 ^ 8 →
      th (chosenAt th k) ≠ th (chosenAt th (k + 1))) : LowDistinct th := by
  intro i hi j hj hlow heq
  obtain ⟨k, hk, rfl⟩ := h.surj hi
  obtain ⟨l, hl, rfl⟩ := h.surj hj
  rcases lt_trichotomy k l with hkl | rfl | hlk
  · obtain ⟨rfl, -⟩ := h.adjacent hkl hl heq (heq ▸ hlow)
    exact absurd heq (hno k hl (heq ▸ hlow))
  · rfl
  · obtain ⟨rfl, -⟩ := h.adjacent hlk hk heq.symm hlow
    exact absurd heq.symm (hno l hk hlow)

/-- Two equal thresholds after which all are above 255. -/
theorem Ordered.topTwice (h : Ordered th (chosenAt th)) {k : ℕ} (hk : k + 1 < 16)
    (heq : th (chosenAt th k) = th (chosenAt th (k + 1)))
    (hlow : th (chosenAt th (k + 1)) < 2 ^ 8)
    (hlast : ∀ l < 16, th (chosenAt th l) < 2 ^ 8 → l ≤ k + 1) :
    TopTwice th (chosenAt th (k + 1)) (chosenAt th k) := by
  have hlt : chosenAt th (k + 1) < chosenAt th k := by
    have hle := ((h.chosen (by omega : k < 16)).of_low (by omega)).1 _
      (h.candidate (by omega : k ≤ k + 1) hk)
    have hne : chosenAt th (k + 1) ≠ chosenAt th k := fun hsame => by
      have := h.inj (k + 1) hk k (by omega) hsame
      omega
    omega
  have honly : ∀ m l, m < l → l < 16 → th (chosenAt th m) = th (chosenAt th l) →
      th (chosenAt th l) < 2 ^ 8 → m = k ∧ l = k + 1 := by
    intro m l hml hl hsame hlow'
    obtain ⟨rfl, hwide⟩ := h.adjacent hml hl hsame hlow'
    have := hlast (m + 1) hl hlow'
    by_contra hnot
    have hmk : m + 2 ≤ k + 1 := by omega
    have := h.mono (m + 2) (k + 1) hmk hk
    have := hwide (by omega)
    omega
  refine ⟨hlt, h.lt k (by omega), hlow, heq.symm, fun i hi hi' => ?_,
    fun i hi j hj hi' hsame hij => ?_⟩
  · obtain ⟨l, hl, rfl⟩ := h.surj hi
    exact h.mono l (k + 1) (hlast l hl hi') hk
  · obtain ⟨m, hm, rfl⟩ := h.surj hi
    obtain ⟨l, hl, rfl⟩ := h.surj hj
    rcases lt_trichotomy m l with hml | rfl | hlm
    · obtain ⟨rfl, rfl⟩ := honly m l hml hl hsame (hsame ▸ hi')
      omega
    · omega
    · obtain ⟨rfl, rfl⟩ := honly l m hlm hm hsame.symm hi'
      exact ⟨rfl, rfl⟩

/-- The entry after two equal thresholds stands between them, and its low byte is below them. -/
theorem Ordered.between (h : Ordered th (chosenAt th)) {k : ℕ} (hk : k + 2 < 16)
    (heq : th (chosenAt th k) = th (chosenAt th (k + 1)))
    (hlow : th (chosenAt th (k + 1)) < 2 ^ 8) :
    (chosenAt th (k + 1) < chosenAt th (k + 2) ∧ chosenAt th (k + 2) < chosenAt th k) ∧
      th (chosenAt th (k + 2)) % 2 ^ 8 < th (chosenAt th (k + 1)) := by
  have hne : ∀ i j, i < j → j < 16 → chosenAt th i ≠ chosenAt th j := fun i j hij hj hsame => by
    have := h.inj i (by omega) j hj hsame
    omega
  obtain ⟨hfirst, hbyte⟩ := (h.chosen hk).of_wide (h.wide_of_eq hk heq)
  have hback : Candidate th (k + 2) (chosenAt th k) :=
    ⟨h.lt k (by omega), hne k (k + 1) (by omega) (by omega), (Nat.mod_le _ _).trans heq.ge⟩
  have hpb := hfirst.2 _ hback
  have hpb' := hne k (k + 2) (by omega) hk
  have hpa' := hne (k + 1) (k + 2) (by omega) hk
  refine ⟨⟨?_, by omega⟩, heq ▸ hbyte _ hback⟩
  by_contra hnot
  have hfirst' : First (Candidate th (k + 1)) (chosenAt th (k + 2)) := by
    refine ⟨h.candidate (by omega) hk, fun i hi => ?_⟩
    by_cases hia : i = chosenAt th (k + 1)
    · omega
    · refine hfirst.2 i ⟨hi.1, hia, ?_⟩
      rw [← heq]
      exact hi.2.2
  have := ((h.chosen (by omega : k + 1 < 16)).of_low hlow).2 _ hfirst'
  have := hbyte _ hback
  omega

/-- With two entries above 255, the others are distinct. -/
theorem Ordered.ne_of_two (h : Ordered th (chosenAt th)) (hwide : 2 ^ 8 ≤ th (chosenAt th 14))
    (hlow : th (chosenAt th 13) < 2 ^ 8) : th (chosenAt th 12) ≠ th (chosenAt th 13) := by
  intro heq
  obtain ⟨⟨hap, -⟩, hbyte⟩ := h.between (by decide : 12 + 2 < 16) heq hlow
  have hwide' := hwide.trans (h.mono 14 15 (by decide) (by decide))
  have hne : chosenAt th 13 ≠ chosenAt th 14 := hap.ne
  have hqa := ((h.chosen (by decide : 15 < 16)).of_wide hwide').1.2 _
    ⟨h.lt 13 (by decide), hne, hbyte.le⟩
  have hpq := ((h.chosen (by decide : 14 < 16)).of_wide hwide).1.2 _
    (h.candidate (by decide : 14 ≤ 15) (by decide))
  simp only [Nat.reduceAdd] at hap
  omega

/-- The greatest threshold below 256 is chosen before the first one above. -/
theorem Ordered.topBefore (h : Ordered th (chosenAt th)) {k : ℕ} (hk : k + 2 < 16)
    (hlow : th (chosenAt th (k + 1)) < 2 ^ 8) (hwide : 2 ^ 8 ≤ th (chosenAt th (k + 2)))
    (hdistinct : LowDistinct th) : TopBefore th (chosenAt th (k + 2)) := by
  intro m hm hmlow htop
  have hmlast : m = chosenAt th (k + 1) := by
    obtain ⟨l, hl, rfl⟩ := h.surj hm
    have hlk : l ≤ k + 1 := by
      by_contra hnot
      have := h.mono (k + 2) l (by omega) hl
      omega
    have hle := h.mono l (k + 1) hlk (by omega)
    exact hdistinct _ hm _ (h.lt _ (by omega)) hmlow
      (le_antisymm hle (htop _ (h.lt _ (by omega)) hlow))
  subst hmlast
  by_contra hnot
  obtain ⟨hfirst, -⟩ := (h.chosen hk).of_wide hwide
  have hfirst' : First (Candidate th (k + 1)) (chosenAt th (k + 2)) := by
    refine ⟨h.candidate (by omega) hk, fun i hi => ?_⟩
    by_cases hi' : th i < 2 ^ 8
    · obtain ⟨l, hl, rfl⟩ := h.surj hi.1
      have hlk : l ≤ k + 1 := by
        by_contra hnot
        have := h.mono (k + 2) l (by omega) hl
        omega
      rcases Nat.lt_or_ge l (k + 1) with hlt | hge
      · have hle := h.mono l k (by omega) (by omega)
        have hprev := h.mono k (k + 1) (by omega) (by omega)
        have hge := hi.2.2
        rw [Nat.mod_eq_of_lt (by omega)] at hge
        exact absurd (hdistinct _ hi.1 _ (h.lt k (by omega)) hi' (le_antisymm hle hge)) hi.2.1
      · obtain rfl : l = k + 1 := by omega
        omega
    · refine hfirst.2 i (candidate_of_wide hi.1 (not_lt.mp hi') fun hsame => ?_)
      rw [hsame] at hi'
      exact hi' hlow
  have := ((h.chosen (by omega : k + 1 < 16)).of_low hlow).2 _ hfirst'
  omega

/-- A table that is sorted is one of the sortable ones. -/
theorem Ordered.sortable (h : Ordered th (chosenAt th)) : Sortable th := by
  by_cases h15 : th (chosenAt th 15) < 2 ^ 8
  · have hall : ∀ l < 16, th (chosenAt th l) < 2 ^ 8 := fun l hl =>
      (h.mono l 15 (by omega) (by decide)).trans_lt h15
    refine .low (fun i hi => ?_) ?_
    · obtain ⟨l, hl, rfl⟩ := h.surj hi
      exact hall l hl
    · by_cases heq : th (chosenAt th 14) = th (chosenAt th 15)
      · exact Or.inr ⟨_, _, h.topTwice (by decide) heq h15 fun l hl _ => by omega⟩
      · refine Or.inl (h.lowDistinct fun k hk _ hsame => ?_)
        by_cases hk14 : k = 14
        · subst hk14
          exact heq hsame
        · have := h.wide_of_eq (by omega) hsame
          have := hall (k + 2) (by omega)
          omega
  · have hwide := not_lt.mp h15
    by_cases h14 : th (chosenAt th 14) < 2 ^ 8
    · have hlast : ∀ l < 16, th (chosenAt th l) < 2 ^ 8 → l ≤ 13 + 1 := by
        intro l hl hlow
        by_contra hnot
        obtain rfl : l = 15 := by omega
        omega
      have hone : WideAt th (chosenAt th 15) (chosenAt th 15) := by
        refine ⟨⟨h.lt _ (by decide), h.lt _ (by decide)⟩, ⟨hwide, hwide⟩, fun i hi hiw => ?_⟩
        obtain ⟨l, hl, rfl⟩ := h.surj hi
        by_cases hl15 : l = 15
        · exact Or.inl (congrArg _ hl15)
        · have := h.mono l 14 (by omega) (by decide)
          omega
      by_cases heq : th (chosenAt th 13) = th (chosenAt th 14)
      · obtain ⟨hbetween, hbyte⟩ := h.between (by decide : 13 + 2 < 16) heq h14
        exact .between _ _ _ hone (h.topTwice (by decide) heq h14 hlast) hbetween hbyte
      · have hdistinct : LowDistinct th := h.lowDistinct fun k hk hlow hsame => by
          have := hlast (k + 1) hk hlow
          have hw := h.wide_of_eq (by omega) hsame
          by_cases hk13 : k = 13
          · subst hk13
            exact heq hsame
          · have := h.mono (k + 2) 14 (by omega) (by decide)
            omega
        exact .one _ hone hdistinct (h.topBefore (by decide : 13 + 2 < 16) h14 hwide hdistinct)
    · have hwide' := not_lt.mp h14
      have h13 := h.low (by decide : 13 < 14)
      have htwo : WideAt th (chosenAt th 14) (chosenAt th 15) := by
        refine ⟨⟨h.lt _ (by decide), h.lt _ (by decide)⟩, ⟨hwide', hwide⟩, fun i hi hiw => ?_⟩
        obtain ⟨l, hl, rfl⟩ := h.surj hi
        by_cases hl13 : l ≤ 13
        · have := h.mono l 13 hl13 (by decide)
          omega
        · rcases (by omega : l = 14 ∨ l = 15) with rfl | rfl
          · exact Or.inl rfl
          · exact Or.inr rfl
      have hdistinct : LowDistinct th := h.lowDistinct fun k hk hlow hsame => by
        by_cases hk12 : k = 12
        · subst hk12
          exact h.ne_of_two hwide' h13 hsame
        · rcases Nat.lt_or_ge k 12 with hlt | hge
          · have := h.wide_of_eq (by omega) hsame
            have := h.low (by omega : k + 2 < 14)
            omega
          · have := h.mono 14 (k + 1) (by omega) hk
            omega
      have hne : chosenAt th 14 ≠ chosenAt th 15 := fun hsame =>
        absurd (h.inj 14 (by decide) 15 (by decide) hsame) (by decide)
      have hle := ((h.chosen (by decide : 14 < 16)).of_wide hwide').1.2 _
        (h.candidate (by decide : 14 ≤ 15) (by decide))
      obtain ⟨hfirst, hbyte⟩ := (h.chosen (by decide : 15 < 16)).of_wide hwide
      refine .two _ _ (by omega) htwo (h.mono 14 15 (by decide) (by decide)) hdistinct
        (h.topBefore (by decide : 12 + 2 < 16) h13 hwide' hdistinct) fun i hi hlow hge => ?_
      have hcand : Candidate th 15 i := by
        refine ⟨hi, fun hsame => ?_, hge⟩
        rw [hsame] at hlow
        exact absurd hlow hwide'.not_gt
      have hqi := hfirst.2 i hcand
      have hqi' : chosenAt th 15 ≠ i := fun hsame => by
        rw [← hsame] at hlow
        omega
      exact ⟨by omega, hbyte i hcand⟩

end Necessary

/-! ## Sortable tables are sorted -/

section Sufficient

variable {th : ℕ → ℕ}

/-- The first passes have not chosen the entry. -/
def Unpicked (th : ℕ → ℕ) (j i : ℕ) : Prop := i < 16 ∧ ∀ k < j, chosenAt th k ≠ i

/-- The first passes have chosen distinct entries in order, and the rest is not below them. -/
structure SortedUpTo (th : ℕ → ℕ) (j : ℕ) : Prop where
  lt : ∀ k < j, chosenAt th k < 16
  inj : ∀ k l, k < l → l < j → chosenAt th k ≠ chosenAt th l
  mono : ∀ k l, k ≤ l → l < j → th (chosenAt th k) ≤ th (chosenAt th l)
  lower : ∀ i, Unpicked th j i → ∀ k < j, th (chosenAt th k) ≤ th i

theorem Unpicked.of_le {i j k : ℕ} (h : Unpicked th j i) (hkj : k ≤ j) : Unpicked th k i :=
  ⟨h.1, fun l hl => h.2 l (by omega)⟩

/-- Fewer than sixteen passes leave an entry. -/
theorem exists_unpicked {j : ℕ} (hj : j < 16) : ∃ i, Unpicked th j i := by
  have hcard : ((Finset.range j).image (chosenAt th)).card < (Finset.range 16).card := by
    refine Finset.card_image_le.trans_lt ?_
    rw [Finset.card_range, Finset.card_range]
    exact hj
  obtain ⟨i, hi, hnot⟩ := Finset.exists_mem_notMem_of_card_lt_card hcard
  exact ⟨i, Finset.mem_range.mp hi, fun k hk heq =>
    hnot (Finset.mem_image.mpr ⟨k, Finset.mem_range.mpr hk, heq⟩)⟩

theorem SortedUpTo.zero : SortedUpTo th 0 := by
  refine ⟨?_, ?_, ?_, ?_⟩ <;> intros <;> omega

theorem SortedUpTo.of_le {j k : ℕ} (h : SortedUpTo th j) (hkj : k ≤ j) : SortedUpTo th k where
  lt l hl := h.lt l (by omega)
  inj l m hlm hm := h.inj l m hlm (by omega)
  mono l m hlm hm := h.mono l m hlm (by omega)
  lower i hi l hl := by
    by_cases hpicked : Unpicked th j i
    · exact h.lower i hpicked l (by omega)
    · obtain ⟨m, hm, rfl⟩ : ∃ m < j, chosenAt th m = i := by
        by_contra hnone
        exact hpicked ⟨hi.1, fun m hm heq => hnone ⟨m, hm, heq⟩⟩
      have hkm : k ≤ m := not_lt.mp fun hmk => hi.2 m hmk rfl
      exact h.mono l m (by omega) hm

/-- What has not been chosen is a candidate. -/
theorem SortedUpTo.candidate {i j : ℕ} (h : SortedUpTo th j) (hi : Unpicked th j i) :
    Candidate th j i := by
  cases j with
  | zero => exact hi.1
  | succ j =>
    exact ⟨hi.1, (hi.2 j (by omega)).symm, (Nat.mod_le _ _).trans (h.lower i hi j (by omega))⟩

theorem SortedUpTo.chosen {j : ℕ} (h : SortedUpTo th j) (hj : j < 16) :
    Chosen th (Candidate th j) (chosenAt th j) := by
  refine chosenAt_chosen fun k hk => ?_
  obtain ⟨i, hi⟩ := @exists_unpicked th k (by omega)
  exact ⟨i, (h.of_le hk).candidate hi⟩

/-- A pass that chooses a least entry of the rest. -/
theorem SortedUpTo.succ {j : ℕ} (h : SortedUpTo th j) (hnew : Unpicked th j (chosenAt th j))
    (hleast : ∀ i, Unpicked th j i → th (chosenAt th j) ≤ th i) : SortedUpTo th (j + 1) where
  lt k hk := by
    rcases Nat.lt_or_eq_of_le (Nat.le_of_lt_succ hk) with hk | rfl
    · exact h.lt k hk
    · exact hnew.1
  inj k l hkl hl := by
    rcases Nat.lt_or_eq_of_le (Nat.le_of_lt_succ hl) with hl | rfl
    · exact h.inj k l hkl hl
    · exact hnew.2 k hkl
  mono k l hkl hl := by
    rcases Nat.lt_or_eq_of_le (Nat.le_of_lt_succ hl) with hl | rfl
    · exact h.mono k l hkl hl
    · rcases Nat.lt_or_eq_of_le hkl with hkl | rfl
      · exact h.lower _ hnew k hkl
      · exact le_rfl
  lower i hi k hk := by
    rcases Nat.lt_or_eq_of_le (Nat.le_of_lt_succ hk) with hk | rfl
    · exact h.lower i (hi.of_le (by omega)) k hk
    · exact hleast i (hi.of_le (by omega))

theorem SortedUpTo.ordered (h : SortedUpTo th 16) : Ordered th (chosenAt th) where
  lt := h.lt
  inj i hi j hj heq := by
    by_contra hne
    rcases Nat.lt_or_gt_of_ne hne with hij | hji
    · exact h.inj i j hij hj heq
    · exact h.inj j i hji hi heq.symm
  mono := h.mono

/-- The pass before chose an entry below 256 that equals none of those before it. -/
def LastNew (th : ℕ → ℕ) (j : ℕ) : Prop :=
  ∀ k, k + 1 = j → th (chosenAt th k) < 2 ^ 8 ∧
    ∀ l < k, th (chosenAt th l) ≠ th (chosenAt th k)

/-- Then the candidates are what has not been chosen. -/
theorem SortedUpTo.unpicked {i j : ℕ} (h : SortedUpTo th j) (hnew : LastNew th j)
    (hi : Candidate th j i) : Unpicked th j i := by
  cases j with
  | zero => exact ⟨hi, fun k hk => absurd hk k.not_lt_zero⟩
  | succ j =>
    obtain ⟨hlow, hne⟩ := hnew j rfl
    refine ⟨hi.1, fun k hk heq => ?_⟩
    have hge := hi.2.2
    rw [Nat.mod_eq_of_lt hlow, ← heq] at hge
    rcases Nat.lt_or_eq_of_le (Nat.le_of_lt_succ hk) with hlt | rfl
    · exact hne k hlt (le_antisymm (h.mono k j hlt.le (by omega)) hge)
    · exact hi.2.1 heq.symm

/-- A pass that chooses an entry below 256 among those. -/
theorem SortedUpTo.succ_low {j : ℕ} (h : SortedUpTo th j) (hj : j < 16) (hnew : LastNew th j)
    (hlow : th (chosenAt th j) < 2 ^ 8) : SortedUpTo th (j + 1) := by
  have hchosen := h.chosen hj
  refine h.succ (h.unpicked hnew hchosen.mem) fun i hi => ?_
  rcases (hchosen.of_low hlow).1 i (h.candidate hi) with hlt | ⟨heq, -⟩
  · exact hlt.le
  · exact heq.le

/-- When everything left is above 255, the pass is right if it takes the least of it. -/
theorem SortedUpTo.succ_wide {j : ℕ} (h : SortedUpTo th j) {p : ℕ} (hp : chosenAt th j = p)
    (hunpicked : Unpicked th j p) (hleft : ∀ i, Unpicked th j i → th i < 2 ^ 8 → False)
    (hleast : ∀ i < 16, 2 ^ 8 ≤ th i → th p ≤ th i) : SortedUpTo th (j + 1) := by
  subst hp
  exact h.succ hunpicked fun i hi => hleast i hi.1 (not_lt.mp fun hlow => hleft i hi hlow)

theorem SortedUpTo.lastNew {j : ℕ} (h : SortedUpTo th j) (hdistinct : LowDistinct th)
    (hlow : ∀ k, k + 1 = j → th (chosenAt th k) < 2 ^ 8) : LastNew th j := by
  rintro k rfl
  refine ⟨hlow k rfl, fun l hl heq => ?_⟩
  exact h.inj l k hl (by omega)
    (hdistinct _ (h.lt l (by omega)) _ (h.lt k (by omega)) (heq ▸ hlow k rfl) heq)

/-- An entry above 255 is chosen only after those below. -/
theorem SortedUpTo.left_wide {j : ℕ} (h : SortedUpTo th j) (hj : j < 16)
    (hdistinct : LowDistinct th) (hwide : 2 ^ 8 ≤ th (chosenAt th j))
    (htop : TopBefore th (chosenAt th j)) :
    ∀ i, Unpicked th j i → th i < 2 ^ 8 → False := by
  intro i hi hlow
  obtain ⟨m, hm, hmax⟩ := Finset.exists_max_image
    ((Finset.range 16).filter fun i => th i < 2 ^ 8) th
    ⟨i, Finset.mem_filter.mpr ⟨Finset.mem_range.mpr hi.1, hlow⟩⟩
  obtain ⟨hm16, hmlow⟩ := Finset.mem_filter.mp hm
  have hm16 := Finset.mem_range.mp hm16
  have hmax : ∀ i < 16, th i < 2 ^ 8 → th i ≤ th m := fun i hi hlow =>
    hmax i (Finset.mem_filter.mpr ⟨Finset.mem_range.mpr hi, hlow⟩)
  have hunpicked : Unpicked th j m := by
    refine ⟨hm16, fun k hk heq => ?_⟩
    have hle := h.lower i hi k hk
    rw [heq] at hle
    have hsame := hdistinct m hm16 i hi.1 hmlow (le_antisymm hle (hmax i hi.1 hlow))
    exact hi.2 k hk (heq.trans hsame)
  obtain ⟨hfirst, hbyte⟩ := (h.chosen hj).of_wide hwide
  have hle := hfirst.2 m (h.candidate hunpicked)
  have hlt := hbyte m (h.candidate hunpicked)
  rcases htop m hm16 hmlow hmax with hbefore | hbelow
  · omega
  · omega

/-- After an entry above 255 has been chosen, nothing below is left. -/
theorem SortedUpTo.left_wide_of {j k : ℕ} (h : SortedUpTo th j) (hk : k < j)
    (hwide : 2 ^ 8 ≤ th (chosenAt th k)) : ∀ i, Unpicked th j i → 2 ^ 8 ≤ th i :=
  fun i hi => hwide.trans (h.lower i hi k hk)

theorem TopTwice.eq_or {a b i : ℕ} (h : TopTwice th a b) (hi : i < 16) (heq : th i = th a) :
    i = a ∨ i = b := by
  rcases lt_trichotomy i a with hlt | rfl | hgt
  · have hpair := h.only i hi a (h.lt.trans h.bound) (heq ▸ h.low) heq hlt
    exact Or.inl hpair.1
  · exact Or.inl rfl
  · have hpair := h.only a (h.lt.trans h.bound) i hi h.low heq.symm hgt
    exact Or.inr hpair.2

/-- The later one of two equal thresholds is chosen first. -/
theorem SortedUpTo.not_first {a b j k : ℕ} (h : SortedUpTo th j) (hj : j ≤ 16)
    (htwice : TopTwice th a b) (hk : k < j) (hka : chosenAt th k = a)
    (hb : Unpicked th k b) : False := by
  have hprev := h.of_le hk.le
  have hlow : th (chosenAt th k) < 2 ^ 8 := hka ▸ htwice.low
  have hle := ((hprev.chosen (by omega)).of_low hlow).1 b (hprev.candidate hb)
  rw [hka] at hle
  have := htwice.lt
  have := htwice.eq
  omega

/-- When both have been chosen, nothing below 256 is left. -/
theorem SortedUpTo.after_twice {a b j k : ℕ} (h : SortedUpTo th (j + 1)) (hj : j < 16)
    (htwice : TopTwice th a b) (hlow : th (chosenAt th j) < 2 ^ 8) (hk : k < j)
    (heq : th (chosenAt th k) = th (chosenAt th j)) :
    chosenAt th j = a ∧ ∀ i, Unpicked th (j + 1) i → th i < 2 ^ 8 → False := by
  have hlt := h.lt k (by omega)
  have hlt' := h.lt j (by omega)
  have htop : th (chosenAt th k) = th a ∧ chosenAt th j = a ∧ chosenAt th k = b := by
    rcases Nat.lt_or_gt_of_ne (h.inj k j hk (by omega)) with hkj | hjk
    · obtain ⟨hka, hjb⟩ := htwice.only _ hlt _ hlt' (heq ▸ hlow) heq hkj
      refine absurd ⟨?_, ?_⟩ fun hb => h.not_first (by omega) htwice (by omega) hka hb
      · exact htwice.bound
      · intro l hl heq'
        exact h.inj l j (by omega) (by omega) (heq'.trans hjb.symm)
    · obtain ⟨hja, hkb⟩ := htwice.only _ hlt' _ hlt hlow heq.symm hjk
      exact ⟨by rw [heq, hja], hja, hkb⟩
  refine ⟨htop.2.1, fun i hi hilow => ?_⟩
  have hge := h.lower i hi j (by omega)
  have hle := htwice.top i hi.1 hilow
  rcases htwice.eq_or hi.1 (by omega) with rfl | rfl
  · exact hi.2 j (by omega) htop.2.1
  · exact hi.2 k (by omega) htop.2.2

/-- One pass over a sortable table. -/
theorem SortedUpTo.step (hsort : Sortable th) {j : ℕ} (h : SortedUpTo th j) (hj : j < 16) :
    SortedUpTo th (j + 1) := by
  have hchosen := h.chosen hj
  obtain ⟨i₀, hi₀⟩ := @exists_unpicked th j hj
  -- the entry chosen before is below 256, unless everything left is above 255
  have hlast : ∀ p, (∀ i < 16, 2 ^ 8 ≤ th i → i = p) → ∀ k, k + 1 = j →
      th (chosenAt th k) < 2 ^ 8 := by
    rintro p honly k rfl
    by_contra hnot
    have hwide := not_lt.mp hnot
    have hkp := honly _ (h.lt k (by omega)) hwide
    have hip := honly _ hi₀.1 (h.left_wide_of (by omega) hwide _ hi₀)
    exact hi₀.2 k (by omega) (hkp.trans hip.symm)
  cases hsort with
  | low hlow hdistinct =>
    refine h.succ_low hj ?_ (hlow _ ?_)
    · rcases hdistinct with hdistinct | ⟨a, b, htwice⟩
      · exact h.lastNew hdistinct fun k hk => hlow _ (h.lt k (by omega))
      · rintro k rfl
        refine ⟨hlow _ (h.lt k (by omega)), fun l hl heq => ?_⟩
        exact (h.after_twice (by omega) htwice (hlow _ (h.lt k (by omega))) hl heq).2 i₀ hi₀
          (hlow _ hi₀.1)
    · cases j with
      | zero => exact hchosen.mem
      | succ j => exact hchosen.mem.1
  | one p hwideAt hdistinct htop =>
    have honly : ∀ i < 16, 2 ^ 8 ≤ th i → i = p := fun i hi hw => by
      rcases hwideAt.only i hi hw with rfl | rfl <;> rfl
    have hnew := h.lastNew hdistinct (hlast p honly)
    by_cases hlow : th (chosenAt th j) < 2 ^ 8
    · exact h.succ_low hj hnew hlow
    · have hunpicked := h.unpicked hnew hchosen.mem
      have hp := honly _ hunpicked.1 (not_lt.mp hlow)
      refine h.succ_wide hp (hp ▸ hunpicked)
        (h.left_wide hj hdistinct (not_lt.mp hlow) (hp ▸ htop)) fun i hi hw => ?_
      rw [honly i hi hw]
  | between p a b hwideAt htwice hbetween hbyte =>
    have honly : ∀ i < 16, 2 ^ 8 ≤ th i → i = p := fun i hi hw => by
      rcases hwideAt.only i hi hw with rfl | rfl <;> rfl
    have hleast : ∀ i < 16, 2 ^ 8 ≤ th i → th p ≤ th i := fun i hi hw => by rw [honly i hi hw]
    have hlastlow := hlast p honly
    by_cases hnew : LastNew th j
    · by_cases hlow : th (chosenAt th j) < 2 ^ 8
      · exact h.succ_low hj hnew hlow
      · have hunpicked := h.unpicked hnew hchosen.mem
        have hp := honly _ hunpicked.1 (not_lt.mp hlow)
        refine h.succ_wide hp (hp ▸ hunpicked) (fun i hi hilow => ?_) hleast
        have ha : Unpicked th j a := by
          refine ⟨htwice.lt.trans htwice.bound, fun k hk hka => ?_⟩
          have hge := h.lower i hi k hk
          have hle := htwice.top i hi.1 hilow
          rw [hka] at hge
          rcases htwice.eq_or hi.1 (le_antisymm hle hge) with rfl | rfl
          · exact hi.2 k hk hka
          · exact h.not_first hj.le htwice hk hka (hi.of_le hk.le)
        have := (hchosen.of_wide (not_lt.mp hlow)).1.2 a (h.candidate ha)
        omega
    · -- both of the equal entries have been chosen
      obtain ⟨k, rfl, hdup⟩ : ∃ k, k + 1 = j ∧
          ∃ l < k, th (chosenAt th l) = th (chosenAt th k) := by
        by_contra hnone
        refine hnew fun k hk => ⟨hlastlow k hk, fun l hl heq => ?_⟩
        exact hnone ⟨k, hk, l, hl, heq⟩
      obtain ⟨l, hl, heq⟩ := hdup
      obtain ⟨hka, hleft⟩ := h.after_twice (by omega) htwice (hlastlow k rfl) hl heq
      have hp : Unpicked th (k + 1) p := by
        have hw := not_lt.mp fun hlow => hleft i₀ hi₀ hlow
        exact honly i₀ hi₀.1 hw ▸ hi₀
      have hfirst : First (Candidate th (k + 1)) p := by
        refine ⟨h.candidate hp, fun i hi => ?_⟩
        by_cases hilow : th i < 2 ^ 8
        · have hge := hi.2.2
          have hle := htwice.top i hi.1 hilow
          rw [hka, Nat.mod_eq_of_lt htwice.low] at hge
          rcases htwice.eq_or hi.1 (le_antisymm hle hge) with rfl | rfl
          · exact absurd hka.symm hi.2.1
          · exact hbetween.2.le
        · exact (honly i hi.1 (not_lt.mp hilow)).ge
      have hwide : 2 ^ 8 ≤ th (chosenAt th (k + 1)) := by
        by_contra hnot
        have hle := (hchosen.of_low (not_le.mp hnot)).2 p hfirst
        have hge := hchosen.mem.2.2
        rw [hka, Nat.mod_eq_of_lt htwice.low] at hge
        omega
      exact h.succ_wide (honly _ hchosen.mem.1 hwide) hp hleft hleast
  | two p q hlt hwideAt hle hdistinct htop hafter =>
    have hleast : ∀ i < 16, 2 ^ 8 ≤ th i → th p ≤ th i := fun i hi hw => by
      rcases hwideAt.only i hi hw with rfl | rfl
      · exact le_rfl
      · exact hle
    by_cases hlow : ∀ k, k + 1 = j → th (chosenAt th k) < 2 ^ 8
    · have hnew := h.lastNew hdistinct hlow
      by_cases hlow' : th (chosenAt th j) < 2 ^ 8
      · exact h.succ_low hj hnew hlow'
      · have hwide := not_lt.mp hlow'
        have hpleft : Unpicked th j p := by
          refine ⟨hwideAt.lt.1, fun k hk heq => ?_⟩
          obtain ⟨l, rfl⟩ := Nat.exists_eq_succ_of_ne_zero (by omega : j ≠ 0)
          have hmono := h.mono k l (by omega) (by omega)
          rw [heq] at hmono
          have := hlow l rfl
          have := hwideAt.wide.1
          omega
        have hfirst := (hchosen.of_wide hwide).1.2 p (h.candidate hpleft)
        have hp : chosenAt th j = p := by
          rcases hwideAt.only _ (h.unpicked hnew hchosen.mem).1 hwide with hp | hq
          · exact hp
          · omega
        exact h.succ_wide hp hpleft (h.left_wide hj hdistinct hwide (hp ▸ htop)) hleast
    · obtain ⟨k, rfl, hwide⟩ : ∃ k, k + 1 = j ∧ 2 ^ 8 ≤ th (chosenAt th k) := by
        by_contra hnone
        exact hlow fun k hk => not_le.mp fun hw => hnone ⟨k, hk, hw⟩
      have hleft := h.left_wide_of (by omega) hwide
      have hkp : chosenAt th k = p := by
        rcases hwideAt.only _ (h.lt k (by omega)) hwide with hp | hq
        · exact hp
        · have hpleft : Unpicked th (k + 1) p := by
            rcases hwideAt.only _ hi₀.1 (hleft i₀ hi₀) with rfl | rfl
            · exact hi₀
            · exact absurd hq (hi₀.2 k (by omega))
          have hprev := h.of_le (by omega : k ≤ k + 1)
          have := ((hprev.chosen (by omega)).of_wide hwide).1.2 p
            (hprev.candidate (hpleft.of_le (by omega)))
          omega
      have hq : Unpicked th (k + 1) q := by
        rcases hwideAt.only _ hi₀.1 (hleft i₀ hi₀) with rfl | rfl
        · exact absurd hkp (hi₀.2 k (by omega))
        · exact hi₀
      have hcand : ∀ i, Candidate th (k + 1) i →
          i = q ∨ (q < i ∧ th q % 2 ^ 8 < th i) := by
        rintro i ⟨hi, hne, hge⟩
        by_cases hilow : th i < 2 ^ 8
        · exact Or.inr (hafter i hi hilow (hkp ▸ hge))
        · rcases hwideAt.only i hi (not_lt.mp hilow) with rfl | rfl
          · exact absurd hkp.symm hne
          · exact Or.inl rfl
      have hfirst : First (Candidate th (k + 1)) q := by
        refine ⟨h.candidate hq, fun i hi => ?_⟩
        rcases hcand i hi with rfl | hafter
        · exact le_rfl
        · exact hafter.1.le
      have hnext : chosenAt th (k + 1) = q := by
        rcases hcand _ hchosen.mem with hq | hafter
        · exact hq
        · by_cases hlow' : th (chosenAt th (k + 1)) < 2 ^ 8
          · have := (hchosen.of_low hlow').2 q hfirst
            omega
          · have := (hchosen.of_wide (not_lt.mp hlow')).1.2 q hfirst.1
            omega
      refine h.succ (hnext ▸ hq) fun i hi => ?_
      rcases hwideAt.only i hi.1 (hleft i hi) with rfl | rfl
      · exact absurd hkp (hi.2 k (by omega))
      · rw [hnext]

theorem sortedUpTo (hsort : Sortable th) : ∀ j ≤ 16, SortedUpTo th j := by
  intro j hj
  induction j with
  | zero => exact .zero
  | succ j ih => exact (ih (by omega)).step hsort (by omega)

end Sufficient

theorem sortsThresholds_iff (th sorted : ℕ → ℕ) :
    SortsThresholds th (qdmaSortC2hCntrThValues th sorted) ↔ Ordered th (chosenAt th) := by
  have heq : ∀ j < 16, qdmaSortC2hCntrThValues th sorted j = chosenAt th j :=
    fun j hj => qdmaSortC2hCntrThValues_eq th sorted hj
  have hmap : (List.range 16).map (qdmaSortC2hCntrThValues th sorted) =
      (List.range 16).map (chosenAt th) :=
    List.map_congr_left fun j hj => heq j (List.mem_range.mp hj)
  rw [ordered_iff]
  constructor
  · rintro ⟨hperm, hmono⟩
    rw [hmap] at hperm
    refine ⟨hperm, fun i j hij hj => ?_⟩
    rw [← heq i (by omega), ← heq j hj]
    exact hmono i j hij hj
  · rintro ⟨hperm, hmono⟩
    rw [← hmap] at hperm
    refine ⟨hperm, fun i j hij hj => ?_⟩
    rw [heq i (by omega), heq j hj]
    exact hmono i j hij hj

/-- `qdma_descq_config_complete` finds the configured counter in the table. -/
def SearchSucceeds (sorted : ℕ → ℕ) : Prop :=
  ∀ (conf : C2h.C2hConf) (q : C2h.C2hQueue), conf.sortedC2hCntrIdx = sorted →
    conf.cmplCntThIdx < 16 →
      (C2h.qdmaDescqConfigComplete conf q).sortedC2hCntrIdx < 16 ∧
        sorted (C2h.qdmaDescqConfigComplete conf q).sortedC2hCntrIdx = conf.cmplCntThIdx

/-- A table of all indices has every counter. -/
theorem SortsThresholds.searchSucceeds {th sorted : ℕ → ℕ} (h : SortsThresholds th sorted) :
    SearchSucceeds sorted := by
  rintro conf q rfl hc
  obtain ⟨j, hj, hjc⟩ := List.mem_map.mp (h.perm.mem_iff.mpr (List.mem_range.mpr hc))
  cases hfind : (List.range C2h.QDMA_GLOBAL_CSR_ARRAY_SZ).find? fun i =>
      decide (conf.cmplCntThIdx = conf.sortedC2hCntrIdx i) with
  | none => exact absurd (List.find?_eq_none.mp hfind j hj) (by simp [hjc])
  | some i =>
    have hi : conf.cmplCntThIdx = conf.sortedC2hCntrIdx i := by simpa using List.find?_some hfind
    have hres : (C2h.qdmaDescqConfigComplete conf q).sortedC2hCntrIdx = i := by
      rw [C2h.qdmaDescqConfigComplete, hfind]
      rfl
    rw [hres]
    exact ⟨List.mem_range.mp (List.mem_of_find?_eq_some hfind), hi.symm⟩

/-- For any thresholds, the table becomes a sorted list of all indices, in which every counter is
found, exactly if the thresholds are sortable. -/
theorem sortC2hCntrTh_iff (th sorted : ℕ → ℕ) :
    (SortsThresholds th (qdmaSortC2hCntrThValues th sorted) ∧
      SearchSucceeds (qdmaSortC2hCntrThValues th sorted)) ↔ Sortable th := by
  constructor
  · rintro ⟨h, -⟩
    exact ((sortsThresholds_iff th sorted).mp h).sortable
  · intro h
    have hsorts := (sortsThresholds_iff th sorted).mpr (sortedUpTo h 16 le_rfl).ordered
    exact ⟨hsorts, hsorts.searchSucceeds⟩

/-- Sixteen equal thresholds, of which the last two are chosen in turn. -/
theorem equalThresholds_not_sorted :
    ¬ SortsThresholds (fun _ => 5) (qdmaSortC2hCntrThValues (fun _ => 5) fun _ => 0) := by
  intro h
  have hordered := (sortsThresholds_iff (fun _ => 5) fun _ => 0).mp h
  have hsortable : Sortable fun _ => 5 := hordered.sortable
  cases hsortable with
  | low _ hdistinct =>
    rcases hdistinct with hdistinct | ⟨a, b, htwice⟩
    · exact absurd (hdistinct 0 (by decide) 1 (by decide) (by decide) rfl) (by decide)
    · have hfirst := htwice.only 0 (by decide) 1 (by decide) (by decide) rfl (by decide)
      have hsecond := htwice.only 1 (by decide) 2 (by decide) (by decide) rfl (by decide)
      omega
  | one p hwide => exact absurd hwide.wide.1 (by decide)
  | between p a b hwide => exact absurd hwide.wide.1 (by decide)
  | two p q _ hwide => exact absurd hwide.wide.1 (by decide)

end OnicDriver.Config
