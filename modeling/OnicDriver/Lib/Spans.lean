import Mathlib.Data.Int.ConditionallyCompleteOrder
import Mathlib.Data.Set.Lattice
import Mathlib.Order.CompletePartialOrder
import Mathlib.Order.Interval.Set.LinearOrder

/-!
# Lists of spans

A list of pieces tiles a set when the pieces are pairwise disjoint and their
union is the set. The second half concerns lists of half-open intervals of a
linear order: a sorted list with a gap between any two entries lists exactly
the maximal runs of the set it covers.
-/

namespace OnicDriver.Lib

variable {α ι : Type*}

section Tiling

variable (ids : α → Set ι)

/-- The set covered by a list of pieces. -/
def cover (l : List α) : Set ι := ⋃ a ∈ l, ids a

/-- The pieces of `l` are pairwise disjoint and together make up `S`. -/
def Tiles (l : List α) (S : Set ι) : Prop :=
  l.Pairwise (fun a b => Disjoint (ids a) (ids b)) ∧ cover ids l = S

variable {ids}

@[simp] theorem cover_nil : cover ids [] = ∅ := by simp [cover]

@[simp] theorem cover_cons (a : α) (l : List α) : cover ids (a :: l) = ids a ∪ cover ids l := by
  simp [cover]

@[simp] theorem cover_append (l m : List α) : cover ids (l ++ m) = cover ids l ∪ cover ids m := by
  induction l with
  | nil => simp
  | cons a l ih => simp [ih, Set.union_assoc]

theorem mem_cover {l : List α} {x : ι} : x ∈ cover ids l ↔ ∃ a ∈ l, x ∈ ids a := by
  simp [cover]

/-- Each piece lies inside the tiled set. -/
theorem Tiles.subset {l : List α} {S : Set ι} (h : Tiles ids l S) {a : α} (ha : a ∈ l) :
    ids a ⊆ S := by
  intro x hx
  rw [← h.2]
  exact mem_cover.mpr ⟨a, ha, hx⟩

/-- The order of the pieces does not matter. -/
theorem Tiles.perm {l m : List α} {S : Set ι} (h : Tiles ids l S) (hp : l.Perm m) :
    Tiles ids m S := by
  refine ⟨(hp.pairwise_iff fun hab => hab.symm).mp h.1, ?_⟩
  rw [← h.2]
  ext x
  simp only [mem_cover, hp.mem_iff]

/-- A piece is disjoint from everything the other pieces cover. -/
theorem tiles_cons {a : α} {l : List α} {S : Set ι} :
    Tiles ids (a :: l) S ↔
      Disjoint (ids a) (cover ids l) ∧ Tiles ids l (cover ids l) ∧ ids a ∪ cover ids l = S := by
  have hdisjoint : Disjoint (ids a) (cover ids l) ↔ ∀ b ∈ l, Disjoint (ids a) (ids b) := by
    simp [cover, Set.disjoint_iUnion_right]
  simp only [Tiles, List.pairwise_cons, cover_cons, hdisjoint, and_true]
  tauto

/-- An empty piece may be added or dropped. -/
theorem tiles_cons_of_empty {a : α} {l : List α} {S : Set ι} (ha : ids a = ∅) :
    Tiles ids (a :: l) S ↔ Tiles ids l S := by
  rw [tiles_cons, ha]
  simp only [Set.empty_disjoint, Set.empty_union, true_and]
  constructor
  · rintro ⟨h, rfl⟩
    exact h
  · intro h
    exact ⟨⟨h.1, rfl⟩, h.2⟩

/-- Empty pieces may be left out. -/
theorem Tiles.filter {k l : List α} {p : α → Bool} {S : Set ι} (h : Tiles ids (k ++ l) S)
    (hempty : ∀ a ∈ l, p a = false → ids a = ∅) : Tiles ids (k ++ l.filter p) S := by
  refine ⟨h.1.sublist ((List.Sublist.refl k).append List.filter_sublist), ?_⟩
  rw [← h.2, cover_append, cover_append]
  refine congrArg (cover ids k ∪ ·) ?_
  ext x
  simp only [mem_cover, List.mem_filter]
  constructor
  · rintro ⟨a, ⟨ha, -⟩, hx⟩
    exact ⟨a, ha, hx⟩
  · rintro ⟨a, ha, hx⟩
    refine ⟨a, ⟨ha, ?_⟩, hx⟩
    by_contra hp
    rw [hempty a ha (by simpa using hp)] at hx
    exact hx

/-- A piece may be exchanged for pieces that tile it. -/
theorem Tiles.refine {a : α} {l m : List α} {S : Set ι} (h : Tiles ids (a :: l) S)
    (hm : Tiles ids m (ids a)) : Tiles ids (m ++ l) S := by
  obtain ⟨hdisjoint, hl, hunion⟩ := tiles_cons.mp h
  refine ⟨List.pairwise_append.mpr ⟨hm.1, hl.1, ?_⟩, ?_⟩
  · intro p hp q hq
    refine hdisjoint.mono (hm.subset hp) ?_
    intro x hx
    exact mem_cover.mpr ⟨q, hq, hx⟩
  · rw [cover_append, hm.2, hunion]

/-- Pieces that tile another piece may be merged into it. -/
theorem Tiles.merge {a : α} {l m : List α} {S : Set ι} (h : Tiles ids (m ++ l) S)
    (hm : Tiles ids m (ids a)) : Tiles ids (a :: l) S := by
  obtain ⟨-, hl, hcross⟩ := List.pairwise_append.mp h.1
  refine tiles_cons.mpr ⟨?_, ⟨hl, rfl⟩, ?_⟩
  · rw [← hm.2]
    simp only [cover, Set.disjoint_iUnion_left, Set.disjoint_iUnion_right]
    exact fun q hq p hp => hcross p hp q hq
  · rw [← hm.2, ← cover_append, h.2]

end Tiling

section Runs

variable [LinearOrder ι] (lo hi : α → ι)

/-- Each interval ends before the next one starts. -/
def Ascending (l : List α) : Prop := l.Pairwise (fun a b => hi a ≤ lo b)

/-- Nonempty intervals with a gap between any two of them. -/
def Coalesced (l : List α) : Prop :=
  (∀ a ∈ l, lo a < hi a) ∧ l.Pairwise (fun a b => hi a < lo b)

/-- A nonempty interval inside `S` that no larger interval inside `S` contains. -/
def IsMaximalRun (S : Set ι) (a b : ι) : Prop :=
  a < b ∧ Set.Ico a b ⊆ S ∧
    ∀ c d, Set.Ico a b ⊆ Set.Ico c d → Set.Ico c d ⊆ S → Set.Ico c d ⊆ Set.Ico a b

/-- The elements of one interval of the list. -/
def interval (a : α) : Set ι := Set.Ico (lo a) (hi a)

variable {lo hi}

theorem Coalesced.ascending {l : List α} (h : Coalesced lo hi l) : Ascending lo hi l :=
  h.2.imp le_of_lt

/-- The end of an interval of a coalesced list is not covered by the list. -/
theorem Coalesced.hi_notMem {l : List α} (h : Coalesced lo hi l) {a : α} (ha : a ∈ l) :
    hi a ∉ cover (interval lo hi) l := by
  intro hmem
  obtain ⟨b, hb, hlo, hlt⟩ := mem_cover.mp hmem
  obtain ⟨s, t, rfl⟩ := List.mem_iff_append.mp ha
  obtain ⟨-, hat, hcross⟩ := List.pairwise_append.mp h.2
  have hpos := h.1 a ha
  rcases List.mem_append.mp hb with hs | ht
  · have hba := hcross b hs a List.mem_cons_self
    exact absurd (hlt.trans hba) hpos.not_gt
  · rcases List.mem_cons.mp ht with rfl | ht
    · exact lt_irrefl _ hlt
    · exact absurd ((List.pairwise_cons.mp hat).1 b ht) hlo.not_gt

/-- An interval inside the covered set lies inside one interval of the list. -/
theorem Coalesced.exists_of_subset {l : List α} (h : Coalesced lo hi l) {a b : ι} (hab : a < b)
    (hsub : Set.Ico a b ⊆ cover (interval lo hi) l) : ∃ p ∈ l, lo p ≤ a ∧ b ≤ hi p := by
  obtain ⟨p, hp, hlo, hlt⟩ := mem_cover.mp (hsub ⟨le_rfl, hab⟩)
  refine ⟨p, hp, hlo, ?_⟩
  by_contra hcut
  exact h.hi_notMem hp (hsub ⟨hlt.le, not_le.mp hcut⟩)

/-- The intervals of a coalesced list are exactly the maximal runs it covers. -/
theorem Coalesced.isMaximalRun_iff {l : List α} (h : Coalesced lo hi l) {a b : ι} :
    IsMaximalRun (cover (interval lo hi) l) a b ↔ ∃ p ∈ l, lo p = a ∧ hi p = b := by
  constructor
  · rintro ⟨hab, hsub, hmax⟩
    obtain ⟨p, hp, hlo, hhi⟩ := h.exists_of_subset hab hsub
    have hin : Set.Ico (lo p) (hi p) ⊆ cover (interval lo hi) l :=
      fun x hx => mem_cover.mpr ⟨p, hp, hx⟩
    have hback := hmax _ _ (Set.Ico_subset_Ico hlo hhi) hin
    obtain ⟨ha, hb⟩ := (Set.Ico_subset_Ico_iff (h.1 p hp)).mp hback
    exact ⟨p, hp, le_antisymm hlo ha, le_antisymm hb hhi⟩
  · rintro ⟨p, hp, rfl, rfl⟩
    refine ⟨h.1 p hp, fun x hx => mem_cover.mpr ⟨p, hp, hx⟩, ?_⟩
    intro c d hle hsub
    obtain ⟨hc, hd⟩ := (Set.Ico_subset_Ico_iff (h.1 p hp)).mp hle
    have hcd : c < d := hc.trans_lt ((h.1 p hp).trans_le hd)
    obtain ⟨q, hq, hlo, hhi⟩ := h.exists_of_subset hcd hsub
    -- the run containing `[c, d)` contains the end of `p`, unless it is `p`
    have hend : hi q ≤ hi p := by
      by_contra hlt
      refine h.hi_notMem hp (mem_cover.mpr ⟨q, hq, ?_, not_le.mp hlt⟩)
      exact (hlo.trans hc).trans (h.1 p hp).le
    have hstart : lo p ≤ lo q := by
      by_contra hlt
      have hqp : lo p < hi q := (h.1 p hp).trans_le (hd.trans hhi)
      obtain ⟨s, t, hl⟩ := List.mem_iff_append.mp hp
      have hpair := h.2
      rw [hl] at hpair hq
      obtain ⟨-, hpt, hcross⟩ := List.pairwise_append.mp hpair
      rcases List.mem_append.mp hq with hs | ht
      · exact absurd (hcross q hs p List.mem_cons_self) hqp.not_gt
      · rcases List.mem_cons.mp ht with rfl | ht
        · exact hlt le_rfl
        · have := (List.pairwise_cons.mp hpt).1 q ht
          exact hlt ((h.1 p hp).trans this).le
    exact Set.Ico_subset_Ico (hstart.trans hlo) (hhi.trans hend)

/-- Replacing one interval by ascending intervals inside it keeps the list ascending. -/
theorem Ascending.replace {s t m : List α} {a : α} (h : Ascending lo hi (s ++ a :: t))
    (hm : Ascending lo hi m) (hin : ∀ b ∈ m, lo a ≤ lo b ∧ hi b ≤ hi a) :
    Ascending lo hi (s ++ (m ++ t)) := by
  obtain ⟨hs, hat, hcross⟩ := List.pairwise_append.mp h
  obtain ⟨ha, ht⟩ := List.pairwise_cons.mp hat
  refine List.pairwise_append.mpr ⟨hs, List.pairwise_append.mpr ⟨hm, ht, ?_⟩, ?_⟩
  · intro b hb c hc
    exact (hin b hb).2.trans (ha c hc)
  · intro b hb c hc
    rcases List.mem_append.mp hc with hc | hc
    · exact (hcross b hb a List.mem_cons_self).trans (hin c hc).1
    · exact hcross b hb c (List.mem_cons_of_mem _ hc)

/-- Replacing one interval by coalesced intervals inside it keeps the list coalesced. -/
theorem Coalesced.replace {s t m : List α} {a : α} (h : Coalesced lo hi (s ++ a :: t))
    (hm : Coalesced lo hi m) (hin : ∀ b ∈ m, lo a ≤ lo b ∧ hi b ≤ hi a) :
    Coalesced lo hi (s ++ (m ++ t)) := by
  obtain ⟨hs, hat, hcross⟩ := List.pairwise_append.mp h.2
  obtain ⟨ha, ht⟩ := List.pairwise_cons.mp hat
  refine ⟨?_, List.pairwise_append.mpr ⟨hs, List.pairwise_append.mpr ⟨hm.2, ht, ?_⟩, ?_⟩⟩
  · intro b hb
    rcases List.mem_append.mp hb with hb | hb
    · exact h.1 b (List.mem_append_left _ hb)
    · rcases List.mem_append.mp hb with hb | hb
      · exact hm.1 b hb
      · exact h.1 b (List.mem_append_right _ (List.mem_cons_of_mem _ hb))
  · intro b hb c hc
    exact (hin b hb).2.trans_lt (ha c hc)
  · intro b hb c hc
    rcases List.mem_append.mp hc with hc | hc
    · exact (hcross b hb a List.mem_cons_self).trans_le (hin c hc).1
    · exact hcross b hb c (List.mem_cons_of_mem _ hc)

/-! ## Lists cut at given points -/

/-- Nonempty intervals in order. Two of them meet at points of `P` only, and none has a
point of `P` inside. -/
structure CutAt (lo hi : α → ι) (P : Set ι) (l : List α) : Prop where
  pos : ∀ a ∈ l, lo a < hi a
  apart : l.Pairwise fun a b => hi a < lo b ∨ hi a = lo b ∧ hi a ∈ P
  whole : ∀ a ∈ l, ∀ x ∈ P, ¬ (lo a < x ∧ x < hi a)

variable {P : Set ι}

/-- A coalesced list is cut nowhere. -/
theorem cutAt_empty_iff {l : List α} : CutAt lo hi ∅ l ↔ Coalesced lo hi l := by
  constructor
  · intro h
    exact ⟨h.pos, h.apart.imp fun hab => hab.resolve_right fun hmeet => hmeet.2⟩
  · intro h
    exact ⟨h.1, h.2.imp Or.inl, fun _ _ _ hx => hx.elim⟩

theorem CutAt.tail {a : α} {l : List α} (h : CutAt lo hi P (a :: l)) : CutAt lo hi P l :=
  ⟨fun b hb => h.pos b (List.mem_cons_of_mem _ hb), (List.pairwise_cons.mp h.apart).2,
    fun b hb => h.whole b (List.mem_cons_of_mem _ hb)⟩

theorem CutAt.ascending {l : List α} (h : CutAt lo hi P l) : Ascending lo hi l :=
  h.apart.imp fun hab => hab.elim le_of_lt fun hmeet => hmeet.1.le

/-- The end of an interval begins another one only at a point of `P`. -/
theorem CutAt.hi_mem {l : List α} (h : CutAt lo hi P l) {a : α} (ha : a ∈ l)
    (hmem : hi a ∈ cover (interval lo hi) l) : hi a ∈ P := by
  obtain ⟨b, hb, hlo, hlt⟩ := mem_cover.mp hmem
  obtain ⟨s, t, rfl⟩ := List.mem_iff_append.mp ha
  obtain ⟨-, hat, hcross⟩ := List.pairwise_append.mp h.apart
  have hpos := h.pos a ha
  rcases List.mem_append.mp hb with hs | ht
  · have hle : hi b ≤ lo a :=
      (hcross b hs a List.mem_cons_self).elim le_of_lt fun hmeet => hmeet.1.le
    exact absurd (hlt.trans_le hle) hpos.not_gt
  · rcases List.mem_cons.mp ht with rfl | ht
    · exact absurd hlt (lt_irrefl _)
    · rcases (List.pairwise_cons.mp hat).1 b ht with hgap | ⟨-, hP⟩
      · exact absurd hlo hgap.not_ge
      · exact hP

/-- An interval inside the covered set with no point of `P` inside lies inside one interval
of the list. -/
theorem CutAt.exists_of_subset {l : List α} (h : CutAt lo hi P l) {a b : ι} (hab : a < b)
    (hsub : Set.Ico a b ⊆ cover (interval lo hi) l) (hP : ∀ x ∈ P, ¬ (a < x ∧ x < b)) :
    ∃ p ∈ l, lo p ≤ a ∧ b ≤ hi p := by
  obtain ⟨p, hp, hlo, hlt⟩ := mem_cover.mp (hsub ⟨le_rfl, hab⟩)
  refine ⟨p, hp, hlo, ?_⟩
  by_contra hcut
  have hend := h.hi_mem hp (hsub ⟨hlt.le, not_le.mp hcut⟩)
  exact hP _ hend ⟨hlt, not_le.mp hcut⟩

/-- The first interval of a list begins with the first covered element. -/
theorem CutAt.lo_le {a : α} {l : List α} (h : CutAt lo hi P (a :: l)) {x : ι}
    (hx : x ∈ cover (interval lo hi) (a :: l)) : lo a ≤ x := by
  obtain ⟨b, hb, hlo, -⟩ := mem_cover.mp hx
  rcases List.mem_cons.mp hb with rfl | hb
  · exact hlo
  · have hle := (List.pairwise_cons.mp h.ascending).1 b hb
    exact ((h.pos a List.mem_cons_self).le.trans hle).trans hlo

/-- What the later intervals cover. -/
theorem CutAt.cover_tail {a : α} {l : List α} (h : CutAt lo hi P (a :: l)) :
    cover (interval lo hi) l = cover (interval lo hi) (a :: l) \ Set.Iio (hi a) := by
  ext x
  simp only [cover_cons, Set.mem_sdiff, Set.mem_union, Set.mem_Iio, not_lt]
  constructor
  · intro hx
    obtain ⟨b, hb, hlo, -⟩ := mem_cover.mp hx
    exact ⟨Or.inr hx, ((List.pairwise_cons.mp h.ascending).1 b hb).trans hlo⟩
  · rintro ⟨hx | hx, hge⟩
    · exact absurd hx.2 hge.not_gt
    · exact hx

/-- The first intervals of two lists that cover the same end together. -/
theorem CutAt.hi_le {a b : α} {l m : List α} (hl : CutAt lo hi P (a :: l))
    (hm : CutAt lo hi P (b :: m)) (hlo : lo a = lo b)
    (hcover : cover (interval lo hi) (a :: l) = cover (interval lo hi) (b :: m)) :
    hi b ≤ hi a := by
  by_contra hlt
  have hpos := hl.pos a List.mem_cons_self
  have hinside : hi a ∈ interval lo hi b := ⟨hlo ▸ hpos.le, not_le.mp hlt⟩
  have hmem : hi a ∈ cover (interval lo hi) (a :: l) := by
    rw [hcover]
    exact mem_cover.mpr ⟨b, List.mem_cons_self, hinside⟩
  have hP := hl.hi_mem List.mem_cons_self hmem
  exact hm.whole b List.mem_cons_self _ hP ⟨hlo ▸ hpos, not_le.mp hlt⟩

/-- The covered set and the points where it is cut determine the intervals. -/
theorem CutAt.unique {l m : List α} (hl : CutAt lo hi P l) (hm : CutAt lo hi P m)
    (hcover : cover (interval lo hi) l = cover (interval lo hi) m) :
    l.map (fun a => (lo a, hi a)) = m.map fun a => (lo a, hi a) := by
  induction l generalizing m with
  | nil =>
    cases m with
    | nil => rfl
    | cons b m =>
      have hb : lo b ∈ cover (interval lo hi) (b :: m) :=
        mem_cover.mpr ⟨b, List.mem_cons_self, le_rfl, hm.pos b List.mem_cons_self⟩
      rw [← hcover] at hb
      simp at hb
  | cons a l ih =>
    have ha : lo a ∈ cover (interval lo hi) (a :: l) :=
      mem_cover.mpr ⟨a, List.mem_cons_self, le_rfl, hl.pos a List.mem_cons_self⟩
    cases m with
    | nil =>
      rw [hcover] at ha
      simp at ha
    | cons b m =>
      have hb : lo b ∈ cover (interval lo hi) (b :: m) :=
        mem_cover.mpr ⟨b, List.mem_cons_self, le_rfl, hm.pos b List.mem_cons_self⟩
      have hlo : lo a = lo b := le_antisymm (hl.lo_le (hcover ▸ hb)) (hm.lo_le (hcover ▸ ha))
      have hhi : hi a = hi b :=
        le_antisymm (hm.hi_le hl hlo.symm hcover.symm) (hl.hi_le hm hlo hcover)
      have htail := ih hl.tail hm.tail (by rw [hl.cover_tail, hm.cover_tail, hcover, hhi])
      simp only [List.map_cons, hlo, hhi, htail]

/-- Replacing one interval by coalesced intervals inside it cuts the list nowhere else. -/
theorem CutAt.replace {s t m : List α} {a : α} (h : CutAt lo hi P (s ++ a :: t))
    (hm : Coalesced lo hi m) (hin : ∀ b ∈ m, lo a ≤ lo b ∧ hi b ≤ hi a) :
    CutAt lo hi P (s ++ (m ++ t)) := by
  obtain ⟨hs, hat, hcross⟩ := List.pairwise_append.mp h.apart
  obtain ⟨ha, ht⟩ := List.pairwise_cons.mp hat
  refine ⟨?_, List.pairwise_append.mpr ⟨hs, List.pairwise_append.mpr ⟨?_, ht, ?_⟩, ?_⟩, ?_⟩
  · intro b hb
    rcases List.mem_append.mp hb with hb | hb
    · exact h.pos b (List.mem_append_left _ hb)
    · rcases List.mem_append.mp hb with hb | hb
      · exact hm.1 b hb
      · exact h.pos b (List.mem_append_right _ (List.mem_cons_of_mem _ hb))
  · exact hm.2.imp Or.inl
  · intro b hb c hc
    rcases (hin b hb).2.lt_or_eq with hlt | heq
    · exact Or.inl (hlt.trans_le ((ha c hc).elim le_of_lt fun hmeet => hmeet.1.le))
    · rw [heq]
      exact ha c hc
  · intro b hb c hc
    rcases List.mem_append.mp hc with hc | hc
    · rcases (hin c hc).1.lt_or_eq with hlt | heq
      · have hle := (hcross b hb a List.mem_cons_self).elim le_of_lt fun hmeet => hmeet.1.le
        exact Or.inl (hle.trans_lt hlt)
      · rw [← heq]
        exact hcross b hb a List.mem_cons_self
    · exact hcross b hb c (List.mem_cons_of_mem _ hc)
  · intro b hb x hx hbx
    rcases List.mem_append.mp hb with hb | hb
    · exact h.whole b (List.mem_append_left _ hb) x hx hbx
    · rcases List.mem_append.mp hb with hb | hb
      · exact h.whole a (by simp) x hx
          ⟨(hin b hb).1.trans_lt hbx.1, hbx.2.trans_le (hin b hb).2⟩
      · exact h.whole b (List.mem_append_right _ (List.mem_cons_of_mem _ hb)) x hx hbx

/-- Splitting one interval of a coalesced list cuts it at one point. -/
theorem Coalesced.split {s t : List α} {a b c : α} (h : Coalesced lo hi (s ++ a :: t))
    (hlo : lo b = lo a) (hmid : hi b = lo c) (hhi : hi c = hi a) (hb : lo b < hi b)
    (hc : lo c < hi c) : CutAt lo hi {hi b} (s ++ b :: c :: t) := by
  obtain ⟨hs, hat, hcross⟩ := List.pairwise_append.mp h.2
  obtain ⟨ha, ht⟩ := List.pairwise_cons.mp hat
  have hbc : lo b < hi c := hb.trans (hmid ▸ hc)
  refine ⟨?_, List.pairwise_append.mpr ⟨hs.imp Or.inl, List.pairwise_cons.mpr ⟨?_,
    List.pairwise_cons.mpr ⟨?_, ht.imp Or.inl⟩⟩, ?_⟩, ?_⟩
  · intro d hd
    rcases List.mem_append.mp hd with hd | hd
    · exact h.1 d (List.mem_append_left _ hd)
    · rcases List.mem_cons.mp hd with rfl | hd
      · exact hb
      · rcases List.mem_cons.mp hd with rfl | hd
        · exact hc
        · exact h.1 d (List.mem_append_right _ (List.mem_cons_of_mem _ hd))
  · intro d hd
    rcases List.mem_cons.mp hd with rfl | hd
    · exact Or.inr ⟨hmid, rfl⟩
    · exact Or.inl (((hmid ▸ hc).trans_eq hhi).trans (ha d hd))
  · intro d hd
    exact Or.inl (hhi ▸ ha d hd)
  · intro d hd e he
    have hda := hcross d hd a List.mem_cons_self
    rcases List.mem_cons.mp he with rfl | he
    · exact Or.inl (hlo ▸ hda)
    · rcases List.mem_cons.mp he with rfl | he
      · exact Or.inl (hda.trans (hlo ▸ hb.trans_eq hmid))
      · exact Or.inl (hcross d hd e (List.mem_cons_of_mem _ he))
  · intro d hd x hx hdx
    rw [Set.mem_singleton_iff.mp hx] at hdx
    rcases List.mem_append.mp hd with hd | hd
    · -- an interval before the split one ends before the cut
      have hda := hcross d hd a List.mem_cons_self
      exact absurd (hda.trans (hlo ▸ hb)) hdx.2.not_gt
    · rcases List.mem_cons.mp hd with rfl | hd
      · exact lt_irrefl _ hdx.2
      · rcases List.mem_cons.mp hd with rfl | hd
        · exact absurd hdx.1 (hmid ▸ lt_irrefl _)
        · have had := ha d hd
          exact absurd hdx.1 ((hmid ▸ hc).trans (hhi ▸ had)).not_gt

end Runs

end OnicDriver.Lib
