import OnicDriver.Resource.Granted

/-!
# What a refused update leaves behind

An update gives the range of the function back, fails to get the new one, and
asks for the old range again. This restores everything only if the merge did
not join free ranges that were apart, if the cut leaves no range in two, and
if a function without queues does not touch the free list.
-/

namespace OnicDriver.Resource

open Lib

variable {lo hi : ℤ} {free : List ResourceEntry} {qmax : ℕ} {qbase : ℤ}

/-! ## The search for a node -/

/-- A free range is large enough. -/
def Fits (free : List ResourceEntry) (qmax : ℕ) : Prop := ∃ e ∈ free, qmax ≤ e.totalQ

instance : Decidable (Fits free qmax) :=
  inferInstanceAs (Decidable (∃ e ∈ free, qmax ≤ e.totalQ))

/-- The node that the search of `qdma_get_resource_node` ends with, and where the range
is cut out of it. -/
inductive Search (free : List ResourceEntry) (qmax : ℕ) (qbase : ℤ) :
    Option (FreeNode × ℤ) → Prop
  | held (best : FreeNode) (hlist : best.list = free) (hq : 0 ≤ qbase)
      (hl : best.node.qbase ≤ qbase) (hr : qbase + qmax ≤ best.node.qend) :
      Search free qmax qbase (some (best, qbase))
  | fits (best : FreeNode) (hlist : best.list = free) (hsize : qmax ≤ best.node.totalQ)
      (hnot : ¬ (0 ≤ qbase ∧ HoldsRange free qmax qbase)) :
      Search free qmax qbase (some (best, best.node.qbase))
  | none (hsmall : ¬ Fits free qmax) : Search free qmax qbase none

/-- `qdma_get_resource_node` cuts a range out of the node it finds. -/
theorem qdmaGetResourceNode_search (hlo : 0 ≤ lo) (hhi : hi < 2 ^ 31) (hfree : FreeOk lo hi free)
    (hsafe : RequestSafe qmax qbase free) (mem : CallocResults) :
    (Search free qmax qbase none ∧ qdmaGetResourceNode qmax qbase free mem = (none, free, mem)) ∨
    ∃ best base, Search free qmax qbase (some (best, base)) ∧
      qdmaGetResourceNode qmax qbase free mem = fragmentFreeList qmax base best mem := by
  unfold qdmaGetResourceNode
  cases hreq : (if qbase ≥ 0 then findRequested qmax qbase [] free else none) with
  | some best =>
    right
    split at hreq
    · rename_i hq
      obtain ⟨hlist, hholds⟩ := findRequested_some hreq
      have hmem : best.node ∈ free := by
        have hnode : best.node ∈ best.list := by simp [FreeNode.list]
        rwa [hlist] at hnode
      have hwrap : qbase + qmax < 2 ^ 32 := by
        rcases hsafe hq with hwrap | hnone
        · exact hwrap
        · rw [hnone _ hmem] at hholds
          cases hholds
      obtain ⟨hl, hr⟩ := (holdsRequest_iff hlo hhi (hfree.inside _ hmem) hq hwrap).mp hholds
      exact ⟨best, qbase, Search.held best hlist hq hl hr, rfl⟩
    · cases hreq
  | none =>
    have hnot : ¬ (0 ≤ qbase ∧ HoldsRange free qmax qbase) := by
      rintro ⟨hq, e, he, hholds⟩
      rw [if_pos hq] at hreq
      have htest := findRequested_none hreq e he
      have hin := hfree.inside e he
      have hwrap : qbase + qmax < 2 ^ 32 := by
        simp only [Inside] at hin
        omega
      rw [(holdsRequest_iff hlo hhi hin hq hwrap).mpr hholds] at htest
      cases htest
    have hbest : IsBestFit qmax free free (findBestFit qmax none [] free) :=
      findBestFit_spec (l := free) (by simp [IsBestFit])
    cases hfit : findBestFit qmax none [] free with
    | none =>
      rw [hfit] at hbest
      refine Or.inl ⟨Search.none ?_, rfl⟩
      rintro ⟨e, he, hsize⟩
      exact absurd (hbest e he) hsize.not_gt
    | some best =>
      rw [hfit] at hbest
      obtain ⟨hlist, hsize, -⟩ := hbest
      exact Or.inr ⟨best, _, Search.fits best hlist hsize hnot, rfl⟩

/-- The range lies in the node that the search ends with. -/
theorem Search.bounds {best : FreeNode} {base : ℤ}
    (h : Search free qmax qbase (some (best, base))) :
    best.list = free ∧ best.node.qbase ≤ base ∧ base + qmax ≤ best.node.qend := by
  cases h with
  | held _ hlist hq hl hr => exact ⟨hlist, hl, hr⟩
  | fits _ hlist hsize =>
    refine ⟨hlist, le_rfl, ?_⟩
    simp only [ResourceEntry.qend]
    omega

theorem Search.holdsRange {best : FreeNode} {base : ℤ}
    (h : Search free qmax qbase (some (best, base))) : HoldsRange free qmax base := by
  obtain ⟨hlist, hl, hr⟩ := h.bounds
  refine ⟨best.node, ?_, hl, hr⟩
  rw [← hlist]
  simp [FreeNode.list]

theorem HoldsRange.fits (h : HoldsRange free qmax qbase) : Fits free qmax := by
  obtain ⟨e, he, hl, hr⟩ := h
  refine ⟨e, he, ?_⟩
  simp only [ResourceEntry.qend] at hr
  omega

/-! ## Cutting with little memory -/

/-- The allocations for what remains of a node on the left and on the right succeed. -/
def Memory (left right : Prop) (mem : CallocResults) : Prop :=
  (left ∨ right → (qdmaCalloc mem).1 = true) ∧
    (left ∧ right → (qdmaCalloc (qdmaCalloc mem).2).1 = true)

/-- A node of the list is split in two at `x`. -/
def SplitAt (x : ℤ) (free free' : List ResourceEntry) : Prop :=
  ∃ s n t, free = s ++ n :: t ∧ n.qbase < x ∧ x < n.qend ∧
    free' = s ++ ⟨n.qbase, (x - n.qbase).toNat⟩ :: ⟨x, (n.qend - x).toNat⟩ :: t

/-- What becomes of a cut: it is made, or the first or only the second allocation fails. -/
inductive Cutting (best : FreeNode) (cut : ResourceEntry) (mem : CallocResults) :
    Option FreeNode × List ResourceEntry × CallocResults → Prop
  | made (l : List ResourceEntry) (mem' : CallocResults)
      (hmem : Memory (best.node.qbase < cut.qbase) (cut.qend < best.node.qend) mem) :
      Cutting best cut mem (some ⟨best.before ++ leftPart best.node cut, cut,
        rightPart best.node cut ++ best.after⟩, l, mem')
  | first (hmem : ¬ Memory (best.node.qbase < cut.qbase) (cut.qend < best.node.qend) mem)
      (hnone : (qdmaCalloc mem).1 = false) :
      Cutting best cut mem (none, best.list, (qdmaCalloc mem).2)
  | second (l : List ResourceEntry)
      (hmem : ¬ Memory (best.node.qbase < cut.qbase) (cut.qend < best.node.qend) mem)
      (hsome : (qdmaCalloc mem).1 = true) (hleft : best.node.qbase < cut.qbase)
      (hsplit : SplitAt cut.qbase best.list l) :
      Cutting best cut mem (none, l, (qdmaCalloc (qdmaCalloc mem).2).2)

/-- `fragment_free_list` on a node that holds the range. -/
theorem fragmentFreeList_cutting (hlo : 0 ≤ lo) (hhi : hi < 2 ^ 31) {best : FreeNode} {base : ℤ}
    (hn : Inside lo hi best.node) (hl : best.node.qbase ≤ base)
    (hr : base + qmax ≤ best.node.qend) (mem : CallocResults) :
    Cutting best ⟨base, qmax⟩ mem (fragmentFreeList qmax base best mem) := by
  obtain ⟨s, n, t⟩ := best
  dsimp only at hn hl hr
  obtain ⟨hcut, -⟩ := fragmentFreeList_eq (s := s) (t := t) hlo hhi hn hl hr
  have hnil : qdmaCalloc [] = (true, []) := rfl
  have hmade : ∀ l mem', Memory (n.qbase < base) (base + qmax < n.qend) mem →
      Cutting ⟨s, n, t⟩ ⟨base, qmax⟩ mem (some ⟨s ++ leftPart n ⟨base, qmax⟩, ⟨base, qmax⟩,
        rightPart n ⟨base, qmax⟩ ++ t⟩, l, mem') :=
    fun l mem' hmem => Cutting.made l mem' hmem
  have hfirst : ¬ Memory (n.qbase < base) (base + qmax < n.qend) mem →
      (qdmaCalloc mem).1 = false →
      Cutting ⟨s, n, t⟩ ⟨base, qmax⟩ mem (none, s ++ n :: t, (qdmaCalloc mem).2) :=
    fun hmem hnone => Cutting.first hmem hnone
  have hsecond : ∀ l, ¬ Memory (n.qbase < base) (base + qmax < n.qend) mem →
      (qdmaCalloc mem).1 = true → n.qbase < base → SplitAt base (s ++ n :: t) l →
      Cutting ⟨s, n, t⟩ ⟨base, qmax⟩ mem
        (none, l, (qdmaCalloc (qdmaCalloc mem).2).2) :=
    fun l hmem hsome hleft hsplit => Cutting.second l hmem hsome hleft hsplit
  simp only [Inside, ResourceEntry.qend] at hn hr hmade hfirst hsecond
  have hend : (u32 (n.qbase + n.totalQ) : ℤ) = n.qbase + n.totalQ := u32_of_lt (by omega) (by omega)
  have hreq : (u32 (base + qmax) : ℤ) = base + qmax := u32_of_lt (by omega) (by omega)
  unfold fragmentFreeList at hcut ⊢
  dsimp only at hcut ⊢
  by_cases h1 : base = n.qbase ∧ qmax = n.totalQ
  · rw [if_pos h1] at hcut ⊢
    obtain ⟨rfl, rfl⟩ := h1
    have hwhole := hmade (FreeNode.list ⟨s, n, t⟩) mem ⟨fun h => by omega, fun h => by omega⟩
    rwa [← hcut] at hwhole
  rw [if_neg h1] at hcut ⊢
  by_cases h2 : base = n.qbase ∧ qmax ≠ n.totalQ
  · rw [if_pos h2] at hcut ⊢
    have hleft : ¬ n.qbase < base := by omega
    have hright : base + (qmax : ℤ) < n.qbase + n.totalQ := by omega
    cases hcalloc : qdmaCalloc mem with
    | mk ok mem' =>
      simp only [Memory, hcalloc] at hmade hfirst
      cases ok with
      | false =>
        simp only [qdmaFreeEntryCreate, hcalloc]
        exact hfirst (fun h => Bool.false_ne_true (h.1 (Or.inr hright))) rfl
      | true =>
        simp only [qdmaFreeEntryCreate, hcalloc, hnil, Option.some.injEq] at hcut ⊢
        rw [hcut]
        exact hmade _ _ ⟨fun _ => rfl, fun h => absurd h.1 hleft⟩
  rw [if_neg h2] at hcut ⊢
  have hleft : n.qbase < base := lt_of_le_of_ne hl fun heq => by
    by_cases htotal : qmax = n.totalQ
    · exact h1 ⟨heq.symm, htotal⟩
    · exact h2 ⟨heq.symm, htotal⟩
  by_cases h3 : base > n.qbase ∧ u32 (base + qmax) = u32 (n.qbase + n.totalQ)
  · rw [if_pos h3] at hcut ⊢
    have hright : ¬ base + (qmax : ℤ) < n.qbase + n.totalQ := by omega
    cases hcalloc : qdmaCalloc mem with
    | mk ok mem' =>
      simp only [Memory, hcalloc] at hmade hfirst
      cases ok with
      | false =>
        simp only [qdmaFreeEntryCreate, hcalloc]
        exact hfirst (fun h => Bool.false_ne_true (h.1 (Or.inl hleft))) rfl
      | true =>
        simp only [qdmaFreeEntryCreate, hcalloc, hnil, Option.some.injEq] at hcut ⊢
        rw [hcut]
        exact hmade _ _ ⟨fun _ => rfl, fun h => absurd h.2 hright⟩
  rw [if_neg h3] at hcut ⊢
  have hright : base + (qmax : ℤ) < n.qbase + n.totalQ := by
    by_contra hge
    refine h3 ⟨hleft, ?_⟩
    congr 1
    omega
  cases hcalloc : qdmaCalloc mem with
  | mk ok mem' =>
    simp only [Memory, hcalloc] at hmade hfirst hsecond
    cases ok with
    | false =>
      simp only [qdmaFreeEntryCreate, hcalloc]
      exact hfirst (fun h => Bool.false_ne_true (h.1 (Or.inl hleft))) rfl
    | true =>
      cases hcalloc' : qdmaCalloc mem' with
      | mk ok mem'' =>
        simp only [hcalloc'] at hmade hsecond
        cases ok with
        | true =>
          simp only [qdmaFreeEntryCreate, hcalloc, hcalloc', hnil, Option.some.injEq] at hcut ⊢
          rw [hcut]
          exact hmade _ _ ⟨fun _ => trivial, fun _ => rfl⟩
        | false =>
          simp only [qdmaFreeEntryCreate, hcalloc, hcalloc']
          have hsize : u32 (base - n.qbase) = (base - n.qbase).toNat := by
            have := u32_of_lt (x := base - n.qbase) (by omega) (by omega)
            omega
          have hrest : u32 ((n.totalQ : ℤ) - ((base - n.qbase).toNat : ℤ)) =
              (n.qend - base).toNat := by
            simp only [ResourceEntry.qend]
            have := u32_of_lt (x := (n.totalQ : ℤ) - ((base - n.qbase).toNat : ℤ)) (by omega)
              (by omega)
            omega
          rw [hsize, hrest]
          refine hsecond _ (fun h => Bool.false_ne_true (h.2 ⟨hleft, hright⟩)) trivial hleft
            ⟨s, n, t, rfl, hleft, ?_, rfl⟩
          simp only [ResourceEntry.qend]
          omega

/-! ## A request that fails -/

/-- The allocations left for the old range after a request that failed. -/
def memoryAfter (free : List ResourceEntry) (qmax : ℕ) (mem : CallocResults) : CallocResults :=
  if Fits free qmax then
    if (qdmaCalloc mem).1 then (qdmaCalloc (qdmaCalloc mem).2).2 else (qdmaCalloc mem).2
  else mem

/-- Where a request that failed left a free range in two: at its begin, if it fits and only
the second allocation failed. -/
def cutPoints (free : List ResourceEntry) (qmax : ℕ) (qbase : ℤ) (mem : CallocResults) : Set ℤ :=
  {x | x = qbase ∧ Fits free qmax ∧ (qdmaCalloc mem).1 = true}

/-- A request that fails leaves the free list as it was, or one node cut in two. -/
theorem qdmaGetResourceNode_refused (hlo : 0 ≤ lo) (hhi : hi < 2 ^ 31)
    (hfree : FreeOk lo hi free) (hsafe : RequestSafe qmax qbase free)
    {l : List ResourceEntry} {mem mem' : CallocResults}
    (h : qdmaGetResourceNode qmax qbase free mem = (none, l, mem')) :
    mem' = memoryAfter free qmax mem ∧
      (cutPoints free qmax qbase mem = ∅ ∧ l = free ∨
        cutPoints free qmax qbase mem = {qbase} ∧ SplitAt qbase free l) := by
  unfold memoryAfter cutPoints
  rcases qdmaGetResourceNode_search hlo hhi hfree hsafe mem with
    ⟨hsearch, heq⟩ | ⟨best, base, hsearch, heq⟩
  · cases hsearch with
    | none hsmall =>
      cases heq.symm.trans h
      simp [hsmall]
  · obtain ⟨hlist, hl, hr⟩ := hsearch.bounds
    have hfits := hsearch.holdsRange.fits
    have hmem : best.node ∈ free := by
      rw [← hlist]
      simp [FreeNode.list]
    have hcut := fragmentFreeList_cutting hlo hhi (hfree.inside _ hmem) hl hr mem
    rw [← heq, h] at hcut
    cases hcut with
    | first _ hnone =>
      simp only [hfits, hnone, if_true, Bool.false_eq_true, if_false, and_false,
        Set.ofPred_false, true_and]
      exact Or.inl hlist
    | second l _ hsome hleft hsplit =>
      have hbase : base = qbase := by
        cases hsearch with
        | held => rfl
        | fits => exact absurd hleft (lt_irrefl _)
      subst hbase
      simp only [hfits, hsome, if_true, and_true, Set.ofPred_eq_eq_singleton, true_and]
      exact Or.inr (hlist ▸ hsplit)

namespace SplitAt

variable {x : ℤ} {free' : List ResourceEntry}

theorem length (h : SplitAt x free free') : free'.length = free.length + 1 := by
  obtain ⟨s, n, t, rfl, -, -, rfl⟩ := h
  simp only [List.length_append, List.length_cons]
  omega

theorem freeOk (h : SplitAt x free free') (hfree : FreeOk lo hi free) : FreeOk lo hi free' := by
  obtain ⟨s, n, t, rfl, hl, hr, rfl⟩ := h
  exact (splitNode_replaces hfree hl hr).1

theorem lt (h : SplitAt x free free') (hfree : FreeOk lo hi free) : lo < hi := by
  obtain ⟨s, n, t, rfl, hl, hr, rfl⟩ := h
  have hn := hfree.inside n (by simp)
  simp only [Inside] at hn
  omega

/-- The pieces cover what the node did. -/
theorem cover_eq (h : SplitAt x free free') :
    cover ResourceEntry.ids free' = cover ResourceEntry.ids free := by
  obtain ⟨s, n, t, rfl, hl, hr, rfl⟩ := h
  have hpieces : interval ResourceEntry.qbase ResourceEntry.qend
        (⟨n.qbase, (x - n.qbase).toNat⟩ : ResourceEntry) ∪
      interval ResourceEntry.qbase ResourceEntry.qend (⟨x, (n.qend - x).toNat⟩ : ResourceEntry) =
      interval ResourceEntry.qbase ResourceEntry.qend n := by
    ext y
    simp only [interval, Set.mem_union, Set.mem_Ico, ResourceEntry.qend] at hr ⊢
    omega
  simp only [cover_append, cover_cons, ← Set.union_assoc]
  rw [Set.union_assoc (cover ResourceEntry.ids s), hpieces]

/-- A coalesced list is cut at the point only. -/
theorem cutAt (h : SplitAt x free free')
    (hcoal : Coalesced ResourceEntry.qbase ResourceEntry.qend free) :
    CutAt ResourceEntry.qbase ResourceEntry.qend {x} free' := by
  obtain ⟨s, n, t, rfl, hl, hr, rfl⟩ := h
  have hend : (⟨n.qbase, (x - n.qbase).toNat⟩ : ResourceEntry).qend = x := by
    simp only [ResourceEntry.qend]
    omega
  have hsplit := hcoal.split (b := ⟨n.qbase, (x - n.qbase).toNat⟩)
    (c := ⟨x, (n.qend - x).toNat⟩) rfl hend
    (by simp only [ResourceEntry.qend] at hr ⊢; omega)
    (by simp only [ResourceEntry.qend] at hl ⊢; omega)
    (by simp only [ResourceEntry.qend] at hr ⊢; omega)
  rwa [hend] at hsplit

end SplitAt

/-! ## Asking for the old range again -/

/-- What `qdma_request_q_resource` leaves once it asked for the old range again. -/
def askAgain (entry : ResourceEntry) (free : List ResourceEntry) (mem : CallocResults) :
    ResourceEntry × List ResourceEntry :=
  match qdmaGetResourceNode entry.totalQ entry.qbase free mem with
  | (some old, _, _) => (old.node, old.before ++ old.after)
  | (none, free, _) => (⟨-1, 0⟩, free)

/-- The begin and the end of a range determine it. -/
theorem ends_injective : Function.Injective fun e : ResourceEntry => (e.qbase, e.qend) := by
  rintro ⟨a, n⟩ ⟨b, m⟩ heq
  simp only [ResourceEntry.qend, Prod.mk.injEq] at heq
  simp only [ResourceEntry.mk.injEq]
  omega

/-- Two lists that cover the same queues and are cut at the same points are equal. -/
theorem cutAt_unique {P : Set ℤ} {l m : List ResourceEntry}
    (hl : CutAt ResourceEntry.qbase ResourceEntry.qend P l)
    (hm : CutAt ResourceEntry.qbase ResourceEntry.qend P m)
    (hcover : cover ResourceEntry.ids l = cover ResourceEntry.ids m) : l = m :=
  List.map_injective_iff.mpr ends_injective (hl.unique hm hcover)

/-- The free list without a range that was cut out of a node. -/
def FreeNode.without (best : FreeNode) (e : ResourceEntry) : List ResourceEntry :=
  best.before ++ leftPart best.node e ++ (rightPart best.node e ++ best.after)

section Cutting

variable {best : FreeNode} {e : ResourceEntry} {P : Set ℤ}

/-- Something remains on the left of a range exactly if a free range ends where it begins. -/
theorem left_iff (h : CutAt ResourceEntry.qbase ResourceEntry.qend P best.list)
    (hpos : 0 < e.totalQ) (hl : best.node.qbase ≤ e.qbase) (hr : e.qend ≤ best.node.qend) :
    best.node.qbase < e.qbase ↔ e.qbase ∉ P ∧ ∃ a ∈ best.without e, a.qend = e.qbase := by
  obtain ⟨s, n, t⟩ := best
  dsimp only [FreeNode.list, FreeNode.without] at h hl hr ⊢
  obtain ⟨-, hnt, hcross⟩ := List.pairwise_append.mp h.apart
  have hlt : e.qbase < e.qend := by
    simp only [ResourceEntry.qend]
    omega
  constructor
  · intro hleft
    refine ⟨fun hP => h.whole n (by simp) _ hP ⟨hleft, hlt.trans_le hr⟩,
      ⟨n.qbase, (e.qbase - n.qbase).toNat⟩, ?_, ?_⟩
    · simp [leftPart, hleft]
    · simp only [ResourceEntry.qend]
      omega
  · rintro ⟨hP, a, ha, hend⟩
    by_contra hge
    have heq : n.qbase = e.qbase := le_antisymm hl (not_lt.mp hge)
    have hnone : leftPart n e = [] := if_neg hge
    rw [hnone, List.append_nil] at ha
    rcases List.mem_append.mp ha with ha | ha
    · rcases hcross a ha n List.mem_cons_self with hgap | ⟨-, hmeet⟩
      · omega
      · exact hP (hend ▸ hmeet)
    · rcases List.mem_append.mp ha with ha | ha
      · unfold rightPart at ha
        split at ha
        · rw [List.mem_singleton.mp ha] at hend
          simp only [ResourceEntry.qend] at hend hlt
          omega
        · cases ha
      · have hafter := (List.pairwise_cons.mp hnt).1 a ha
        have hapos := h.pos a (by simp [ha])
        omega

/-- Something remains on the right of a range exactly if a free range begins where it ends. -/
theorem right_iff (h : CutAt ResourceEntry.qbase ResourceEntry.qend P best.list)
    (hpos : 0 < e.totalQ) (hl : best.node.qbase ≤ e.qbase) (hr : e.qend ≤ best.node.qend) :
    e.qend < best.node.qend ↔ e.qend ∉ P ∧ ∃ a ∈ best.without e, a.qbase = e.qend := by
  obtain ⟨s, n, t⟩ := best
  dsimp only [FreeNode.list, FreeNode.without] at h hl hr ⊢
  obtain ⟨-, hnt, hcross⟩ := List.pairwise_append.mp h.apart
  have hlt : e.qbase < e.qend := by
    simp only [ResourceEntry.qend]
    omega
  constructor
  · intro hright
    refine ⟨fun hP => h.whole n (by simp) _ hP ⟨hl.trans_lt hlt, hright⟩,
      ⟨e.qend, (n.qend - e.qend).toNat⟩, ?_, rfl⟩
    simp [rightPart, hright]
  · rintro ⟨hP, a, ha, hbase⟩
    by_contra hge
    have heq : e.qend = n.qend := le_antisymm hr (not_lt.mp hge)
    have hnone : rightPart n e = [] := if_neg hge
    rw [hnone, List.nil_append] at ha
    rcases List.mem_append.mp ha with ha | ha
    · rcases List.mem_append.mp ha with ha | ha
      · have hbefore := hcross a ha n List.mem_cons_self
        have hapos := h.pos a (by simp [ha])
        omega
      · unfold leftPart at ha
        split at ha
        · rw [List.mem_singleton.mp ha] at hbase
          dsimp only at hbase
          omega
        · cases ha
    · rcases (List.pairwise_cons.mp hnt).1 a ha with hgap | ⟨-, hmeet⟩
      · omega
      · exact hP (heq ▸ hmeet)

/-- Cutting a range out of a list cuts it nowhere else. -/
theorem without_cutAt (h : CutAt ResourceEntry.qbase ResourceEntry.qend P best.list)
    (hpos : 0 < e.totalQ) (hl : best.node.qbase ≤ e.qbase) (hr : e.qend ≤ best.node.qend) :
    CutAt ResourceEntry.qbase ResourceEntry.qend P (best.without e) := by
  obtain ⟨hrest, -, hcarved⟩ := carve_rest hl hr
  have hpieces := h.replace (hcarved fun hzero => absurd hzero hpos.ne')
    fun a ha => ⟨(hrest a ha).1, (hrest a ha).2.1⟩
  unfold FreeNode.without
  simpa only [List.append_assoc] using hpieces

/-- What remains covers what the range does not. -/
theorem without_cover (h : Ascending ResourceEntry.qbase ResourceEntry.qend best.list)
    (hl : best.node.qbase ≤ e.qbase) (hr : e.qend ≤ best.node.qend) :
    cover ResourceEntry.ids (best.without e) = cover ResourceEntry.ids best.list \ e.ids := by
  obtain ⟨s, n, t⟩ := best
  dsimp only [FreeNode.list, FreeNode.without] at h hl hr ⊢
  have hdisjoint : (s ++ n :: t).Pairwise fun a b => Disjoint a.ids b.ids :=
    h.imp fun {a b} hab => Set.disjoint_left.mpr fun x hx hy =>
      absurd (hx.2.trans_le hab) hy.1.not_gt
  have hcut : CutFrom (s ++ n :: t) e.totalQ ⟨s ++ leftPart n e, e, rightPart n e ++ t⟩ n :=
    ⟨⟨s, t, rfl, rfl, rfl⟩, rfl, hl, hr⟩
  have hlist : Tiles ResourceEntry.ids (s ++ n :: t ++ [])
      (cover ResourceEntry.ids (s ++ n :: t)) := ⟨by simpa using hdisjoint, by simp⟩
  have htiles := hcut.tiles hlist
  rw [List.append_nil] at htiles
  obtain ⟨happart, -, hunion⟩ := tiles_cons.mp htiles
  rw [← hunion, Set.union_sdiff_left, sdiff_eq_left.mpr happart.symm]

end Cutting

/-- The old range comes back, and nothing else changes, exactly if no cut goes through it,
the free list was cut at the same points, and the allocations for what remains succeed. -/
theorem askAgain_range_iff (hlo : 0 ≤ lo) (hhi : hi < 2 ^ 31) {P : Set ℤ} {entry : ResourceEntry}
    {l : List ResourceEntry} (hl : FreeOk lo hi l)
    (hcut : CutAt ResourceEntry.qbase ResourceEntry.qend P l) (hin : Inside lo hi entry)
    (hpos : 0 < entry.totalQ) (hsub : entry.ids ⊆ cover ResourceEntry.ids l)
    (hfree : cover ResourceEntry.ids free = cover ResourceEntry.ids l \ entry.ids)
    (mem : CallocResults) :
    askAgain entry l mem = (entry, free) ↔
      (∀ x ∈ P, ¬ (entry.qbase < x ∧ x < entry.qend)) ∧
        CutAt ResourceEntry.qbase ResourceEntry.qend P free ∧
        Memory (entry.qbase ∉ P ∧ ∃ a ∈ free, a.qend = entry.qbase)
          (entry.qend ∉ P ∧ ∃ a ∈ free, a.qbase = entry.qend) mem := by
  have hlt : entry.qbase < entry.qend := by
    simp only [ResourceEntry.qend]
    omega
  have hq : 0 ≤ entry.qbase := hlo.trans hin.1
  have hsafe : RequestSafe entry.totalQ entry.qbase l := EntryOk.requestSafe hhi (Or.inr hin) l
  have hnothing : ∀ (rest : List ResourceEntry), (⟨-1, 0⟩, rest) ≠ (entry, free) := by
    intro rest heq
    rw [← (Prod.mk.inj heq).1] at hpos
    exact lt_irrefl _ hpos
  unfold askAgain
  rcases qdmaGetResourceNode_search hlo hhi hl hsafe mem with
    ⟨hsearch, heq⟩ | ⟨best, base, hsearch, heq⟩
  · -- no node is large enough, so a cut goes through the range
    rw [heq]
    refine ⟨fun hsame => absurd hsame (hnothing _), fun hkept => ?_⟩
    obtain ⟨p, hp, hpl, hpr⟩ := hcut.exists_of_subset hlt hsub hkept.1
    cases hsearch with
    | none hsmall => exact absurd (HoldsRange.fits ⟨p, hp, hpl, hpr⟩) hsmall
  · obtain ⟨rfl, hbl, hbr⟩ := hsearch.bounds
    have hmem : best.node ∈ best.list := by simp [FreeNode.list]
    have hcutting := fragmentFreeList_cutting hlo hhi (hl.inside _ hmem) hbl hbr mem
    rw [heq]
    generalize fragmentFreeList entry.totalQ base best mem = result at hcutting ⊢
    by_cases hbase : base = entry.qbase
    · subst hbase
      have hleft := left_iff hcut hpos hbl hbr
      have hright := right_iff hcut hpos hbl hbr
      have hthrough : ∀ x ∈ P, ¬ (entry.qbase < x ∧ x < entry.qend) := fun x hx hinside =>
        hcut.whole _ hmem x hx ⟨hbl.trans_lt hinside.1, hinside.2.trans_le hbr⟩
      have hcut' := without_cutAt hcut hpos hbl hbr
      have hcover' := without_cover hcut.ascending hbl hbr
      have hlist : CutAt ResourceEntry.qbase ResourceEntry.qend P free →
          best.without entry = free := fun hcutFree =>
        cutAt_unique hcut' hcutFree (hcover'.trans hfree.symm)
      have hmemory : best.without entry = free →
          (Memory (best.node.qbase < entry.qbase) (entry.qend < best.node.qend) mem ↔
            Memory (entry.qbase ∉ P ∧ ∃ a ∈ free, a.qend = entry.qbase)
              (entry.qend ∉ P ∧ ∃ a ∈ free, a.qbase = entry.qend) mem) := by
        intro hwithout
        rw [hleft, hright, hwithout]
      cases hcutting with
      | made l mem' hmade =>
        constructor
        · intro hsame
          have hwithout : best.without entry = free := (Prod.mk.inj hsame).2
          exact ⟨hthrough, hwithout ▸ hcut', (hmemory hwithout).mp hmade⟩
        · rintro ⟨-, hcutFree, -⟩
          exact Prod.ext rfl (hlist hcutFree)
      | first hmade =>
        refine ⟨fun hsame => absurd hsame (hnothing _), ?_⟩
        rintro ⟨-, hcutFree, hkept⟩
        exact absurd ((hmemory (hlist hcutFree)).mpr hkept) hmade
      | second l hmade =>
        refine ⟨fun hsame => absurd hsame (hnothing _), ?_⟩
        rintro ⟨-, hcutFree, hkept⟩
        exact absurd ((hmemory (hlist hcutFree)).mpr hkept) hmade
    · -- the range is taken elsewhere, since no node holds the old one
      have hnot : ¬ HoldsRange best.list entry.totalQ entry.qbase := by
        cases hsearch with
        | held => exact absurd rfl hbase
        | fits _ _ _ hnot => exact fun hholds => hnot ⟨hq, hholds⟩
      refine ⟨fun hsame => ?_, fun hkept => ?_⟩
      · cases hcutting with
        | made => exact absurd (congrArg ResourceEntry.qbase (Prod.mk.inj hsame).1) hbase
        | first => exact absurd hsame (hnothing _)
        | second => exact absurd hsame (hnothing _)
      · obtain ⟨p, hp, hpl, hpr⟩ := hcut.exists_of_subset hlt hsub hkept.1
        exact absurd ⟨p, hp, hpl, hpr⟩ hnot

/-- A range that comes back was held by the free list. -/
theorem askAgain_holds (hlo : 0 ≤ lo) (hhi : hi < 2 ^ 31) {l free' : List ResourceEntry}
    (hl : FreeOk lo hi l) {entry : ResourceEntry} (hentry : EntryOk lo hi entry)
    (hpos : 0 < entry.totalQ) {mem : CallocResults}
    (h : askAgain entry l mem = (entry, free')) : HoldsRange l entry.totalQ entry.qbase := by
  have hnothing : ∀ rest : List ResourceEntry, (⟨-1, 0⟩, rest) ≠ (entry, free') := by
    intro rest heq
    rw [← (Prod.mk.inj heq).1] at hpos
    exact lt_irrefl _ hpos
  unfold askAgain at h
  rcases qdmaGetResourceNode_search hlo hhi hl (hentry.requestSafe hhi l) mem with
    ⟨-, heq⟩ | ⟨best, base, hsearch, heq⟩
  · rw [heq] at h
    exact absurd h (hnothing _)
  · obtain ⟨rfl, hbl, hbr⟩ := hsearch.bounds
    have hmem : best.node ∈ best.list := by simp [FreeNode.list]
    have hcutting := fragmentFreeList_cutting hlo hhi (hl.inside _ hmem) hbl hbr mem
    rw [heq] at h
    generalize fragmentFreeList entry.totalQ base best mem = result at hcutting h
    cases hcutting with
    | made =>
      have hbase : base = entry.qbase := congrArg ResourceEntry.qbase (Prod.mk.inj h).1
      rw [← hbase]
      exact hsearch.holdsRange
    | first => exact absurd h (hnothing _)
    | second => exact absurd h (hnothing _)

/-! ## A function without queues -/

/-- Of a nonempty node something remains around an empty range. -/
theorem length_le_without {best : FreeNode} {e : ResourceEntry} (hzero : e.totalQ = 0)
    (hpos : 0 < best.node.totalQ) : best.list.length ≤ (best.without e).length := by
  have hend : e.qend = e.qbase := by simp [ResourceEntry.qend, hzero]
  have hpieces : 1 ≤ (leftPart best.node e).length + (rightPart best.node e).length := by
    unfold leftPart rightPart
    by_cases hleft : best.node.qbase < e.qbase
    · rw [if_pos hleft]
      simp
    · have hright : e.qend < best.node.qend := by
        simp only [ResourceEntry.qend] at hend ⊢
        omega
      rw [if_pos hright]
      simp
  simp only [FreeNode.list, FreeNode.without, List.length_append, List.length_cons]
  omega

/-- Asking for an empty range does not make the free list shorter. -/
theorem length_le_askAgain (hlo : 0 ≤ lo) (hhi : hi < 2 ^ 31) (hlt : lo < hi)
    {entry : ResourceEntry} (hentry : EntryOk lo hi entry) (hzero : entry.totalQ = 0)
    {l : List ResourceEntry} (hl : FreeOk lo hi l) (mem : CallocResults) :
    l.length ≤ (askAgain entry l mem).2.length := by
  unfold askAgain
  rcases qdmaGetResourceNode_search hlo hhi hl (hentry.requestSafe hhi l) mem with
    ⟨-, heq⟩ | ⟨best, base, hsearch, heq⟩
  · rw [heq]
  · obtain ⟨rfl, hbl, hbr⟩ := hsearch.bounds
    have hmem : best.node ∈ best.list := by simp [FreeNode.list]
    have hcutting := fragmentFreeList_cutting hlo hhi (hl.inside _ hmem) hbl hbr mem
    rw [heq]
    generalize fragmentFreeList entry.totalQ base best mem = result at hcutting ⊢
    cases hcutting with
    | made => exact length_le_without hzero (hl.pos hlt _ hmem)
    | first => exact le_rfl
    | second l _ _ _ hsplit =>
      have hlength := hsplit.length
      dsimp only
      omega

/-- An empty range at an end of a node leaves the node. -/
theorem without_edge {best : FreeNode} {e : ResourceEntry} (hzero : e.totalQ = 0)
    (hpos : 0 < best.node.totalQ)
    (hedge : e.qbase = best.node.qbase ∨ e.qbase = best.node.qend) :
    best.without e = best.list := by
  obtain ⟨s, ⟨b, k⟩, t⟩ := best
  obtain ⟨c, j⟩ := e
  dsimp only at hzero hpos hedge
  subst hzero
  simp only [FreeNode.without, FreeNode.list, leftPart, rightPart, ResourceEntry.qend,
    Nat.cast_zero, add_zero] at hedge ⊢
  rcases hedge with rfl | rfl
  · have hright : c < c + (k : ℤ) := by omega
    have hsize : (c + (k : ℤ) - c).toNat = k := by omega
    rw [if_neg (lt_irrefl _), if_pos hright, hsize]
    simp
  · have hleft : b < b + (k : ℤ) := by omega
    have hsize : (b + (k : ℤ) - b).toNat = k := by omega
    rw [if_pos hleft, if_neg (lt_irrefl _), hsize]
    simp

/-- An empty range strictly inside a node leaves two. -/
theorem length_without_inside {best : FreeNode} {e : ResourceEntry} (hzero : e.totalQ = 0)
    (hl : best.node.qbase < e.qbase) (hr : e.qbase < best.node.qend) :
    (best.without e).length = best.list.length + 1 := by
  have hright : e.qend < best.node.qend := by
    simpa [ResourceEntry.qend, hzero] using hr
  simp only [FreeNode.without, FreeNode.list, leftPart, rightPart, if_pos hl, if_pos hright,
    List.length_append, List.length_cons, List.length_nil]
  omega

/-- A function without queues and the free list stay as they are exactly if nothing can be cut
out of a free range for it, or the base recorded for it is an end of one. -/
theorem askAgain_empty_iff (hlo : 0 ≤ lo) (hhi : hi < 2 ^ 31) {entry : ResourceEntry}
    (hentry : EntryOk lo hi entry) (hzero : entry.totalQ = 0) (hfree : FreeOk lo hi free)
    (mem : CallocResults) :
    askAgain entry free mem = (entry, free) ↔
      (entry.qbase < 0 ∧ ∀ e ∈ free, 0 < e.totalQ ∧ (qdmaCalloc mem).1 = false) ∨
      (0 ≤ entry.qbase ∧
        (∃ e ∈ free, 0 < e.totalQ ∧ (e.qbase = entry.qbase ∨ e.qend = entry.qbase)) ∧
        (qdmaCalloc mem).1 = true) := by
  have hbase : entry.qbase < 0 → entry = ⟨-1, 0⟩ := by
    intro hneg
    rcases hentry with rfl | hin
    · rfl
    · exact absurd hin.1 (hneg.trans_le hlo).not_ge
  have hnone : ∀ rest : List ResourceEntry, (⟨-1, 0⟩, rest) = (entry, free) →
      entry.qbase < 0 := by
    intro rest heq
    rw [← (Prod.mk.inj heq).1]
    decide
  have hend : entry.qbase + (entry.totalQ : ℤ) = entry.qbase := by simp [hzero]
  unfold askAgain
  rcases qdmaGetResourceNode_search hlo hhi hfree (hentry.requestSafe hhi free) mem with
    ⟨hsearch, heq⟩ | ⟨best, base, hsearch, heq⟩
  · -- the free list is empty
    have hempty : ∀ e ∈ free, False := by
      cases hsearch with
      | none hsmall => exact fun e he => hsmall ⟨e, he, by omega⟩
    rw [heq]
    constructor
    · exact fun hsame => Or.inl ⟨hnone _ hsame, fun e he => (hempty e he).elim⟩
    · rintro (⟨hneg, -⟩ | ⟨-, ⟨e, he, -⟩, -⟩)
      · rw [hbase hneg]
      · exact (hempty e he).elim
  · obtain ⟨rfl, hbl, hbr⟩ := hsearch.bounds
    have hmem : best.node ∈ best.list := by simp [FreeNode.list]
    have hnode := hfree.inside _ hmem
    have hcutting := fragmentFreeList_cutting hlo hhi hnode hbl hbr mem
    rw [heq]
    generalize fragmentFreeList entry.totalQ base best mem = result at hcutting ⊢
    by_cases hheld : base = entry.qbase
    · -- the base lies in the node or at one of its ends
      subst hheld
      have hq : 0 ≤ entry.qbase := hlo.trans (hnode.1.trans hbl)
      rw [hend] at hbr
      have hedge : (∃ e ∈ best.list, 0 < e.totalQ ∧
          (e.qbase = entry.qbase ∨ e.qend = entry.qbase)) ↔
          0 < best.node.totalQ ∧
            (entry.qbase = best.node.qbase ∨ entry.qbase = best.node.qend) := by
        constructor
        · rintro ⟨e, he, hepos, hee⟩
          have hein := hfree.inside e he
          have hlt : lo < hi := by
            simp only [Inside, ResourceEntry.qend] at hein
            omega
          refine ⟨hfree.pos hlt _ hmem, ?_⟩
          by_contra hinner
          have hne : e ≠ best.node := by
            rintro rfl
            exact hinner (hee.imp Eq.symm Eq.symm)
          have horder : e.qend ≤ best.node.qbase ∨ best.node.qend ≤ e.qbase := by
            obtain ⟨-, hnt, hcross⟩ := List.pairwise_append.mp hfree.ascending
            rcases List.mem_append.mp he with he | he
            · exact Or.inl (hcross e he _ List.mem_cons_self)
            · rcases List.mem_cons.mp he with rfl | he
              · exact absurd rfl hne
              · exact Or.inr ((List.pairwise_cons.mp hnt).1 e he)
          simp only [ResourceEntry.qend] at hee horder hbr hinner
          omega
        · rintro ⟨hpos, hee⟩
          exact ⟨best.node, hmem, hpos, hee.imp Eq.symm Eq.symm⟩
      rw [hedge]
      have hqend : entry.qend = entry.qbase := hend
      have hneeds : 0 < best.node.totalQ →
          (entry.qbase = best.node.qbase ∨ entry.qbase = best.node.qend) →
          (Memory (best.node.qbase < entry.qbase) (entry.qend < best.node.qend) mem ↔
            (qdmaCalloc mem).1 = true) := by
        intro hpos hee
        have hwide : best.node.qbase < best.node.qend := by
          simp only [ResourceEntry.qend]
          omega
        constructor
        · intro hmade
          exact hmade.1 (by omega)
        · intro hok
          exact ⟨fun _ => hok, fun hboth => by omega⟩
      cases hcutting with
      | made l mem' hmade =>
        constructor
        · intro hsame
          have hlist : best.without entry = best.list := (Prod.mk.inj hsame).2
          right
          have hpos : 0 < best.node.totalQ := by
            by_contra hnot
            have hlength := congrArg List.length hlist
            have hleft : ¬ best.node.qbase < entry.qbase := by
              simp only [ResourceEntry.qend] at hbr
              omega
            have hright : ¬ entry.qend < best.node.qend := by
              simp only [ResourceEntry.qend] at hbr hqend ⊢
              omega
            simp only [FreeNode.without, FreeNode.list, leftPart, rightPart, if_neg hleft,
              if_neg hright, List.length_append, List.length_cons, List.length_nil] at hlength
            omega
          have hee : entry.qbase = best.node.qbase ∨ entry.qbase = best.node.qend := by
            by_contra hinner
            have hleft : best.node.qbase < entry.qbase := by omega
            have hright : entry.qbase < best.node.qend := by omega
            have hlength := length_without_inside hzero hleft hright
            rw [hlist] at hlength
            omega
          exact ⟨hq, ⟨hpos, hee⟩, (hneeds hpos hee).mp hmade⟩
        · rintro (⟨hneg, -⟩ | ⟨-, ⟨hpos, hee⟩, -⟩)
          · exact absurd hq hneg.not_ge
          · exact Prod.ext rfl (without_edge hzero hpos hee)
      | first hmade =>
        refine ⟨fun hsame => absurd hq (hnone _ hsame).not_ge, ?_⟩
        rintro (⟨hneg, -⟩ | ⟨-, ⟨hpos, hee⟩, hok⟩)
        · exact absurd hq hneg.not_ge
        · exact absurd ((hneeds hpos hee).mpr hok) hmade
      | second l hmade =>
        refine ⟨fun hsame => absurd hq (hnone _ hsame).not_ge, ?_⟩
        rintro (⟨hneg, -⟩ | ⟨-, ⟨hpos, hee⟩, hok⟩)
        · exact absurd hq hneg.not_ge
        · exact absurd ((hneeds hpos hee).mpr hok) hmade
    · -- no node holds the base, so the search takes the begin of a node
      have hstart : base = best.node.qbase ∧
          ¬ (0 ≤ entry.qbase ∧ HoldsRange best.list entry.totalQ entry.qbase) := by
        cases hsearch with
        | held => exact absurd rfl hheld
        | fits _ _ _ hnot => exact ⟨rfl, hnot⟩
      obtain ⟨rfl, hnot⟩ := hstart
      have hright : ¬ (0 ≤ entry.qbase ∧ (∃ e ∈ best.list, 0 < e.totalQ ∧
          (e.qbase = entry.qbase ∨ e.qend = entry.qbase)) ∧ (qdmaCalloc mem).1 = true) := by
        rintro ⟨hq, ⟨e, he, -, hee⟩, -⟩
        refine hnot ⟨hq, e, he, ?_⟩
        rw [hend]
        simp only [ResourceEntry.qend] at hee ⊢
        omega
      rw [or_iff_left hright]
      cases hcutting with
      | made l mem' hmade =>
        refine ⟨fun hsame => absurd (congrArg ResourceEntry.qbase (Prod.mk.inj hsame).1) hheld,
          fun hkept => ?_⟩
        obtain ⟨hpos, hfail⟩ := hkept.2 _ hmem
        have hok := hmade.1 (Or.inr (by simp only [ResourceEntry.qend, hzero]; omega))
        rw [hfail] at hok
        cases hok
      | first hmade hfail =>
        constructor
        · intro hsame
          refine ⟨hnone _ hsame, fun e he => ⟨?_, hfail⟩⟩
          -- something was needed, so the node and with it the master has queues
          have hpos : 0 < best.node.totalQ := by
            by_contra hnot
            refine hmade ⟨fun hneed => ?_, fun hneed => ?_⟩ <;>
              simp only [ResourceEntry.qend, hzero] at hneed <;> omega
          have hlt : lo < hi := by
            simp only [Inside, ResourceEntry.qend] at hnode
            omega
          exact hfree.pos hlt e he
        · rintro ⟨hneg, -⟩
          rw [hbase hneg]
      | second l _ _ hleft => exact absurd hleft (lt_irrefl _)

/-! ## A refused request -/

/-- The free list once the range of a function went back. -/
def givenBack (entry : ResourceEntry) (free : List ResourceEntry) : List ResourceEntry :=
  if entry.totalQ = 0 then free else defragment (insertFree entry free)

/-- The allocations left once the range of a function went back. -/
def memoryLeft (entry : ResourceEntry) (mem : CallocResults) : CallocResults :=
  if entry.totalQ = 0 then mem else (qdmaCalloc mem).2

/-- A function without queues, and the free list, survive a refused request: the request cuts no
node in two, and then either no node can be cut for a base of its own, or the base recorded
for it is an end of a free range. -/
structure EmptyKept (entry : ResourceEntry) (free : List ResourceEntry) (qmax : ℕ) (qbase : ℤ)
    (mem : CallocResults) : Prop where
  whole : cutPoints free qmax qbase mem = ∅
  kept : (entry.qbase < 0 ∧
      ∀ e ∈ free, 0 < e.totalQ ∧ (qdmaCalloc (memoryAfter free qmax mem)).1 = false) ∨
    (0 ≤ entry.qbase ∧
      (∃ e ∈ free, 0 < e.totalQ ∧ (e.qbase = entry.qbase ∨ e.qend = entry.qbase)) ∧
      (qdmaCalloc (memoryAfter free qmax mem)).1 = true)

/-- The queues of a function, and the free list, survive a refused request: the queues go back,
where the request leaves a free range in two is not inside them, the free list was cut there
before and nowhere else, and the allocations that cut the queues out again succeed. -/
structure RangeKept (entry : ResourceEntry) (free : List ResourceEntry) (qmax : ℕ) (qbase : ℤ)
    (mem : CallocResults) : Prop where
  returned : (qdmaCalloc mem).1 = true
  apart : ∀ x ∈ cutPoints (givenBack entry free) qmax qbase (qdmaCalloc mem).2,
    ¬ (entry.qbase < x ∧ x < entry.qend)
  merged : CutAt ResourceEntry.qbase ResourceEntry.qend
    (cutPoints (givenBack entry free) qmax qbase (qdmaCalloc mem).2) free
  restored : Memory
    (entry.qbase ∉ cutPoints (givenBack entry free) qmax qbase (qdmaCalloc mem).2 ∧
      ∃ a ∈ free, a.qend = entry.qbase)
    (entry.qend ∉ cutPoints (givenBack entry free) qmax qbase (qdmaCalloc mem).2 ∧
      ∃ a ∈ free, a.qbase = entry.qend)
    (memoryAfter (givenBack entry free) qmax (qdmaCalloc mem).2)

/-- A refused request leaves the range of the function and the free list as they were. -/
def PutsBack (entry : ResourceEntry) (free : List ResourceEntry) (qmax : ℕ) (qbase : ℤ)
    (mem : CallocResults) : Prop :=
  if entry.totalQ = 0 then EmptyKept entry free qmax qbase mem
  else RangeKept entry free qmax qbase mem

/-- A refused request asked for queues, did not get them, and asked for the old range. -/
theorem qdmaRequestQResource_refused {entry entry₁ entry' : ResourceEntry}
    {free₁ free' : List ResourceEntry} {rv : ℤ} {mem mem₁ mem' : CallocResults}
    (hsubmit : qdmaSubmitToFreeList entry free mem = (entry₁, free₁, mem₁))
    (h : qdmaRequestQResource entry qmax qbase free mem = (rv, entry', free', mem'))
    (hrv : rv < 0) :
    0 < qmax ∧ ∃ l mem₂, qdmaGetResourceNode qmax qbase free₁ mem₁ = (none, l, mem₂) ∧
      askAgain entry l mem₂ = (entry', free') := by
  unfold qdmaRequestQResource at h
  rw [hsubmit] at h
  dsimp only at h
  by_cases hzero : qmax = 0
  · rw [if_pos hzero] at h
    cases h
    exact absurd hrv (lt_irrefl _)
  · rw [if_neg hzero] at h
    refine ⟨Nat.pos_of_ne_zero hzero, ?_⟩
    rcases hnode : qdmaGetResourceNode qmax qbase free₁ mem₁ with ⟨_ | new, l, mem₂⟩
    · rw [hnode] at h
      dsimp only at h
      refine ⟨l, mem₂, rfl, ?_⟩
      unfold askAgain
      rcases hold : qdmaGetResourceNode entry.totalQ entry.qbase l mem₂ with ⟨_ | old, l', mem₃⟩
      · rw [hold] at h
        cases h
        rfl
      · rw [hold] at h
        cases h
        rfl
    · rw [hnode] at h
      cases h
      exact absurd hrv (by decide)

/-- A refused request of a function without queues. -/
theorem Held.empty_iff (hlo : 0 ≤ lo) (hhi : hi < 2 ^ 31) {entry entry' : ResourceEntry}
    {free' others : List ResourceEntry} (hheld : Held lo hi others entry free)
    (hzero : entry.totalQ = 0) (hsafe : RequestSafe qmax qbase free) {rv : ℤ}
    {mem mem' : CallocResults}
    (h : qdmaRequestQResource entry qmax qbase free mem = (rv, entry', free', mem'))
    (hrv : rv < 0) :
    (entry', free') = (entry, free) ↔ EmptyKept entry free qmax qbase mem := by
  have hsubmit : qdmaSubmitToFreeList entry free mem = (entry, free, mem) := by
    unfold qdmaSubmitToFreeList
    rw [if_pos hzero]
  obtain ⟨-, l, mem₂, hnode, hagain⟩ := qdmaRequestQResource_refused hsubmit h hrv
  obtain ⟨rfl, hcut⟩ := qdmaGetResourceNode_refused hlo hhi hheld.freeOk hsafe hnode
  rw [← hagain]
  rcases hcut with ⟨hwhole, rfl⟩ | ⟨hcut, hsplit⟩
  · rw [askAgain_empty_iff hlo hhi hheld.entryOk hzero hheld.freeOk]
    exact ⟨fun hkept => ⟨hwhole, hkept⟩, EmptyKept.kept⟩
  · refine ⟨fun hsame => ?_, fun hkept => ?_⟩
    · have hlength := length_le_askAgain hlo hhi (hsplit.lt hheld.freeOk) hheld.entryOk hzero
        (hsplit.freeOk hheld.freeOk) (memoryAfter free qmax mem)
      rw [hsame, hsplit.length] at hlength
      dsimp only at hlength
      omega
    · have hwhole := hkept.whole
      rw [hcut] at hwhole
      exact absurd hwhole (Set.singleton_ne_empty _)

/-- A refused request of a function with queues. -/
theorem Held.range_iff (hlo : 0 ≤ lo) (hhi : hi < 2 ^ 31) {entry entry' : ResourceEntry}
    {free' others : List ResourceEntry} (hheld : Held lo hi others entry free)
    (hpos : 0 < entry.totalQ) {rv : ℤ} {mem mem' : CallocResults}
    (hsafe : RequestSafe qmax qbase (qdmaSubmitToFreeList entry free mem).2.1)
    (h : qdmaRequestQResource entry qmax qbase free mem = (rv, entry', free', mem'))
    (hrv : rv < 0) :
    (entry', free') = (entry, free) ↔ RangeKept entry free qmax qbase mem := by
  have hapart := hheld.apart
  have hin := hheld.entryOk.inside hpos
  have hown : Tiles ResourceEntry.ids (entry :: (free ++ []))
      (cover ResourceEntry.ids (entry :: free)) := ⟨hapart.sublist (by simp), by simp⟩
  obtain ⟨e₁, f₁, hspec, hfree₁, -, -, htiles, -, hcoal⟩ :=
    qdmaSubmitToFreeList_spec hlo hhi hheld.freeOk hheld.entryOk hown
  have hsubmit : qdmaSubmitToFreeList entry free mem =
      if (qdmaCalloc mem).1 then (⟨-1, 0⟩, givenBack entry free, (qdmaCalloc mem).2)
      else (entry, free, (qdmaCalloc mem).2) := by
    unfold qdmaSubmitToFreeList givenBack qdmaFreeEntryCreate
    rw [if_neg hpos.ne', if_neg hpos.ne']
    rcases qdmaCalloc mem with ⟨_ | _, rest⟩ <;> rfl
  have hgiven : givenBack entry free = f₁ := by
    unfold qdmaSubmitToFreeList at hspec
    rw [if_neg hpos.ne'] at hspec
    unfold givenBack
    rw [if_neg hpos.ne']
    exact congrArg (·.2.1) hspec
  have happart : Disjoint entry.ids (cover ResourceEntry.ids free) := by
    refine Set.disjoint_left.mpr fun x hx hcover => ?_
    obtain ⟨e, he, hxe⟩ := mem_cover.mp hcover
    exact Set.disjoint_left.mp
      ((List.pairwise_cons.mp hapart).1 e (List.mem_append_left _ he)) hx hxe
  have hcover : cover ResourceEntry.ids f₁ = entry.ids ∪ cover ResourceEntry.ids free := by
    have hunion := htiles.2
    rwa [List.append_nil, cover_cons] at hunion
  cases hok : (qdmaCalloc mem).1 with
  | false =>
    -- the range does not go back, so the free list does not hold it
    rw [hok] at hsubmit
    rw [hsubmit] at hsafe
    obtain ⟨-, l, mem₂, hnode, hagain⟩ := qdmaRequestQResource_refused hsubmit h hrv
    obtain ⟨-, hcut⟩ := qdmaGetResourceNode_refused hlo hhi hheld.freeOk hsafe hnode
    refine ⟨fun hsame => ?_, fun hkept => ?_⟩
    · exfalso
      rw [hsame] at hagain
      have hl : FreeOk lo hi l ∧ cover ResourceEntry.ids l = cover ResourceEntry.ids free := by
        rcases hcut with ⟨-, rfl⟩ | ⟨-, hsplit⟩
        · exact ⟨hheld.freeOk, rfl⟩
        · exact ⟨hsplit.freeOk hheld.freeOk, hsplit.cover_eq⟩
      have hholds := askAgain_holds hlo hhi hl.1 hheld.entryOk hpos hagain
      have hmem : entry.qbase ∈ cover ResourceEntry.ids l := by
        obtain ⟨e, he, hel, her⟩ := hholds
        refine mem_cover.mpr ⟨e, he, hel, ?_⟩
        simp only [ResourceEntry.qend] at her ⊢
        omega
      rw [hl.2] at hmem
      refine Set.disjoint_left.mp happart ⟨le_rfl, ?_⟩ hmem
      simp only [ResourceEntry.qend]
      omega
    · rw [hkept.returned] at hok
      cases hok
  | true =>
    rw [hok, hgiven] at hsubmit
    rw [hsubmit] at hsafe
    obtain ⟨-, l, mem₂, hnode, hagain⟩ := qdmaRequestQResource_refused hsubmit h hrv
    obtain ⟨rfl, hcut⟩ := qdmaGetResourceNode_refused hlo hhi hfree₁ hsafe hnode
    have hl : FreeOk lo hi l ∧ cover ResourceEntry.ids l = cover ResourceEntry.ids f₁ ∧
        CutAt ResourceEntry.qbase ResourceEntry.qend
          (cutPoints f₁ qmax qbase (qdmaCalloc mem).2) l := by
      rcases hcut with ⟨hwhole, rfl⟩ | ⟨hcut, hsplit⟩
      · rw [hwhole]
        exact ⟨hfree₁, rfl, cutAt_empty_iff.mpr (hcoal hpos)⟩
      · rw [hcut]
        exact ⟨hsplit.freeOk hfree₁, hsplit.cover_eq, hsplit.cutAt (hcoal hpos)⟩
    obtain ⟨hfree₂, hcover₂, hcutAt⟩ := hl
    have hsub : entry.ids ⊆ cover ResourceEntry.ids l := by
      rw [hcover₂, hcover]
      exact Set.subset_union_left
    have hrest : cover ResourceEntry.ids free = cover ResourceEntry.ids l \ entry.ids := by
      rw [hcover₂, hcover, Set.union_sdiff_left, sdiff_eq_left.mpr happart.symm]
    have hiff := askAgain_range_iff hlo hhi hfree₂ hcutAt hin hpos hsub hrest
      (memoryAfter f₁ qmax (qdmaCalloc mem).2)
    rw [← hagain, hiff, ← hgiven]
    constructor
    · rintro ⟨hthrough, hmerged, hrestored⟩
      exact ⟨hok, hthrough, hmerged, hrestored⟩
    · exact fun hkept => ⟨hkept.apart, hkept.merged, hkept.restored⟩

end OnicDriver.Resource
