import OnicDriver.Resource.Faults

/-!
# Where a granted range begins

A request that is met begins where it asked to if a free range holds it, and
else at the last of the smallest free ranges that fit. This also holds if
allocations fail, as long as the request is met.
-/

namespace OnicDriver.Resource

open Lib

/-- A free range holds the requested one. -/
def HoldsRange (free : List ResourceEntry) (qmax : ℕ) (qbase : ℤ) : Prop :=
  ∃ e ∈ free, e.qbase ≤ qbase ∧ qbase + qmax ≤ e.qend

/-- `base` begins the last of the smallest free ranges that fit. -/
def LastSmallestFit (free : List ResourceEntry) (qmax : ℕ) (base : ℤ) : Prop :=
  ∃ s n t, free = s ++ n :: t ∧ n.qbase = base ∧ qmax ≤ n.totalQ ∧
    (∀ e ∈ s, qmax ≤ e.totalQ → n.totalQ ≤ e.totalQ) ∧
    ∀ e ∈ t, qmax ≤ e.totalQ → n.totalQ < e.totalQ

/-- Where a range begins that is granted out of a free list. -/
structure GrantedAt (free : List ResourceEntry) (qmax : ℕ) (qbase base : ℤ) : Prop where
  held : 0 ≤ qbase → HoldsRange free qmax qbase → base = qbase
  other : ¬ (0 ≤ qbase ∧ HoldsRange free qmax qbase) → LastSmallestFit free qmax base

variable {lo hi : ℤ} {free : List ResourceEntry} {qmax : ℕ} {qbase : ℤ}

/-- The free ranges have one last smallest fit. -/
theorem LastSmallestFit.unique {a b : ℤ} (ha : LastSmallestFit free qmax a)
    (hb : LastSmallestFit free qmax b) : a = b := by
  obtain ⟨s, n, t, rfl, rfl, hn, hs, ht⟩ := ha
  obtain ⟨s', n', t', heq, rfl, hn', hs', ht'⟩ := hb
  rcases List.append_eq_append_iff.mp heq with ⟨l, rfl, hl⟩ | ⟨l, rfl, hl⟩
  · cases l with
    | nil =>
      cases hl
      rfl
    | cons x l =>
      -- the second node comes after the first
      cases hl
      have hlt := ht n' (by simp) hn'
      have hle := hs' n (by simp) hn
      omega
  · cases l with
    | nil =>
      cases hl
      rfl
    | cons x l =>
      cases hl
      have hlt := ht' n (by simp) hn
      have hle := hs n' (by simp) hn'
      omega

/-- The loop looks for the last of the smallest nodes: `best` is the one among those passed. -/
def LastBest (qmax : ℕ) (seen : List ResourceEntry) : Option FreeNode → Prop
  | none => ∀ e ∈ seen, e.totalQ < qmax
  | some z => ∃ t, seen = z.before ++ z.node :: t ∧ qmax ≤ z.node.totalQ ∧
      (∀ e ∈ z.before, qmax ≤ e.totalQ → z.node.totalQ ≤ e.totalQ) ∧
      ∀ e ∈ t, qmax ≤ e.totalQ → z.node.totalQ < e.totalQ

theorem findBestFit_lastBest {best : Option FreeNode} {before l : List ResourceEntry}
    (h : LastBest qmax before best) :
    LastBest qmax (before ++ l) (findBestFit qmax best before l) := by
  induction l generalizing best before with
  | nil => simpa [findBestFit] using h
  | cons node rest ih =>
    unfold findBestFit
    have hstep : before ++ node :: rest = (before ++ [node]) ++ rest := by simp
    rw [hstep]
    apply ih
    cases best with
    | none =>
      have hseen : ∀ e ∈ before, e.totalQ < qmax := h
      by_cases hfit : qmax ≤ node.totalQ
      · rw [if_pos ⟨hfit, by simp⟩]
        refine ⟨[], rfl, hfit, fun e he hfits => ?_, by simp⟩
        exact absurd (hseen e he) (not_lt.mpr hfits)
      · rw [if_neg fun hbetter => hfit hbetter.1]
        intro e he
        rcases List.mem_append.mp he with he | he
        · exact hseen e he
        · rw [List.mem_singleton.mp he]
          exact not_le.mp hfit
    | some z =>
      obtain ⟨t, rfl, hz, hbefore, ht⟩ := h
      by_cases hbetter : qmax ≤ node.totalQ ∧ node.totalQ ≤ z.node.totalQ
      · rw [if_pos (by simpa using hbetter)]
        refine ⟨[], rfl, hbetter.1, fun e he hfits => ?_, by simp⟩
        rcases List.mem_append.mp he with he | he
        · exact hbetter.2.trans (hbefore e he hfits)
        · rcases List.mem_cons.mp he with rfl | he
          · exact hbetter.2
          · exact hbetter.2.trans (ht e he hfits).le
      · rw [if_neg (by simpa using hbetter)]
        refine ⟨t ++ [node], by simp, hz, hbefore, fun e he hfits => ?_⟩
        rcases List.mem_append.mp he with he | he
        · exact ht e he hfits
        · rw [List.mem_singleton.mp he] at hfits ⊢
          by_contra hle
          exact hbetter ⟨hfits, not_lt.mp hle⟩

/-- The second loop ends with the last smallest fit. -/
theorem findBestFit_lastSmallestFit {best : FreeNode}
    (h : findBestFit qmax none [] free = some best) :
    LastSmallestFit free qmax best.node.qbase := by
  have hbest : LastBest qmax free (findBestFit qmax none [] free) :=
    @findBestFit_lastBest _ _ [] _ (by simp [LastBest])
  rw [h] at hbest
  obtain ⟨t, hlist, hfit, hbefore, hafter⟩ := hbest
  exact ⟨best.before, best.node, t, hlist, rfl, hfit, hbefore, hafter⟩

/-- A cut that succeeds is the one that would be made with all the memory. -/
theorem fragmentFreeList_some {best cut : FreeNode} {l : List ResourceEntry}
    {mem mem' : CallocResults} (h : fragmentFreeList qmax qbase best mem = (some cut, l, mem')) :
    (fragmentFreeList qmax qbase best []).1 = some cut := by
  have hnil : qdmaCalloc [] = (true, []) := rfl
  unfold fragmentFreeList at h ⊢
  dsimp only at h ⊢
  simp only [qdmaFreeEntryCreate, hnil]
  cases hcalloc : qdmaCalloc mem with
  | mk ok rest =>
    simp only [qdmaFreeEntryCreate, hcalloc] at h
    split_ifs at h ⊢
    · cases h
      rfl
    · cases ok with
      | false => cases h
      | true =>
        cases h
        rfl
    · cases ok with
      | false => cases h
      | true =>
        cases h
        rfl
    · cases ok with
      | false => cases h
      | true =>
        dsimp only at h
        cases hright : qdmaCalloc rest with
        | mk ok rest' =>
          rw [hright] at h
          cases ok with
          | false => cases h
          | true =>
            cases h
            rfl

/-- A cut that succeeds is the range that was asked for. -/
theorem fragmentFreeList_node (hlo : 0 ≤ lo) (hhi : hi < 2 ^ 31) {best cut : FreeNode}
    {l : List ResourceEntry} {mem mem' : CallocResults} (hn : Inside lo hi best.node)
    (hl : best.node.qbase ≤ qbase) (hr : qbase + qmax ≤ best.node.qend)
    (h : fragmentFreeList qmax qbase best mem = (some cut, l, mem')) :
    cut.node = ⟨qbase, qmax⟩ := by
  have hcut := fragmentFreeList_some h
  obtain ⟨heq, -⟩ := fragmentFreeList_eq (s := best.before) (t := best.after) hlo hhi hn hl hr
  rw [heq] at hcut
  cases hcut
  rfl

/-- A node that `qdma_get_resource_node` finds is of the size that was asked for, where the search
puts it. -/
theorem qdmaGetResourceNode_granted (hlo : 0 ≤ lo) (hhi : hi < 2 ^ 31) (hfree : FreeOk lo hi free)
    (hwrap : 0 ≤ qbase → qbase + qmax < 2 ^ 32) {cut : FreeNode} {l : List ResourceEntry}
    {mem mem' : CallocResults}
    (h : qdmaGetResourceNode qmax qbase free mem = (some cut, l, mem')) :
    cut.node.totalQ = qmax ∧ GrantedAt free qmax qbase cut.node.qbase := by
  unfold qdmaGetResourceNode at h
  cases hreq : (if qbase ≥ 0 then findRequested qmax qbase [] free else none) with
  | some best =>
    rw [hreq] at h
    split at hreq
    · rename_i hq
      obtain ⟨hlist, hholds⟩ := findRequested_some hreq
      have hmem : best.node ∈ free := by
        have hnode : best.node ∈ best.list := by simp [FreeNode.list]
        rwa [hlist] at hnode
      obtain ⟨hl, hr⟩ :=
        (holdsRequest_iff hlo hhi (hfree.inside _ hmem) hq (hwrap hq)).mp hholds
      have hnode := fragmentFreeList_node hlo hhi (hfree.inside _ hmem) hl hr h
      rw [hnode]
      exact ⟨rfl, fun _ _ => rfl, fun hnot => absurd ⟨hq, _, hmem, hl, hr⟩ hnot⟩
    · cases hreq
  | none =>
    rw [hreq] at h
    have hnot : ¬ (0 ≤ qbase ∧ HoldsRange free qmax qbase) := by
      rintro ⟨hq, e, he, hholds⟩
      rw [if_pos hq] at hreq
      have htest := findRequested_none hreq e he
      rw [(holdsRequest_iff hlo hhi (hfree.inside e he) hq (hwrap hq)).mpr hholds] at htest
      cases htest
    cases hfit : findBestFit qmax none [] free with
    | none =>
      rw [hfit] at h
      cases h
    | some best =>
      rw [hfit] at h
      have hlast := findBestFit_lastSmallestFit hfit
      have hbest : IsBestFit qmax free free (findBestFit qmax none [] free) :=
        findBestFit_spec (l := free) (by simp [IsBestFit])
      rw [hfit] at hbest
      obtain ⟨hlist, hsize, -⟩ := hbest
      have hmem : best.node ∈ free := by
        rw [← hlist]
        simp [FreeNode.list]
      have hr : best.node.qbase + qmax ≤ best.node.qend := by
        simp only [ResourceEntry.qend]
        omega
      have hnode := fragmentFreeList_node hlo hhi (hfree.inside _ hmem) le_rfl hr h
      rw [hnode]
      exact ⟨rfl, fun hq hholds => absurd ⟨hq, hholds⟩ hnot, fun _ => hlast⟩

/-- A request that is met grants a range of the size that was asked for, out of the free list that
the own range went back to. -/
theorem qdmaRequestQResource_granted (hlo : 0 ≤ lo) (hhi : hi < 2 ^ 31)
    {entry entry' : ResourceEntry} {free' others : List ResourceEntry} {rv : ℤ}
    {mem mem' : CallocResults} (hheld : Held lo hi others entry free) (hpos : 0 < qmax)
    (hwrap : 0 ≤ qbase → qbase + qmax < 2 ^ 32)
    (h : qdmaRequestQResource entry qmax qbase free mem = (rv, entry', free', mem'))
    (hrv : 0 ≤ rv) :
    entry'.totalQ = qmax ∧
      GrantedAt (qdmaSubmitToFreeList entry free mem).2.1 qmax qbase entry'.qbase := by
  obtain ⟨entry₁, free₁, mem₁, hsubmit, hfree₁, -, -⟩ :=
    qdmaSubmitToFreeList_cases hlo hhi hheld.freeOk hheld.entryOk hheld.apart mem
  have hleft : ¬ (0 : ℤ) ≤ -QDMA_ERR_RM_NO_QUEUES_LEFT := by decide
  unfold qdmaRequestQResource at h
  rw [hsubmit] at h ⊢
  dsimp only at h ⊢
  rw [if_neg hpos.ne'] at h
  cases hnode : qdmaGetResourceNode qmax qbase free₁ mem₁ with
  | mk found rest =>
    obtain ⟨l, mem₂⟩ := rest
    rw [hnode] at h
    cases found with
    | some new =>
      obtain ⟨hsize, hgranted⟩ := qdmaGetResourceNode_granted hlo hhi hfree₁ hwrap hnode
      cases h
      exact ⟨hsize, hgranted⟩
    | none =>
      -- the old range is asked for again, and the call fails
      dsimp only at h
      split at h
      · cases h
        exact absurd hrv hleft
      · cases h
        exact absurd hrv hleft

/-- With memory, the range of a function goes back to the free list, which then holds it. -/
theorem qdmaSubmitToFreeList_holds (hlo : 0 ≤ lo) (hhi : hi < 2 ^ 31) {entry : ResourceEntry}
    {others : List ResourceEntry} {mem : CallocResults} (hheld : Held lo hi others entry free)
    (hpos : 0 < entry.totalQ) (hmem : (qdmaCalloc mem).1 = true) :
    HoldsRange (qdmaSubmitToFreeList entry free mem).2.1 entry.totalQ entry.qbase := by
  have htiles := apart_iff_tiles.mp hheld.apart
  obtain ⟨entry₁, free₁, hsubmit, -, -, -, hrest, -, hcoal⟩ :=
    qdmaSubmitToFreeList_spec hlo hhi hheld.freeOk hheld.entryOk htiles
  have hsame : (qdmaSubmitToFreeList entry free mem).2.1 = free₁ := by
    unfold qdmaSubmitToFreeList at hsubmit ⊢
    rw [if_neg hpos.ne'] at hsubmit ⊢
    cases hcalloc : qdmaCalloc mem with
    | mk ok rest =>
      rw [hcalloc] at hmem
      cases hmem
      simp only [qdmaFreeEntryCreate, hcalloc]
      exact congrArg (·.2.1) hsubmit
  rw [hsame]
  have hothers : Disjoint entry.ids (cover ResourceEntry.ids others) := by
    refine Set.disjoint_left.mpr fun x hx hcover => ?_
    obtain ⟨e, he, hxe⟩ := mem_cover.mp hcover
    have hdisjoint := (List.pairwise_cons.mp hheld.apart).1 e (List.mem_append_right _ he)
    exact Set.disjoint_left.mp hdisjoint hx hxe
  refine exists_holder hpos (hcoal hpos) hothers hrest fun x hx => ?_
  rw [← htiles.2]
  exact mem_cover.mpr ⟨entry, List.mem_cons_self, hx⟩

/-- Without memory, the range stays with its function. -/
theorem qdmaSubmitToFreeList_kept {entry : ResourceEntry} {mem : CallocResults}
    (hmem : (qdmaCalloc mem).1 = false) : (qdmaSubmitToFreeList entry free mem).2.1 = free := by
  unfold qdmaSubmitToFreeList
  split
  · rfl
  · cases hcalloc : qdmaCalloc mem with
    | mk ok rest =>
      rw [hcalloc] at hmem
      cases hmem
      simp only [qdmaFreeEntryCreate, hcalloc]

/-- The free list does not hold the range of a function. -/
theorem Held.not_holdsRange {entry : ResourceEntry} {others : List ResourceEntry}
    (hheld : Held lo hi others entry free) (hpos : 0 < entry.totalQ) :
    ¬ HoldsRange free entry.totalQ entry.qbase := by
  rintro ⟨e, he, hl, hr⟩
  have happart := (List.pairwise_cons.mp hheld.apart).1 e (List.mem_append_left _ he)
  have hown : entry.qbase ∈ entry.ids := by
    simp only [interval, Set.mem_Ico, ResourceEntry.qend]
    omega
  have hfree : entry.qbase ∈ e.ids := by
    simp only [interval, Set.mem_Ico] at hr ⊢
    omega
  exact Set.disjoint_left.mp happart hown hfree

end OnicDriver.Resource
