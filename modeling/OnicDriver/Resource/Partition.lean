import OnicDriver.Lib.Runs
import OnicDriver.Resource.FreeList

/-!
# The queue ranges of a master partition its queues

The ranges of the device entries and the free list of a resource master tile
the queues the master was created with, after any sequence of calls.
-/

namespace OnicDriver.Resource

open Lib

variable {lo hi : ℤ}

/-- The range recorded in a device entry: none, or a range of the master. An
empty range may carry any base inside the master. -/
def EntryOk (lo hi : ℤ) (e : ResourceEntry) : Prop := e = ⟨-1, 0⟩ ∨ Inside lo hi e

theorem EntryOk.inside {e : ResourceEntry} (h : EntryOk lo hi e) (hpos : 0 < e.totalQ) :
    Inside lo hi e := by
  rcases h with rfl | h
  · simp at hpos
  · exact h

/-! ## Submitting a range -/

/-- What `qdma_submit_to_free_list` does when its allocation succeeds. -/
theorem qdmaSubmitToFreeList_spec (hlo : 0 ≤ lo) (hhi : hi < 2 ^ 31) {entry : ResourceEntry}
    {free others : List ResourceEntry} {S : Set ℤ} (hfree : FreeOk lo hi free)
    (hentry : EntryOk lo hi entry)
    (ht : Tiles ResourceEntry.ids (entry :: (free ++ others)) S) :
    ∃ entry' free', qdmaSubmitToFreeList entry free [] = (entry', free', []) ∧
      FreeOk lo hi free' ∧ EntryOk lo hi entry' ∧ entry'.totalQ = 0 ∧
      Tiles ResourceEntry.ids (free' ++ others) S ∧
      (entry.totalQ = 0 → entry' = entry ∧ free' = free) ∧
      (0 < entry.totalQ → Coalesced ResourceEntry.qbase ResourceEntry.qend free') := by
  unfold qdmaSubmitToFreeList
  by_cases hzero : entry.totalQ = 0
  · rw [if_pos hzero]
    refine ⟨entry, free, rfl, hfree, hentry, hzero, ?_, fun _ => ⟨rfl, rfl⟩, by omega⟩
    exact (tiles_cons_of_empty (ResourceEntry.ids_eq_empty hzero)).mp ht
  · rw [if_neg hzero]
    have hpos : 0 < entry.totalQ := Nat.pos_of_ne_zero hzero
    have hin := hentry.inside hpos
    have hlt : lo < hi := by
      simp only [Inside, ResourceEntry.qend] at hin
      omega
    have hperm : (insertFree entry free ++ others).Perm (entry :: (free ++ others)) :=
      (insertFree_perm entry free).append_right others
    have hinserted := insertFree_ascending hfree.ascending (hfree.pos hlt) hpos
      fun e he => (List.pairwise_cons.mp ht.1).1 e (List.mem_append_left _ he)
    obtain ⟨hcoal, hinside, htiles⟩ := defragment_spec hlo hhi hinserted
      (by
        intro e he
        rcases List.mem_cons.mp ((insertFree_perm entry free).mem_iff.mp he) with rfl | he
        · exact hin
        · exact hfree.inside e he)
      (by
        intro e he
        rcases List.mem_cons.mp ((insertFree_perm entry free).mem_iff.mp he) with rfl | he
        · exact hpos
        · exact hfree.pos hlt e he)
    refine ⟨⟨-1, 0⟩, defragment (insertFree entry free), rfl,
      ⟨hcoal.ascending, hinside, fun _ => pos_of_coalesced hcoal⟩, Or.inl rfl, rfl, ?_,
      by omega, fun _ => hcoal⟩
    exact htiles others S (ht.perm hperm.symm)

/-! ## Requesting a range -/

/-- `cut` is a range of `qmax` queues cut out of the node `n` of the free list. -/
structure CutFrom (free : List ResourceEntry) (qmax : ℕ) (cut : FreeNode) (n : ResourceEntry) :
    Prop where
  split : ∃ s t, free = s ++ n :: t ∧ cut.before = s ++ leftPart n cut.node ∧
    cut.after = rightPart n cut.node ++ t
  size : cut.node.totalQ = qmax
  lower : n.qbase ≤ cut.node.qbase
  upper : cut.node.qend ≤ n.qend

section Cut

variable {free others : List ResourceEntry} {qmax : ℕ} {cut : FreeNode} {n : ResourceEntry}
  {S : Set ℤ}

theorem CutFrom.mem (h : CutFrom free qmax cut n) : n ∈ free := by
  obtain ⟨s, t, rfl, -, -⟩ := h.split
  simp

/-- The cut range and what remains of the free list tile what the free list did. -/
theorem CutFrom.tiles (h : CutFrom free qmax cut n)
    (ht : Tiles ResourceEntry.ids (free ++ others) S) :
    Tiles ResourceEntry.ids (cut.node :: (cut.before ++ cut.after ++ others)) S := by
  obtain ⟨s, t, rfl, hbefore, hafter⟩ := h.split
  have hfirst : Tiles ResourceEntry.ids (n :: (s ++ t ++ others)) S := by
    refine ht.perm ?_
    simp
  have hswap : (leftPart n cut.node ++ rightPart n cut.node ++ s).Perm
      (s ++ (leftPart n cut.node ++ rightPart n cut.node)) := List.perm_append_comm
  refine (hfirst.refine (carve_tiles h.lower h.upper)).perm ?_
  rw [hbefore, hafter, List.cons_append]
  refine List.Perm.cons _ ?_
  simpa only [List.append_assoc] using hswap.append_right (t ++ others)

/-- What remains of a free list is a free list. -/
theorem CutFrom.freeOk (h : CutFrom free qmax cut n) (hfree : FreeOk lo hi free) :
    FreeOk lo hi (cut.before ++ cut.after) := by
  obtain ⟨s, t, rfl, hbefore, hafter⟩ := h.split
  obtain ⟨hrest, hasc, -⟩ := carve_rest h.lower h.upper
  have heq : cut.before ++ cut.after =
      s ++ (leftPart n cut.node ++ rightPart n cut.node ++ t) := by
    simp [hbefore, hafter]
  have hn := hfree.inside n (by simp)
  rw [heq]
  refine ⟨hfree.ascending.replace hasc fun e he => ⟨(hrest e he).1, (hrest e he).2.1⟩, ?_, ?_⟩
  · intro e he
    simp only [List.mem_append] at he
    rcases he with he | (he | he) | he
    · exact hfree.inside e (by simp [he])
    · have hin := hrest e (by simp [he])
      exact ⟨hn.1.trans hin.1, hin.2.1.trans hn.2⟩
    · have hin := hrest e (by simp [he])
      exact ⟨hn.1.trans hin.1, hin.2.1.trans hn.2⟩
    · exact hfree.inside e (by simp [he])
  · intro hlt e he
    simp only [List.mem_append] at he
    rcases he with he | (he | he) | he
    · exact hfree.pos hlt e (by simp [he])
    · exact (hrest e (by simp [he])).2.2
    · exact (hrest e (by simp [he])).2.2
    · exact hfree.pos hlt e (by simp [he])

/-- What remains of a coalesced free list is coalesced, unless an empty range is cut
out of the middle of a node. -/
theorem CutFrom.coalesced (h : CutFrom free qmax cut n)
    (hcoal : Coalesced ResourceEntry.qbase ResourceEntry.qend free)
    (hedge : qmax = 0 → cut.node.qbase = n.qbase ∨ cut.node.qbase = n.qend) :
    Coalesced ResourceEntry.qbase ResourceEntry.qend (cut.before ++ cut.after) := by
  obtain ⟨s, t, rfl, hbefore, hafter⟩ := h.split
  obtain ⟨hrest, -, hcarved⟩ := carve_rest h.lower h.upper
  have heq : cut.before ++ cut.after =
      s ++ (leftPart n cut.node ++ rightPart n cut.node ++ t) := by
    simp [hbefore, hafter]
  rw [heq]
  refine hcoal.replace (hcarved fun hz => hedge ?_)
    fun e he => ⟨(hrest e he).1, (hrest e he).2.1⟩
  rw [← h.size, hz]

theorem CutFrom.inside (h : CutFrom free qmax cut n) (hfree : FreeOk lo hi free) :
    Inside lo hi cut.node := by
  have hn := hfree.inside n h.mem
  exact ⟨hn.1.trans h.lower, h.upper.trans hn.2⟩

end Cut

/-- The range test of `qdma_get_resource_node` is exact while the request does not wrap. -/
theorem holdsRequest_iff (hlo : 0 ≤ lo) (hhi : hi < 2 ^ 31) {qmax : ℕ} {qbase : ℤ}
    {e : ResourceEntry} (he : Inside lo hi e) (hq : 0 ≤ qbase) (hwrap : qbase + qmax < 2 ^ 32) :
    holdsRequest qmax qbase e = true ↔ e.qbase ≤ qbase ∧ qbase + qmax ≤ e.qend := by
  simp only [Inside, ResourceEntry.qend] at he ⊢
  have h1 := u32_of_lt (x := e.qbase + e.totalQ) (by omega) (by omega)
  have h2 := u32_of_lt (x := qbase + qmax) (by omega) (by omega)
  simp only [holdsRequest, Bool.and_eq_true, decide_eq_true_eq]
  omega

/-- What `qdma_get_resource_node` does when its allocations succeed: it cuts the requested
range out of the node that holds it, else the start of a smallest node that fits. -/
theorem qdmaGetResourceNode_spec (hlo : 0 ≤ lo) (hhi : hi < 2 ^ 31) {free : List ResourceEntry}
    {qmax : ℕ} {qbase : ℤ} (hfree : FreeOk lo hi free)
    (hwrap : 0 ≤ qbase → qbase + qmax < 2 ^ 32) :
    (∃ cut l n, qdmaGetResourceNode qmax qbase free [] = (some cut, l, []) ∧
      CutFrom free qmax cut n ∧
      (0 ≤ qbase ∧ cut.node.qbase = qbase ∨
        (∀ e ∈ free, 0 ≤ qbase → ¬ (e.qbase ≤ qbase ∧ qbase + qmax ≤ e.qend)) ∧
          cut.node.qbase = n.qbase ∧ ∀ e ∈ free, qmax ≤ e.totalQ → n.totalQ ≤ e.totalQ)) ∨
    (qdmaGetResourceNode qmax qbase free [] = (none, free, []) ∧
      ∀ e ∈ free, e.totalQ < qmax) := by
  unfold qdmaGetResourceNode
  cases hreq : (if qbase ≥ 0 then findRequested qmax qbase [] free else none) with
  | some best =>
    left
    split at hreq
    · rename_i hq
      obtain ⟨hlist, hholds⟩ := findRequested_some hreq
      obtain ⟨s, n, t⟩ := best
      simp only [FreeNode.list, List.nil_append] at hlist hholds
      have hn : Inside lo hi n := hfree.inside n (by simp [← hlist])
      obtain ⟨hl, hr⟩ := (holdsRequest_iff hlo hhi hn hq (hwrap hq)).mp hholds
      obtain ⟨hcut, hmem⟩ := fragmentFreeList_eq (s := s) (t := t) hlo hhi hn hl hr
      refine ⟨_, _, n, Prod.ext hcut (Prod.ext rfl hmem),
        ⟨⟨s, t, hlist.symm, rfl, rfl⟩, rfl, hl, hr⟩, Or.inl ⟨hq, rfl⟩⟩
    · cases hreq
  | none =>
    have hnot : ∀ e ∈ free, 0 ≤ qbase → ¬ (e.qbase ≤ qbase ∧ qbase + qmax ≤ e.qend) := by
      intro e he hq hholds
      rw [if_pos hq] at hreq
      have := findRequested_none hreq e he
      rw [(holdsRequest_iff hlo hhi (hfree.inside e he) hq (hwrap hq)).mpr hholds] at this
      cases this
    have hbest : IsBestFit qmax free free (findBestFit qmax none [] free) :=
      findBestFit_spec (l := free) (by simp [IsBestFit])
    cases hfit : findBestFit qmax none [] free with
    | none =>
      right
      rw [hfit] at hbest
      exact ⟨rfl, hbest⟩
    | some best =>
      left
      rw [hfit] at hbest
      obtain ⟨s, n, t⟩ := best
      obtain ⟨hlist, hsize, hmin⟩ := hbest
      simp only [FreeNode.list] at hlist hsize hmin
      have hn : Inside lo hi n := hfree.inside n (by simp [← hlist])
      have hr : n.qbase + qmax ≤ n.qend := by
        simp only [ResourceEntry.qend]
        omega
      obtain ⟨hcut, hmem⟩ := fragmentFreeList_eq (s := s) (t := t) hlo hhi hn le_rfl hr
      exact ⟨_, _, n, Prod.ext hcut (Prod.ext rfl hmem),
        ⟨⟨s, t, hlist.symm, rfl, rfl⟩, rfl, le_rfl, hr⟩, Or.inr ⟨hnot, rfl, hmin⟩⟩

/-- A nonempty range covered by the free list and the ranges next to it, and disjoint
from those, lies in one node of a coalesced free list. -/
theorem exists_holder {entry : ResourceEntry} {free others : List ResourceEntry} {S : Set ℤ}
    (hpos : 0 < entry.totalQ) (hcoal : Coalesced ResourceEntry.qbase ResourceEntry.qend free)
    (hentry : Disjoint entry.ids (cover ResourceEntry.ids others))
    (hfree : Tiles ResourceEntry.ids (free ++ others) S) (hsub : entry.ids ⊆ S) :
    ∃ e ∈ free, e.qbase ≤ entry.qbase ∧ entry.qend ≤ e.qend := by
  have hlt : entry.qbase < entry.qend := by
    simp only [ResourceEntry.qend]
    omega
  refine hcoal.exists_of_subset hlt fun x hx => ?_
  have hxS := hsub hx
  rw [← hfree.2, cover_append] at hxS
  rcases hxS with hxfree | hxother
  · exact hxfree
  · exact absurd hxother (Set.disjoint_left.mp hentry hx)

/-- What a request does after the own range `entry` went back to the free list, which
left `entry₁` and `free`: the return value, the range obtained and the free list. -/
inductive RequestOutcome (entry entry₁ : ResourceEntry) (qmax : ℕ) (qbase : ℤ)
    (free : List ResourceEntry) : ℤ → ResourceEntry → List ResourceEntry → Prop
  | released (hzero : qmax = 0) : RequestOutcome entry entry₁ qmax qbase free 0 entry₁ free
  | granted (cut : FreeNode) (n : ResourceEntry) (hpos : 0 < qmax)
      (hcut : CutFrom free qmax cut n)
      (hbase : 0 ≤ qbase ∧ cut.node.qbase = qbase ∨
        (∀ e ∈ free, 0 ≤ qbase → ¬ (e.qbase ≤ qbase ∧ qbase + qmax ≤ e.qend)) ∧
          cut.node.qbase = n.qbase ∧ ∀ e ∈ free, qmax ≤ e.totalQ → n.totalQ ≤ e.totalQ) :
      RequestOutcome entry entry₁ qmax qbase free QDMA_SUCCESS cut.node (cut.before ++ cut.after)
  | restored (cut : FreeNode) (n : ResourceEntry) (hpos : 0 < qmax)
      (hnone : ∀ e ∈ free, e.totalQ < qmax) (hcut : CutFrom free entry.totalQ cut n)
      (hbase : cut.node.qbase = entry.qbase ∨ cut.node.qbase = n.qbase) :
      RequestOutcome entry entry₁ qmax qbase free (-QDMA_ERR_RM_NO_QUEUES_LEFT) cut.node
        (cut.before ++ cut.after)
  | dropped (hpos : 0 < qmax) (hnone : ∀ e ∈ free, e.totalQ < qmax)
      (hold : ∀ e ∈ free, e.totalQ < entry.totalQ) :
      RequestOutcome entry entry₁ qmax qbase free (-QDMA_ERR_RM_NO_QUEUES_LEFT) ⟨-1, 0⟩ free

/-- The outcomes of `qdma_request_q_resource` when its allocations succeed. -/
theorem qdmaRequestQResource_outcome (hlo : 0 ≤ lo) (hhi : hi < 2 ^ 31)
    {entry entry₁ : ResourceEntry} {free free₁ : List ResourceEntry} {qmax : ℕ} {qbase : ℤ}
    (hentry : EntryOk lo hi entry) (hfree : FreeOk lo hi free₁)
    (hsubmit : qdmaSubmitToFreeList entry free [] = (entry₁, free₁, []))
    (hwrap : 0 ≤ qbase → qbase + qmax < 2 ^ 32) :
    ∃ rv entry' free', qdmaRequestQResource entry qmax qbase free [] = (rv, entry', free', []) ∧
      RequestOutcome entry entry₁ qmax qbase free₁ rv entry' free' := by
  unfold qdmaRequestQResource
  rw [hsubmit]
  dsimp only
  by_cases hzero : qmax = 0
  · exact ⟨_, _, _, if_pos hzero, RequestOutcome.released hzero⟩
  · have hpos : 0 < qmax := Nat.pos_of_ne_zero hzero
    rw [if_neg hzero]
    rcases qdmaGetResourceNode_spec hlo hhi hfree hwrap with
      ⟨cut, l, n, hget, hcut, hbase⟩ | ⟨hget, hnone⟩
    · rw [hget]
      exact ⟨_, _, _, rfl, RequestOutcome.granted cut n hpos hcut hbase⟩
    · rw [hget]
      dsimp only
      have hold : 0 ≤ entry.qbase → entry.qbase + entry.totalQ < 2 ^ 32 := by
        intro hq
        rcases hentry with rfl | hin
        · simp at hq
        · have := hin.2
          simp only [ResourceEntry.qend] at this
          omega
      rcases qdmaGetResourceNode_spec hlo hhi hfree hold with
        ⟨cut, l, n, hget, hcut, hbase⟩ | ⟨hget, hsmall⟩
      · rw [hget]
        refine ⟨_, _, _, rfl, RequestOutcome.restored cut n hpos hnone hcut ?_⟩
        exact hbase.imp (fun h => h.2) fun h => h.2.1
      · rw [hget]
        exact ⟨_, _, _, rfl, RequestOutcome.dropped hpos hnone hsmall⟩

/-- The range a function holds and the free list, next to the ranges of the other
functions. -/
structure RequestOk (lo hi : ℤ) (others : List ResourceEntry) (S : Set ℤ)
    (entry : ResourceEntry) (free : List ResourceEntry) : Prop where
  freeOk : FreeOk lo hi free
  entryOk : EntryOk lo hi entry
  tiles : Tiles ResourceEntry.ids (entry :: (free ++ others)) S

/-- A range cut out of the free list goes to the function that asked for it. -/
theorem CutFrom.requestOk {free others : List ResourceEntry} {qmax : ℕ} {cut : FreeNode}
    {n : ResourceEntry} {S : Set ℤ} (h : CutFrom free qmax cut n) (hfree : FreeOk lo hi free)
    (ht : Tiles ResourceEntry.ids (free ++ others) S) :
    RequestOk lo hi others S cut.node (cut.before ++ cut.after) :=
  ⟨h.freeOk hfree, Or.inr (h.inside hfree), h.tiles ht⟩

/-- Whatever the outcome of a request, the ranges tile what they did before. -/
theorem RequestOutcome.requestOk {entry entry₁ entry' : ResourceEntry}
    {free free' others : List ResourceEntry} {qmax : ℕ} {qbase rv : ℤ} {S : Set ℤ}
    (h : RequestOutcome entry entry₁ qmax qbase free rv entry' free')
    (hfree : FreeOk lo hi free) (hentry : EntryOk lo hi entry₁) (hzero : entry₁.totalQ = 0)
    (ht : Tiles ResourceEntry.ids (free ++ others) S) :
    RequestOk lo hi others S entry' free' := by
  cases h with
  | released =>
    exact ⟨hfree, hentry, (tiles_cons_of_empty (ResourceEntry.ids_eq_empty hzero)).mpr ht⟩
  | granted cut n _ hcut => exact hcut.requestOk hfree ht
  | restored cut n _ _ hcut => exact hcut.requestOk hfree ht
  | dropped =>
    exact ⟨hfree, Or.inl rfl, (tiles_cons_of_empty (ResourceEntry.ids_eq_empty rfl)).mpr ht⟩

/-- `qdma_request_q_resource` keeps the partition. -/
theorem qdmaRequestQResource_requestOk (hlo : 0 ≤ lo) (hhi : hi < 2 ^ 31)
    {entry : ResourceEntry} {free others : List ResourceEntry} {qmax : ℕ} {qbase : ℤ} {S : Set ℤ}
    (h : RequestOk lo hi others S entry free) (hwrap : 0 ≤ qbase → qbase + qmax < 2 ^ 32) :
    ∃ rv entry' free', qdmaRequestQResource entry qmax qbase free [] = (rv, entry', free', []) ∧
      RequestOk lo hi others S entry' free' := by
  obtain ⟨entry₁, free₁, hsubmit, hfree₁, hentry₁, hzero, ht₁, -, -⟩ :=
    qdmaSubmitToFreeList_spec hlo hhi h.freeOk h.entryOk h.tiles
  obtain ⟨rv, entry', free', heq, hout⟩ :=
    qdmaRequestQResource_outcome hlo hhi h.entryOk hfree₁ hsubmit hwrap
  exact ⟨rv, entry', free', heq, hout.requestOk hfree₁ hentry₁ hzero ht₁⟩

end OnicDriver.Resource
