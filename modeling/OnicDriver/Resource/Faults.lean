import OnicDriver.Resource.Active
import OnicDriver.Resource.Masters

/-!
# Ranges stay apart when allocations fail

A failed allocation can lose queues, but no call hands out a queue that is
held or free elsewhere. The specifications here hold for every pattern of
allocation results.
-/

namespace OnicDriver.Resource

open Lib

variable {lo hi : ℤ}

/-- No two ranges share a queue. -/
def Apart (l : List ResourceEntry) : Prop := l.Pairwise (fun a b => Disjoint a.ids b.ids)

theorem apart_iff_tiles {l : List ResourceEntry} :
    Apart l ↔ Tiles ResourceEntry.ids l (cover ResourceEntry.ids l) :=
  ⟨fun h => ⟨h, rfl⟩, fun h => h.1⟩

theorem Apart.perm {l m : List ResourceEntry} (h : Apart l) (hp : l.Perm m) : Apart m :=
  ((apart_iff_tiles.mp h).perm hp).1

/-- An empty range shares no queue. -/
theorem Apart.cons_empty {l : List ResourceEntry} {e : ResourceEntry} (h : Apart l)
    (he : e.totalQ = 0) : Apart (e :: l) :=
  ((tiles_cons_of_empty (ResourceEntry.ids_eq_empty he)).mpr (apart_iff_tiles.mp h)).1

/-! ## The free list -/

/-- The list is a free list, apart from whatever the list before was apart from. -/
def Replaces (lo hi : ℤ) (free free' : List ResourceEntry) : Prop :=
  FreeOk lo hi free' ∧ ∀ others, Apart (free ++ others) → Apart (free' ++ others)

theorem Replaces.refl {free : List ResourceEntry} (h : FreeOk lo hi free) :
    Replaces lo hi free free := ⟨h, fun _ ha => ha⟩

/-- `qdma_submit_to_free_list`. Without memory the range stays with the caller. -/
theorem qdmaSubmitToFreeList_cases (hlo : 0 ≤ lo) (hhi : hi < 2 ^ 31) {entry : ResourceEntry}
    {free others : List ResourceEntry} (hfree : FreeOk lo hi free) (hentry : EntryOk lo hi entry)
    (ha : Apart (entry :: (free ++ others))) (mem : CallocResults) :
    ∃ entry' free' mem', qdmaSubmitToFreeList entry free mem = (entry', free', mem') ∧
      FreeOk lo hi free' ∧ EntryOk lo hi entry' ∧ Apart (entry' :: (free' ++ others)) := by
  have hspec := qdmaSubmitToFreeList_spec hlo hhi hfree hentry (apart_iff_tiles.mp ha)
  obtain ⟨entry', free', heq, hfree', hentry', hzero, ht, -, -⟩ := hspec
  unfold qdmaSubmitToFreeList at heq ⊢
  by_cases htotal : entry.totalQ = 0
  · rw [if_pos htotal]
    exact ⟨entry, free, mem, rfl, hfree, hentry, ha⟩
  · rw [if_neg htotal] at heq ⊢
    cases mem with
    | nil => exact ⟨entry', free', [], heq, hfree', hentry', Apart.cons_empty ht.1 hzero⟩
    | cons ok mem =>
      cases ok with
      | true =>
        simp only [qdmaFreeEntryCreate, qdmaCalloc, Prod.mk.injEq] at heq ⊢
        obtain ⟨rfl, rfl, -⟩ := heq
        exact ⟨_, _, _, ⟨rfl, rfl, rfl⟩, hfree', hentry', Apart.cons_empty ht.1 hzero⟩
      | false => exact ⟨entry, free, mem, rfl, hfree, hentry, ha⟩

/-- A node may be split in two. -/
theorem splitNode_replaces {s t : List ResourceEntry} {n : ResourceEntry} {qbase : ℤ}
    (hfree : FreeOk lo hi (s ++ n :: t)) (hl : n.qbase < qbase) (hr : qbase < n.qend) :
    Replaces lo hi (s ++ n :: t) (s ++ ⟨n.qbase, (qbase - n.qbase).toNat⟩ ::
      ⟨qbase, (n.qend - qbase).toNat⟩ :: t) := by
  have hn := hfree.inside n (by simp)
  have hpieces : ∀ e ∈ [(⟨n.qbase, (qbase - n.qbase).toNat⟩ : ResourceEntry),
      ⟨qbase, (n.qend - qbase).toNat⟩], n.qbase ≤ e.qbase ∧ e.qend ≤ n.qend ∧ 0 < e.totalQ := by
    simp only [List.mem_cons, List.not_mem_nil, or_false, forall_eq_or_imp, forall_eq,
      ResourceEntry.qend] at hr ⊢
    omega
  have hasc : Ascending ResourceEntry.qbase ResourceEntry.qend
      [(⟨n.qbase, (qbase - n.qbase).toNat⟩ : ResourceEntry), ⟨qbase, (n.qend - qbase).toNat⟩] := by
    simp only [Ascending, List.pairwise_cons, List.mem_singleton, forall_eq, List.not_mem_nil,
      false_imp_iff, implies_true, List.Pairwise.nil, and_true, ResourceEntry.qend]
    omega
  have hordered := hfree.ascending.replace hasc fun e he => ⟨(hpieces e he).1, (hpieces e he).2.1⟩
  have hmem : ∀ e, e ∈ s ++ (⟨n.qbase, (qbase - n.qbase).toNat⟩ : ResourceEntry) ::
      ⟨qbase, (n.qend - qbase).toNat⟩ :: t → e ∈ s ++ n :: t ∨
        (n.qbase ≤ e.qbase ∧ e.qend ≤ n.qend ∧ 0 < e.totalQ) := by
    intro e he
    simp only [List.mem_append, List.mem_cons] at he ⊢
    rcases he with he | he | he | he
    · exact Or.inl (Or.inl he)
    · exact Or.inr (hpieces e (by simp [he]))
    · exact Or.inr (hpieces e (by simp [he]))
    · exact Or.inl (Or.inr (Or.inr he))
  refine ⟨⟨hordered, fun e he => ?_, fun hlt e he => ?_⟩, fun others ha => ?_⟩
  · rcases hmem e he with hold | ⟨hlow, hup, -⟩
    · exact hfree.inside e hold
    · exact ⟨hn.1.trans hlow, hup.trans hn.2⟩
  · rcases hmem e he with hold | ⟨-, -, hpos⟩
    · exact hfree.pos hlt e hold
    · exact hpos
  · have hfirst : Apart (n :: (s ++ t ++ others)) := ha.perm (by simp)
    have htiles := (apart_iff_tiles.mp hfirst).refine
      (carve_tiles (m := ⟨qbase, (n.qend - qbase).toNat⟩) hl.le
        (by simp only [ResourceEntry.qend] at hr ⊢; omega))
    have hnone : ¬ (⟨qbase, (n.qend - qbase).toNat⟩ : ResourceEntry).qend < n.qend := by
      simp only [ResourceEntry.qend] at hr ⊢
      omega
    rw [leftPart, rightPart, if_pos hl, if_neg hnone] at htiles
    refine Apart.perm htiles.1 ?_
    simp only [List.append_nil, List.cons_append, List.nil_append, List.append_assoc]
    refine (List.Perm.swap _ _ _).trans ?_
    have hmove := (List.perm_append_comm_assoc [(⟨n.qbase, (qbase - n.qbase).toNat⟩ :
      ResourceEntry), ⟨qbase, (n.qend - qbase).toNat⟩] s (t ++ others))
    simpa only [List.append_assoc, List.cons_append, List.nil_append] using hmove

/-- `fragment_free_list` on a node that holds the request either cuts it out, or fails and
leaves a free list of the same queues. -/
theorem fragmentFreeList_cases (hlo : 0 ≤ lo) (hhi : hi < 2 ^ 31) {s t : List ResourceEntry}
    {n : ResourceEntry} {qmax : ℕ} {qbase : ℤ} (hfree : FreeOk lo hi (s ++ n :: t))
    (hl : n.qbase ≤ qbase) (hr : qbase + qmax ≤ n.qend) (mem : CallocResults) :
    (∃ cut l mem', fragmentFreeList qmax qbase ⟨s, n, t⟩ mem = (some cut, l, mem') ∧
      CutFrom (s ++ n :: t) qmax cut n) ∨
    ∃ l mem', fragmentFreeList qmax qbase ⟨s, n, t⟩ mem = (none, l, mem') ∧
      Replaces lo hi (s ++ n :: t) l := by
  have hn : Inside lo hi n := hfree.inside n (by simp)
  obtain ⟨hcut, -⟩ := fragmentFreeList_eq (s := s) (t := t) hlo hhi hn hl hr
  have hfrom : CutFrom (s ++ n :: t) qmax
      ⟨s ++ leftPart n ⟨qbase, qmax⟩, ⟨qbase, qmax⟩, rightPart n ⟨qbase, qmax⟩ ++ t⟩ n :=
    ⟨⟨s, t, rfl, rfl, rfl⟩, rfl, hl, hr⟩
  have hsame : Replaces lo hi (s ++ n :: t) (s ++ n :: t) := Replaces.refl hfree
  have hnil : qdmaCalloc [] = (true, []) := rfl
  unfold fragmentFreeList at hcut ⊢
  dsimp only at hcut ⊢
  by_cases h1 : qbase = n.qbase ∧ qmax = n.totalQ
  · rw [if_pos h1] at hcut ⊢
    simp only [Option.some.injEq] at hcut
    exact Or.inl ⟨_, _, _, rfl, hcut ▸ hfrom⟩
  rw [if_neg h1] at hcut ⊢
  by_cases h2 : qbase = n.qbase ∧ qmax ≠ n.totalQ
  · rw [if_pos h2] at hcut ⊢
    cases hcalloc : qdmaCalloc mem with
    | mk ok mem' =>
      cases ok with
      | false =>
        simp only [qdmaFreeEntryCreate, hcalloc]
        exact Or.inr ⟨_, _, rfl, hsame⟩
      | true =>
        simp only [qdmaFreeEntryCreate, hcalloc, hnil, Option.some.injEq] at hcut ⊢
        exact Or.inl ⟨_, _, _, rfl, hcut ▸ hfrom⟩
  rw [if_neg h2] at hcut ⊢
  by_cases h3 : qbase > n.qbase ∧ u32 (qbase + qmax) = u32 (n.qbase + n.totalQ)
  · rw [if_pos h3] at hcut ⊢
    cases hcalloc : qdmaCalloc mem with
    | mk ok mem' =>
      cases ok with
      | false =>
        simp only [qdmaFreeEntryCreate, hcalloc]
        exact Or.inr ⟨_, _, rfl, hsame⟩
      | true =>
        simp only [qdmaFreeEntryCreate, hcalloc, hnil, Option.some.injEq] at hcut ⊢
        exact Or.inl ⟨_, _, _, rfl, hcut ▸ hfrom⟩
  rw [if_neg h3] at hcut ⊢
  cases hcalloc : qdmaCalloc mem with
  | mk ok mem' =>
    cases ok with
    | false =>
      simp only [qdmaFreeEntryCreate, hcalloc]
      exact Or.inr ⟨_, _, rfl, hsame⟩
    | true =>
      cases hcalloc' : qdmaCalloc mem' with
      | mk ok mem'' =>
        cases ok with
        | true =>
          simp only [qdmaFreeEntryCreate, hcalloc, hcalloc', hnil, Option.some.injEq] at hcut ⊢
          exact Or.inl ⟨_, _, _, rfl, hcut ▸ hfrom⟩
        | false =>
          -- the left part is in the list, the node itself was already shortened
          have hlt : n.qbase < qbase := lt_of_le_of_ne hl fun heq => by
            by_cases htotal : qmax = n.totalQ
            · exact h1 ⟨heq.symm, htotal⟩
            · exact h2 ⟨heq.symm, htotal⟩
          have hgt : qbase < n.qend := by
            by_contra hge
            refine h3 ⟨hlt, ?_⟩
            simp only [ResourceEntry.qend] at hr hge
            congr 1
            omega
          have hsplit := splitNode_replaces hfree hlt hgt
          simp only [qdmaFreeEntryCreate, hcalloc, hcalloc']
          refine Or.inr ⟨_, _, rfl, ?_⟩
          have hleft : u32 (qbase - n.qbase) = (qbase - n.qbase).toNat := by
            simp only [Inside, ResourceEntry.qend] at hn hr
            have := u32_of_lt (x := qbase - n.qbase) (by omega) (by omega)
            omega
          have hrest : u32 ((n.totalQ : ℤ) - ((qbase - n.qbase).toNat : ℤ)) =
              (n.qend - qbase).toNat := by
            simp only [Inside, ResourceEntry.qend] at hn hr ⊢
            have := u32_of_lt (x := (n.totalQ : ℤ) - ((qbase - n.qbase).toNat : ℤ)) (by omega)
              (by omega)
            omega
          rw [hleft, hrest]
          exact hsplit

/-- The end of the requested range does not wrap, or no free node passes the range test. -/
def RequestSafe (qmax : ℕ) (qbase : ℤ) (free : List ResourceEntry) : Prop :=
  0 ≤ qbase → qbase + qmax < 2 ^ 32 ∨ ∀ e ∈ free, holdsRequest qmax qbase e = false

/-- The node that the search of `qdma_get_resource_node` ends with holds the range that is
cut out of it. -/
theorem qdmaGetResourceNode_cases (hlo : 0 ≤ lo) (hhi : hi < 2 ^ 31) {free : List ResourceEntry}
    {qmax : ℕ} {qbase : ℤ} (hfree : FreeOk lo hi free) (hsafe : RequestSafe qmax qbase free)
    (mem : CallocResults) :
    (∃ cut l mem' n, qdmaGetResourceNode qmax qbase free mem = (some cut, l, mem') ∧
      CutFrom free qmax cut n) ∨
    ∃ l mem', qdmaGetResourceNode qmax qbase free mem = (none, l, mem') ∧
      Replaces lo hi free l := by
  unfold qdmaGetResourceNode
  cases hreq : (if qbase ≥ 0 then findRequested qmax qbase [] free else none) with
  | some best =>
    split at hreq
    · rename_i hq
      obtain ⟨hlist, hholds⟩ := findRequested_some hreq
      obtain ⟨s, n, t⟩ := best
      simp only [FreeNode.list, List.nil_append] at hlist hholds
      subst hlist
      have hn : Inside lo hi n := hfree.inside n (by simp)
      have hwrap : qbase + qmax < 2 ^ 32 := by
        rcases hsafe hq with hwrap | hnone
        · exact hwrap
        · rw [hnone n (by simp)] at hholds
          cases hholds
      obtain ⟨hl, hr⟩ := (holdsRequest_iff hlo hhi hn hq hwrap).mp hholds
      rcases fragmentFreeList_cases hlo hhi hfree hl hr mem with
        ⟨cut, l, mem', heq, hcut⟩ | ⟨l, mem', heq, hrep⟩
      · exact Or.inl ⟨cut, l, mem', n, heq, hcut⟩
      · exact Or.inr ⟨l, mem', heq, hrep⟩
    · cases hreq
  | none =>
    have hbest : IsBestFit qmax free free (findBestFit qmax none [] free) :=
      findBestFit_spec (l := free) (by simp [IsBestFit])
    cases hfit : findBestFit qmax none [] free with
    | none => exact Or.inr ⟨free, mem, rfl, Replaces.refl hfree⟩
    | some best =>
      rw [hfit] at hbest
      obtain ⟨s, n, t⟩ := best
      obtain ⟨hlist, hsize, -⟩ := hbest
      simp only [FreeNode.list] at hlist hsize
      subst hlist
      have hr : n.qbase + qmax ≤ n.qend := by
        simp only [ResourceEntry.qend]
        omega
      rcases fragmentFreeList_cases hlo hhi hfree le_rfl hr mem with
        ⟨cut, l, mem', heq, hcut⟩ | ⟨l, mem', heq, hrep⟩
      · exact Or.inl ⟨cut, l, mem', n, heq, hcut⟩
      · exact Or.inr ⟨l, mem', heq, hrep⟩

/-- The range of a function and the free list, apart from the ranges of the others. -/
structure Held (lo hi : ℤ) (others : List ResourceEntry) (entry : ResourceEntry)
    (free : List ResourceEntry) : Prop where
  freeOk : FreeOk lo hi free
  entryOk : EntryOk lo hi entry
  apart : Apart (entry :: (free ++ others))

/-- A cut range may replace whatever the function held. -/
theorem Held.cut {others free : List ResourceEntry} {entry : ResourceEntry} {qmax : ℕ}
    {cut : FreeNode} {n : ResourceEntry} (h : Held lo hi others entry free)
    (hcut : CutFrom free qmax cut n) : Held lo hi others cut.node (cut.before ++ cut.after) :=
  ⟨hcut.freeOk h.freeOk, Or.inr (hcut.inside h.freeOk),
    (hcut.tiles (apart_iff_tiles.mp (List.pairwise_cons.mp h.apart).2)).1⟩

/-- A function left without a range holds nothing. -/
theorem Held.drop {others free free' : List ResourceEntry} {entry : ResourceEntry}
    (h : Held lo hi others entry free) (hrep : Replaces lo hi free free') :
    Held lo hi others ⟨-1, 0⟩ free' :=
  ⟨hrep.1, Or.inl rfl, (hrep.2 others (List.pairwise_cons.mp h.apart).2).cons_empty rfl⟩

/-- A range that is recorded for a function does not wrap. -/
theorem EntryOk.requestSafe (hhi : hi < 2 ^ 31) {entry : ResourceEntry}
    (h : EntryOk lo hi entry) (free : List ResourceEntry) :
    RequestSafe entry.totalQ entry.qbase free := by
  intro hq
  rcases h with rfl | hin
  · simp at hq
  · have := hin.2
    simp only [ResourceEntry.qend] at this
    exact Or.inl (by omega)

/-- `qdma_request_q_resource` leaves the function a range of its own, or none. -/
theorem qdmaRequestQResource_held (hlo : 0 ≤ lo) (hhi : hi < 2 ^ 31) {entry : ResourceEntry}
    {free others : List ResourceEntry} {qmax : ℕ} {qbase : ℤ}
    (h : Held lo hi others entry free) (mem : CallocResults)
    (hsafe : RequestSafe qmax qbase (qdmaSubmitToFreeList entry free mem).2.1) :
    ∃ rv entry' free' mem', qdmaRequestQResource entry qmax qbase free mem =
      (rv, entry', free', mem') ∧ Held lo hi others entry' free' := by
  obtain ⟨entry₁, free₁, mem₁, hsubmit, hfree₁, hentry₁, ha₁⟩ :=
    qdmaSubmitToFreeList_cases hlo hhi h.freeOk h.entryOk h.apart mem
  have h₁ : Held lo hi others entry₁ free₁ := ⟨hfree₁, hentry₁, ha₁⟩
  rw [hsubmit] at hsafe
  unfold qdmaRequestQResource
  rw [hsubmit]
  dsimp only at hsafe ⊢
  by_cases hzero : qmax = 0
  · rw [if_pos hzero]
    exact ⟨_, _, _, _, rfl, h₁⟩
  rw [if_neg hzero]
  rcases qdmaGetResourceNode_cases hlo hhi hfree₁ hsafe mem₁ with
    ⟨cut, l, mem₂, n, hget, hcut⟩ | ⟨free₂, mem₂, hget, hrep⟩
  · rw [hget]
    exact ⟨_, _, _, _, rfl, h₁.cut hcut⟩
  · rw [hget]
    dsimp only
    have h₂ := h₁.drop hrep
    rcases qdmaGetResourceNode_cases hlo hhi hrep.1 (h.entryOk.requestSafe hhi free₂) mem₂ with
      ⟨cut, l, mem₃, n, hold, hcut⟩ | ⟨free₃, mem₃, hold, hrep'⟩
    · rw [hold]
      exact ⟨_, _, _, _, rfl, h₂.cut hcut⟩
    · rw [hold]
      exact ⟨_, _, _, _, rfl, h₂.drop hrep'⟩

/-! ## The invariant of a master -/

/-- The state of a master whose functions and free list share no queue. -/
structure OwnedOk (m : ResourceMaster) : Prop where
  base : 0 ≤ m.qbase
  bound : m.qend < 2 ^ 31
  funcs : (m.devList.map DevEntry.funcId).Nodup
  freeOk : FreeOk m.qbase m.qend m.freeList
  entries : ∀ d ∈ m.devList, EntryOk m.qbase m.qend d.entry
  apart : Apart (m.freeList ++ m.ranges)

section Master

variable {m : ResourceMaster}

/-- A master just created has all its queues in one free range. -/
theorem ownedOk_newMaster {i busStart busEnd totalQ : ℕ} {qBase : ℤ} (hbase : 0 ≤ qBase)
    (hbound : qBase + totalQ < 2 ^ 31) : OwnedOk (newMaster i busStart busEnd qBase totalQ) := by
  have h : MasterOk (newMaster i busStart busEnd qBase totalQ) := masterOk_newMaster hbase hbound
  exact ⟨h.base, h.bound, h.funcs, h.freeOk, h.entries, h.tiles.1⟩

/-- The entry found for a function, next to the free list and the other ranges. -/
theorem OwnedOk.held (h : OwnedOk m) {d : DevEntry} {s t : List DevEntry}
    (hlist : m.devList = s ++ d :: t) :
    Held m.qbase m.qend ((s ++ t).map DevEntry.entry) d.entry m.freeList := by
  refine ⟨h.freeOk, h.entries d (by simp [hlist]), h.apart.perm ?_⟩
  rw [ResourceMaster.ranges, hlist]
  simp only [List.map_append, List.map_cons, ← List.append_assoc]
  exact List.perm_middle

/-- A new device entry holds no queues. -/
theorem OwnedOk.addDev (h : OwnedOk m) {funcId : ℕ} (hnew : m.devEntry funcId = none) :
    OwnedOk { m with devList := m.devList ++ [{ funcId := funcId, entry := ⟨-1, 0⟩ }] } := by
  have hfresh : ∀ d ∈ m.devList, d.funcId ≠ funcId := by
    simpa [ResourceMaster.devEntry] using hnew
  refine ⟨h.base, h.bound, ?_, h.freeOk, ?_, ?_⟩
  · rw [List.map_append]
    refine List.Nodup.append h.funcs (by simp) ?_
    simpa [List.disjoint_singleton] using hfresh
  · intro d hd
    rcases List.mem_append.mp hd with hd | hd
    · exact h.entries d hd
    · rw [List.mem_singleton.mp hd]
      exact Or.inl rfl
  · have hmoved : ((⟨-1, 0⟩ : ResourceEntry) :: (m.freeList ++ m.ranges)).Perm
        ((m.freeList ++ m.ranges) ++ [⟨-1, 0⟩]) := (List.perm_append_singleton _ _).symm
    refine (h.apart.cons_empty (e := ⟨-1, 0⟩) rfl).perm ?_
    simpa [ResourceMaster.ranges] using hmoved

/-- Writing back a device entry and the free list. -/
theorem OwnedOk.setDev (h : OwnedOk m) {d e : DevEntry} {s t : List DevEntry}
    (hlist : m.devList = s ++ d :: t) (hs : ∀ c ∈ s, decide (c.funcId = d.funcId) = false)
    (he : e.funcId = d.funcId) {free : List ResourceEntry} (n : ℕ)
    (hheld : Held m.qbase m.qend ((s ++ t).map DevEntry.entry) e.entry free) :
    OwnedOk ({ m with freeList := free, activeQcnt := n }.setDev e) := by
  have hwritten : ({ m with freeList := free, activeQcnt := n }.setDev e).devList =
      s ++ e :: t := by
    rw [ResourceMaster.setDev]
    dsimp only
    rw [hlist, he]
    exact writeFirst_append hs (by simp)
  refine ⟨h.base, h.bound, ?_, hheld.freeOk, ?_, hheld.apart.perm ?_⟩
  · have hfuncs := h.funcs
    rw [hlist] at hfuncs
    rw [hwritten]
    simpa [he] using hfuncs
  · intro c hc
    rw [hwritten] at hc
    rcases List.mem_append.mp hc with hc | hc
    · exact h.entries c (by simp [hlist, hc])
    · rcases List.mem_cons.mp hc with rfl | hc
      · exact hheld.entryOk
      · exact h.entries c (by simp [hlist, hc])
  · rw [ResourceMaster.ranges, hwritten]
    simp only [List.map_append, List.map_cons, ← List.append_assoc, ResourceMaster.setDev]
    exact List.perm_middle.symm

/-- Counting an active queue leaves all ranges alone. -/
theorem OwnedOk.setActive (h : OwnedOk m) {f : ℕ} {d e : DevEntry}
    (hdev : m.devEntry f = some d) (hfunc : e.funcId = d.funcId) (hentry : e.entry = d.entry)
    (n : ℕ) : OwnedOk ({ m with activeQcnt := n }.setDev e) := by
  obtain ⟨rfl, l, r, hlist, hl⟩ := ResourceMaster.devEntry_split hdev
  have hheld := h.held hlist
  rw [← hentry] at hheld
  exact h.setDev hlist hl hfunc n hheld

/-- Removing a function, whether or not its range went back to the free list. -/
theorem OwnedOk.eraseDev (h : OwnedOk m) {d : DevEntry} {s t : List DevEntry}
    (hlist : m.devList = s ++ d :: t) (hs : ∀ e ∈ s, decide (e.funcId = d.funcId) = false)
    {entry : ResourceEntry} {free : List ResourceEntry}
    (hheld : Held m.qbase m.qend ((s ++ t).map DevEntry.entry) entry free) :
    OwnedOk { m with
      devList := m.devList.eraseP fun e => decide (e.funcId = d.funcId), freeList := free } := by
  have herased : m.devList.eraseP (fun e => decide (e.funcId = d.funcId)) = s ++ t := by
    rw [hlist, List.eraseP_append_right _ fun e he => by simpa using hs e he]
    simp
  rw [herased]
  have hsub : (s ++ t).Sublist m.devList := by
    rw [hlist]
    exact (List.Sublist.refl s).append (List.sublist_cons_self d t)
  exact ⟨h.base, h.bound, (hsub.map _).nodup h.funcs, hheld.freeOk,
    fun e he => h.entries e (hsub.subset he), (List.pairwise_cons.mp hheld.apart).2⟩

/-- No other function of a master holds a queue of the range of this one. -/
theorem OwnedOk.disjoint (h : OwnedOk m) {d e : DevEntry} (hd : d ∈ m.devList)
    (he : e ∈ m.devList) (hne : d ≠ e) : Disjoint d.entry.ids e.entry.ids := by
  have hranges := (List.pairwise_append.mp h.apart).2.1
  rw [ResourceMaster.ranges, List.pairwise_map] at hranges
  have : Std.Symm fun a b : DevEntry => Disjoint a.entry.ids b.entry.ids :=
    ⟨fun _ _ hab => hab.symm⟩
  exact hranges.forall hd he hne

/-- The range of a function lies in the queues of the master. -/
theorem OwnedOk.subset (h : OwnedOk m) {d : DevEntry} (hd : d ∈ m.devList) :
    d.entry.ids ⊆ Set.Ico m.qbase m.qend := by
  intro q hq
  rcases h.entries d hd with heq | hin
  · rw [heq, ResourceEntry.ids_eq_empty rfl] at hq
    exact hq.elim
  · exact ⟨hin.1.trans hq.1, hq.2.trans_le hin.2⟩

end Master

end OnicDriver.Resource
