import OnicDriver.Resource.BestFit
import OnicDriver.Resource.Refused
import Mathlib.Data.Fintype.EquivFin

/-!
# What a refused update changes

The reports of all later calls tell two free lists apart. A refused update
therefore goes unnoticed exactly if it leaves the state as it was.
-/

namespace OnicDriver.Resource

open Lib

variable {lo hi : ℤ} {free : List ResourceEntry} {qmax : ℕ} {qbase : ℤ}

/-! ## What later requests see -/

/-- What a call tells its caller: the return value and the number written back. -/
def report (s : ResourceState) : ResourceOp → ℤ × ℤ
  | .masterResourceCreate busStart busEnd qBase totalQ mem =>
    let r := qdmaMasterResourceCreate s busStart busEnd qBase totalQ mem
    (r.1, r.2.1)
  | .devEntryCreate i f mem => ((qdmaDevEntryCreate s i f mem).1, 0)
  | .devEntryDestroy _ _ _ => (0, 0)
  | .devUpdate i f qmax qbase mem =>
    let r := qdmaDevUpdate s i f qmax qbase mem
    (r.1, r.2.1)

/-- What the calls of a run tell their callers. -/
def reports : ResourceState → List ResourceOp → List (ℤ × ℤ)
  | _, [] => []
  | s, op :: ops => report s op :: reports (exec s op) ops

theorem reports_append (s : ResourceState) (ops ops' : List ResourceOp) :
    reports s (ops ++ ops') = reports s ops ++ reports (run exec s ops) ops' := by
  induction ops generalizing s with
  | nil => rfl
  | cons op ops ih =>
    simp only [List.cons_append, reports, ih]
    rfl

/-- What a new function is told that asks for `qmax` queues from `qbase` on. -/
def answer (free : List ResourceEntry) (qmax : ℕ) (qbase : ℤ) : ℤ × ℤ :=
  let r := qdmaRequestQResource ⟨-1, 0⟩ qmax qbase free []
  (r.1, r.2.1.qbase)

/-- A new function gets the range it asks for exactly if a free range holds it. -/
theorem answer_eq_iff (hlo : 0 ≤ lo) (hhi : hi < 2 ^ 31) (hfree : FreeOk lo hi free)
    (hpos : 0 < qmax) (hq : 0 ≤ qbase) (hwrap : qbase + qmax < 2 ^ 32) :
    answer free qmax qbase = (QDMA_SUCCESS, qbase) ↔ HoldsRange free qmax qbase := by
  have hrefused : -QDMA_ERR_RM_NO_QUEUES_LEFT ≠ QDMA_SUCCESS := by decide
  have hsubmit : qdmaSubmitToFreeList ⟨-1, 0⟩ free [] = (⟨-1, 0⟩, free, []) := rfl
  have hend : 0 ≤ qbase → qbase + qmax < 2 ^ 32 := fun _ => hwrap
  obtain ⟨rv, entry', free', heq, hout⟩ :=
    qdmaRequestQResource_outcome hlo hhi (Or.inl rfl) hfree hsubmit hend
  unfold answer
  rw [heq]
  dsimp only
  cases hout with
  | released hzero => exact absurd hzero hpos.ne'
  | granted cut n _ hcut hbase =>
    have hholds : ∀ base : ℤ, cut.node.qbase = base → HoldsRange free qmax base := by
      rintro base rfl
      refine ⟨n, hcut.mem, hcut.lower, ?_⟩
      have hupper := hcut.upper
      simpa only [ResourceEntry.qend, hcut.size] using hupper
    constructor
    · exact fun hsame => hholds _ (Prod.mk.inj hsame).2
    · rintro ⟨e, he, hl, hr⟩
      rcases hbase with ⟨-, hbase⟩ | ⟨hnot, -⟩
      · rw [hbase]
      · exact absurd ⟨hl, hr⟩ (hnot e he hq)
  | restored cut n _ hnone =>
    refine ⟨fun hsame => absurd (Prod.mk.inj hsame).1 hrefused, ?_⟩
    rintro ⟨e, he, hl, hr⟩
    have hsmall := hnone e he
    simp only [ResourceEntry.qend] at hr
    omega
  | dropped _ hnone =>
    refine ⟨fun hsame => absurd (Prod.mk.inj hsame).1 hrefused, ?_⟩
    rintro ⟨e, he, hl, hr⟩
    have hsmall := hnone e he
    simp only [ResourceEntry.qend] at hr
    omega

/-- Writing a master back twice. -/
theorem setMaster_setMaster {s : ResourceState} {m m' : ResourceMaster}
    (h : m'.dmaDeviceIndex = m.dmaDeviceIndex) : (s.setMaster m).setMaster m' = s.setMaster m' := by
  unfold ResourceState.setMaster
  dsimp only
  rw [h]
  congr 1
  induction s.masterResourceList with
  | nil => rfl
  | cons n l ih =>
    by_cases hn : n.dmaDeviceIndex = m.dmaDeviceIndex
    · simp [writeFirst, hn]
    · simp [writeFirst, hn, ih]

/-- Writing back what was found. -/
theorem setMaster_self {s : ResourceState} {i : ℕ} {m : ResourceMaster}
    (h : qdmaGetMasterResourceEntry s i = some m) : s.setMaster m = s := by
  obtain ⟨hi, l, r, hlist, hl⟩ := List.find?_eq_some_iff_append.mp h
  have hindex : m.dmaDeviceIndex = i := by simpa using hi
  have hwritten : writeFirst (fun n => decide (n.dmaDeviceIndex = m.dmaDeviceIndex)) m
      s.masterResourceList = s.masterResourceList := by
    rw [hlist]
    refine writeFirst_append (fun n hn => ?_) (by simp)
    rw [hindex]
    simpa using hl n hn
  unfold ResourceState.setMaster
  rw [hwritten]

theorem qdmaGetMasterResourceEntry_setMaster {s : ResourceState} {i : ℕ} {m m' : ResourceMaster}
    (h : qdmaGetMasterResourceEntry s i = some m) (hindex : m'.dmaDeviceIndex = m.dmaDeviceIndex) :
    qdmaGetMasterResourceEntry (s.setMaster m') i = some m' := by
  obtain rfl : m.dmaDeviceIndex = i := by simpa using List.find?_some h
  rw [← hindex] at h ⊢
  exact find?_writeFirst h (by simp)

/-- A new function and its first request. -/
def probe (i g qmax : ℕ) (qbase : ℤ) : List ResourceOp :=
  [.devEntryCreate i g [], .devUpdate i g qmax qbase []]

/-- The reports of a probe and the master afterwards. -/
theorem probe_spec {s : ResourceState} {i g : ℕ} {m : ResourceMaster}
    (hget : qdmaGetMasterResourceEntry s i = some m) (hnew : m.devEntry g = none)
    (qmax : ℕ) (qbase : ℤ) :
    reports s (probe i g qmax qbase) =
        [(QDMA_SUCCESS, 0), answer m.freeList qmax qbase] ∧
      run exec s (probe i g qmax qbase) =
        s.setMaster { m with
          devList := m.devList ++ [{ funcId := g
                                     entry := (qdmaRequestQResource ⟨-1, 0⟩ qmax qbase
                                       m.freeList []).2.1 }]
          freeList := (qdmaRequestQResource ⟨-1, 0⟩ qmax qbase m.freeList []).2.2.1 } := by
  have hfresh : ∀ d ∈ m.devList, d.funcId ≠ g := by
    simpa [ResourceMaster.devEntry] using hnew
  set m₁ : ResourceMaster :=
    { m with devList := m.devList ++ [{ funcId := g, entry := ⟨-1, 0⟩ }] } with hm₁
  have hcreate : qdmaDevEntryCreate s i g [] = (QDMA_SUCCESS, s.setMaster m₁) := by
    unfold qdmaDevEntryCreate
    rw [hget]
    dsimp only
    rw [hnew]
    rfl
  have hget₁ : qdmaGetMasterResourceEntry (s.setMaster m₁) i = some m₁ :=
    qdmaGetMasterResourceEntry_setMaster hget rfl
  have hdev : m₁.devEntry g = some { funcId := g, entry := ⟨-1, 0⟩ } := by
    have hskip : m.devList.find? (fun d => decide (d.funcId = g)) = none := hnew
    simp only [hm₁, ResourceMaster.devEntry, List.find?_append, hskip, Option.none_or]
    simp
  have hwritten : writeFirst (fun e : DevEntry => decide (e.funcId = g))
      { funcId := g
        entry := (qdmaRequestQResource ⟨-1, 0⟩ qmax qbase m.freeList []).2.1 } m₁.devList =
      m.devList ++ [{ funcId := g
                      entry := (qdmaRequestQResource ⟨-1, 0⟩ qmax qbase m.freeList []).2.1 }] :=
    writeFirst_append (t := []) (fun d hd => by simpa using hfresh d hd) (by simp)
  have hupdate : qdmaDevUpdate (s.setMaster m₁) i g qmax qbase [] =
      ((answer m.freeList qmax qbase).1, (answer m.freeList qmax qbase).2,
        s.setMaster { m with
          devList := m.devList ++ [{ funcId := g
                                     entry := (qdmaRequestQResource ⟨-1, 0⟩ qmax qbase
                                       m.freeList []).2.1 }]
          freeList := (qdmaRequestQResource ⟨-1, 0⟩ qmax qbase m.freeList []).2.2.1 }) := by
    unfold qdmaDevUpdate
    rw [hget₁]
    dsimp only
    rw [hdev]
    dsimp only
    rw [if_neg (by simp)]
    refine Prod.ext rfl (Prod.ext rfl ?_)
    dsimp only
    rw [@setMaster_setMaster s m₁]
    · unfold ResourceMaster.setDev
      dsimp only
      rw [hwritten]
    · rfl
  refine ⟨?_, ?_⟩
  · simp only [probe, reports, report, exec, hcreate, hupdate]
  · simp only [probe, run, List.foldl_cons, List.foldl_nil, exec, hcreate, hupdate]

/-! ## Telling free lists apart -/

/-- No run of calls tells which of the two free lists the master has. -/
def Alike (s : ResourceState) (m : ResourceMaster) (free free' : List ResourceEntry) : Prop :=
  ∀ ops, reports (s.setMaster { m with freeList := free }) ops =
    reports (s.setMaster { m with freeList := free' }) ops

theorem exists_newFunction (m : ResourceMaster) : ∃ g, m.devEntry g = none := by
  obtain ⟨g, hg⟩ := Infinite.exists_notMem_finset (m.devList.map DevEntry.funcId).toFinset
  refine ⟨g, ?_⟩
  simpa [ResourceMaster.devEntry] using hg

section Alike

variable {s : ResourceState} {i : ℕ} {m : ResourceMaster} {free' : List ResourceEntry}

/-- New functions get the same answers. -/
theorem Alike.answer_eq (h : Alike s m free free')
    (hget : qdmaGetMasterResourceEntry s i = some m) (qmax : ℕ) (qbase : ℤ) :
    answer free qmax qbase = answer free' qmax qbase := by
  obtain ⟨g, hg⟩ := exists_newFunction m
  have hsame := h (probe i g qmax qbase)
  have hprobe := fun l => probe_spec (m := { m with freeList := l })
    (qdmaGetMasterResourceEntry_setMaster hget rfl) hg qmax qbase
  rw [(hprobe free).1, (hprobe free').1] at hsame
  simpa using hsame

/-- Two free lists that hold the same ranges have the same nodes. -/
theorem mem_of_holdsRange (hfree : FreeOk lo hi free) (hlt : lo < hi)
    (hsame : ∀ e ∈ free ++ free',
      (HoldsRange free e.totalQ e.qbase ↔ HoldsRange free' e.totalQ e.qbase))
    {e : ResourceEntry} (he : e ∈ free) : e ∈ free' := by
  have hself : ∀ (l : List ResourceEntry), e ∈ l → HoldsRange l e.totalQ e.qbase :=
    fun l hl => ⟨e, hl, le_rfl, le_rfl⟩
  obtain ⟨a, ha, hal, har⟩ := (hsame e (by simp [he])).mp (hself free he)
  obtain ⟨b, hb, hbl, hbr⟩ := (hsame a (by simp [ha])).mpr ⟨a, ha, le_rfl, le_rfl⟩
  have hpos := hfree.pos hlt e he
  simp only [ResourceEntry.qend] at har hbr
  -- the node of the first list around the one of the second is the node we started with
  have hbe : b = e := by
    by_contra hne
    have horder : b.qend ≤ e.qbase ∨ e.qend ≤ b.qbase := by
      obtain ⟨k, l, rfl⟩ := List.mem_iff_append.mp he
      obtain ⟨-, hel, hcross⟩ := List.pairwise_append.mp hfree.ascending
      rcases List.mem_append.mp hb with hb | hb
      · exact Or.inl (hcross b hb e List.mem_cons_self)
      · rcases List.mem_cons.mp hb with rfl | hb
        · exact absurd rfl hne
        · exact Or.inr ((List.pairwise_cons.mp hel).1 b hb)
    simp only [ResourceEntry.qend] at horder
    omega
  rw [hbe] at hbl hbr
  have hae : a = e := by
    obtain ⟨a₁, a₂⟩ := a
    obtain ⟨e₁, e₂⟩ := e
    simp only [ResourceEntry.mk.injEq] at *
    omega
  rwa [hae] at ha

/-- The free lists of a master with queues are told apart. -/
theorem Alike.eq_of_queues (h : Alike s m free free')
    (hget : qdmaGetMasterResourceEntry s i = some m) (hlo : 0 ≤ lo) (hhi : hi < 2 ^ 31)
    (hfree : FreeOk lo hi free) (hfree' : FreeOk lo hi free') (hlt : lo < hi) : free = free' := by
  have hsame : ∀ e ∈ free ++ free',
      (HoldsRange free e.totalQ e.qbase ↔ HoldsRange free' e.totalQ e.qbase) := by
    intro e he
    have hbounds : Inside lo hi e ∧ 0 < e.totalQ := by
      rcases List.mem_append.mp he with he | he
      · exact ⟨hfree.inside e he, hfree.pos hlt e he⟩
      · exact ⟨hfree'.inside e he, hfree'.pos hlt e he⟩
    obtain ⟨hin, hpos⟩ := hbounds
    simp only [Inside, ResourceEntry.qend] at hin
    rw [← answer_eq_iff hlo hhi hfree hpos (by omega) (by omega),
      ← answer_eq_iff hlo hhi hfree' hpos (by omega) (by omega), h.answer_eq hget]
  have hnodup : ∀ {l : List ResourceEntry}, FreeOk lo hi l → l.Nodup := by
    intro l hl
    refine hl.ascending.imp_of_mem fun {a b} ha _ hab heq => ?_
    have hpos := hl.pos hlt a ha
    rw [← heq] at hab
    simp only [ResourceEntry.qend] at hab
    omega
  have hperm : free.Perm free' := by
    refine (List.perm_ext_iff_of_nodup (hnodup hfree) (hnodup hfree')).mpr fun e => ⟨?_, ?_⟩
    · exact mem_of_holdsRange hfree hlt hsame
    · refine mem_of_holdsRange hfree' hlt fun a ha => (hsame a ?_).symm
      simp only [List.mem_append] at ha ⊢
      exact ha.symm
  refine hperm.eq_of_pairwise (fun a b ha _ hab hba => ?_) hfree.ascending hfree'.ascending
  have hpos := hfree.pos hlt a ha
  simp only [ResourceEntry.qend] at hab hba
  omega

/-- A new function of a master without queues takes a node of the free list, if there is one. -/
theorem drain_spec (hlo : 0 ≤ lo) (hhi : hi < 2 ^ 31) (hfree : FreeOk lo hi free)
    (hempty : hi ≤ lo) :
    ∃ rv entry' free', qdmaRequestQResource ⟨-1, 0⟩ 1 (-1) free [] = (rv, entry', free', []) ∧
      FreeOk lo hi free' ∧
      ((free = [] ∧ entry' = ⟨-1, 0⟩) ∨ (free.length = free'.length + 1 ∧ entry' = ⟨lo, 0⟩)) := by
  have hnode : ∀ e ∈ free, e = ⟨lo, 0⟩ := by
    intro e he
    have hin := hfree.inside e he
    obtain ⟨b, k⟩ := e
    simp only [Inside, ResourceEntry.qend, ResourceEntry.mk.injEq] at hin ⊢
    omega
  have hsubmit : qdmaSubmitToFreeList ⟨-1, 0⟩ free [] = (⟨-1, 0⟩, free, []) := rfl
  have hend : 0 ≤ (-1 : ℤ) → -1 + ((1 : ℕ) : ℤ) < 2 ^ 32 := by simp
  obtain ⟨rv, entry', free', heq, hout⟩ :=
    qdmaRequestQResource_outcome hlo hhi (Or.inl rfl) hfree hsubmit hend
  refine ⟨rv, entry', free', heq, ?_⟩
  cases hout with
  | released hzero => exact absurd hzero one_ne_zero
  | granted cut n _ hcut =>
    have hupper := hcut.upper
    have hlower := hcut.lower
    rw [hnode n hcut.mem] at hupper hlower
    simp only [ResourceEntry.qend, hcut.size] at hupper hlower
    omega
  | restored cut n _ _ hcut =>
    have hkept := hcut.freeOk hfree
    obtain ⟨⟨b, k⟩, hn⟩ : ∃ e, e = cut.node := ⟨_, rfl⟩
    have hsize := hcut.size
    have hlower := hcut.lower
    have hupper := hcut.upper
    obtain ⟨l, r, hlist, hbefore, hafter⟩ := hcut.split
    have hmem := hnode n hcut.mem
    subst hmem
    rw [← hn] at hsize hlower hupper hbefore hafter
    simp only [ResourceEntry.qend] at hsize hlower hupper
    have hb : b = lo := by omega
    subst hb hsize
    refine ⟨hkept, Or.inr ⟨?_, hn.symm⟩⟩
    rw [hlist, hbefore, hafter]
    simp only [leftPart, rightPart, ResourceEntry.qend, lt_irrefl, if_false, List.length_append,
      List.length_cons, List.length_nil]
    omega
  | dropped _ _ hold =>
    refine ⟨hfree, Or.inl ⟨?_, rfl⟩⟩
    exact List.eq_nil_iff_forall_not_mem.mpr fun e he => absurd (hold e he) (by simp)

/-- After a new function took a node of each, the free lists are still alike. -/
theorem Alike.probe (h : Alike s m free free') (hget : qdmaGetMasterResourceEntry s i = some m)
    {rv rv' : ℤ} {entry : ResourceEntry} {rest rest' : List ResourceEntry}
    {mem mem' : CallocResults}
    (heq : qdmaRequestQResource ⟨-1, 0⟩ 1 (-1) free [] = (rv, entry, rest, mem))
    (heq' : qdmaRequestQResource ⟨-1, 0⟩ 1 (-1) free' [] = (rv', entry, rest', mem')) :
    ∃ s' m', qdmaGetMasterResourceEntry s' i = some m' ∧ Alike s' m' rest rest' := by
  obtain ⟨g, hg⟩ := exists_newFunction m
  have hprobe := fun l => probe_spec (m := { m with freeList := l })
    (qdmaGetMasterResourceEntry_setMaster hget rfl) hg 1 (-1)
  set m' : ResourceMaster :=
    { m with devList := m.devList ++ [{ funcId := g, entry := entry }] } with hm'
  have hindex : ∀ l l' : List ResourceEntry,
      (s.setMaster { m with freeList := l }).setMaster { m' with freeList := l' } =
        (s.setMaster m').setMaster { m' with freeList := l' } := by
    intro l l'
    refine Eq.trans (b := s.setMaster { m' with freeList := l' }) ?_ ?_
    · apply setMaster_setMaster
      rfl
    · apply Eq.symm
      apply setMaster_setMaster
      rfl
  obtain ⟨hreport, hrun⟩ := hprobe free
  obtain ⟨hreport', hrun'⟩ := hprobe free'
  dsimp only at hreport hrun hreport' hrun'
  rw [heq] at hrun
  rw [heq'] at hrun'
  refine ⟨s.setMaster m', m', qdmaGetMasterResourceEntry_setMaster hget rfl, fun ops => ?_⟩
  have hsame := h (Resource.probe i g 1 (-1) ++ ops)
  rw [reports_append, reports_append, hreport, hreport', h.answer_eq hget, hrun, hrun'] at hsame
  rw [← hindex free rest, ← hindex free' rest']
  exact List.append_cancel_left hsame

/-- The free lists of a master without queues are told apart by their lengths: each new function
takes a node. -/
theorem Alike.length_eq {k : ℕ} (hk : free.length = k) (h : Alike s m free free')
    (hget : qdmaGetMasterResourceEntry s i = some m) (hlo : 0 ≤ lo) (hhi : hi < 2 ^ 31)
    (hfree : FreeOk lo hi free) (hfree' : FreeOk lo hi free') (hempty : hi ≤ lo) :
    free'.length = k := by
  induction k generalizing s m free free' with
  | zero =>
    obtain ⟨rv, entry, rest, heq, -, hdrain⟩ := drain_spec hlo hhi hfree hempty
    obtain ⟨rv', entry', rest', heq', -, hdrain'⟩ := drain_spec hlo hhi hfree' hempty
    have hanswer := h.answer_eq hget 1 (-1)
    simp only [answer, heq, heq', Prod.mk.injEq] at hanswer
    rcases hdrain with ⟨-, rfl⟩ | ⟨hlength, -⟩
    · rcases hdrain' with ⟨rfl, -⟩ | ⟨-, rfl⟩
      · rfl
      · have hbase := hanswer.2
        dsimp only at hbase
        omega
    · omega
  | succ k ih =>
    obtain ⟨rv, entry, rest, heq, hrest, hdrain⟩ := drain_spec hlo hhi hfree hempty
    obtain ⟨rv', entry', rest', heq', hrest', hdrain'⟩ := drain_spec hlo hhi hfree' hempty
    have hanswer := h.answer_eq hget 1 (-1)
    simp only [answer, heq, heq', Prod.mk.injEq] at hanswer
    rcases hdrain with ⟨rfl, -⟩ | ⟨hlength, rfl⟩
    · cases hk
    · rcases hdrain' with ⟨-, rfl⟩ | ⟨hlength', rfl⟩
      · have hbase := hanswer.2
        dsimp only at hbase
        omega
      · obtain ⟨s', m', hget', halike⟩ := h.probe hget heq heq'
        have hshort := ih (by omega) halike hget' hrest hrest'
        omega

/-- Later calls tell any two free lists of a master apart. -/
theorem Alike.eq (h : Alike s m free free') (hget : qdmaGetMasterResourceEntry s i = some m)
    (hlo : 0 ≤ lo) (hhi : hi < 2 ^ 31) (hfree : FreeOk lo hi free) (hfree' : FreeOk lo hi free') :
    free = free' := by
  by_cases hlt : lo < hi
  · exact h.eq_of_queues hget hlo hhi hfree hfree' hlt
  · have hnode : ∀ {l : List ResourceEntry}, FreeOk lo hi l →
        l = List.replicate l.length ⟨lo, 0⟩ := by
      intro l hl
      refine List.eq_replicate_iff.mpr ⟨rfl, fun e he => ?_⟩
      have hin := hl.inside e he
      obtain ⟨b, k⟩ := e
      simp only [Inside, ResourceEntry.qend, ResourceEntry.mk.injEq] at hin ⊢
      omega
    rw [hnode hfree, hnode hfree', h.length_eq rfl hget hlo hhi hfree hfree' (not_lt.mp hlt)]

end Alike

/-! ## Refused updates -/

/-- The free queues of the master with the given index. -/
def freeIds (s : ResourceState) (i : ℕ) : Set ℤ :=
  match qdmaGetMasterResourceEntry s i with
  | some m => cover ResourceEntry.ids m.freeList
  | none => ∅

/-- The range of a function, the free queues and what all later calls report are the same in two
states. -/
structure Unchanged (s s' : ResourceState) (i f : ℕ) : Prop where
  entry : (qdmaGetDevEntry s' i f).map DevEntry.entry = (qdmaGetDevEntry s i f).map DevEntry.entry
  free : freeIds s' i = freeIds s i
  later : ∀ ops, reports s' ops = reports s ops

/-- An update of a known function without active queues that is refused puts everything back. -/
def UpdatePutsBack (s : ResourceState) (i f qmax : ℕ) (qbase : ℤ) (mem : CallocResults) : Prop :=
  ∀ m d, qdmaGetMasterResourceEntry s i = some m → m.devEntry f = some d →
    (d.activeH2cQcnt = 0 ∧ d.activeC2hQcnt = 0 ∧ d.activeCmptQcnt = 0) →
    PutsBack d.entry m.freeList qmax qbase mem

/-- A refused update changes nothing that can be seen, now or later, exactly if it puts back what
it gave back. -/
theorem refusedUpdate_unchanged_iff {s : ResourceState} {i f qmax : ℕ} {qbase : ℤ}
    {mem : CallocResults} (hs : ∀ m, qdmaGetMasterResourceEntry s i = some m → OwnedOk m)
    (hsafe : ∀ m d, qdmaGetMasterResourceEntry s i = some m → m.devEntry f = some d →
      RequestSafe qmax qbase (qdmaSubmitToFreeList d.entry m.freeList mem).2.1)
    (hrv : (qdmaDevUpdate s i f qmax qbase mem).1 < 0) :
    Unchanged s (qdmaDevUpdate s i f qmax qbase mem).2.2 i f ↔
      UpdatePutsBack s i f qmax qbase mem := by
  have hrefl : Unchanged s s i f := ⟨rfl, rfl, fun _ => rfl⟩
  unfold UpdatePutsBack
  unfold qdmaDevUpdate at hrv ⊢
  cases hget : qdmaGetMasterResourceEntry s i with
  | none => simpa using hrefl
  | some m =>
    rw [hget] at hrv
    dsimp only at hrv ⊢
    cases hdev : m.devEntry f with
    | none =>
      refine ⟨fun _ n e hn he => ?_, fun _ => hrefl⟩
      cases hn
      cases hdev.symm.trans he
    | some d =>
      rw [hdev] at hrv
      dsimp only at hrv ⊢
      by_cases hactive : d.activeH2cQcnt ≠ 0 ∨ d.activeC2hQcnt ≠ 0 ∨ d.activeCmptQcnt ≠ 0
      · rw [if_pos hactive]
        refine ⟨fun _ n e hn he hidle => ?_, fun _ => hrefl⟩
        cases hn
        cases hdev.symm.trans he
        omega
      · rw [if_neg hactive] at hrv ⊢
        have hok := hs m hget
        have hrequest := hsafe m d hget hdev
        obtain ⟨rfl, l, r, hlist, hl⟩ := ResourceMaster.devEntry_split hdev
        have hheld := hok.held hlist
        obtain ⟨rv, entry', free', mem', heq, hheld'⟩ :=
          qdmaRequestQResource_held hok.base hok.bound hheld mem hrequest
        rw [heq] at hrv ⊢
        dsimp only at hrv ⊢
        have hputs : (entry', free') = (d.entry, m.freeList) ↔
            PutsBack d.entry m.freeList qmax qbase mem := by
          unfold PutsBack
          by_cases hzero : d.entry.totalQ = 0
          · rw [if_pos hzero]
            refine hheld.empty_iff hok.base hok.bound hzero ?_ heq hrv
            unfold qdmaSubmitToFreeList at hrequest
            rwa [if_pos hzero] at hrequest
          · rw [if_neg hzero]
            exact hheld.range_iff hok.base hok.bound (Nat.pos_of_ne_zero hzero) hrequest heq hrv
        have hright : (∀ n e, some m = some n → n.devEntry d.funcId = some e →
            (e.activeH2cQcnt = 0 ∧ e.activeC2hQcnt = 0 ∧ e.activeCmptQcnt = 0) →
              PutsBack e.entry n.freeList qmax qbase mem) ↔
            PutsBack d.entry m.freeList qmax qbase mem := by
          constructor
          · exact fun hall => hall m d rfl hdev (by omega)
          · rintro hback n e hn he -
            cases hn
            cases hdev.symm.trans he
            exact hback
        rw [hright, ← hputs]
        constructor
        · intro hsame
          have hentry := hsame.entry
          rw [qdmaGetDevEntry_setMaster hget hdev, qdmaGetDevEntry, hget, Option.bind_some,
            hdev] at hentry
          obtain rfl : entry' = d.entry := Option.some.inj hentry
          have hself : ({ m with freeList := free' } : ResourceMaster).setDev
              { d with entry := d.entry } = { m with freeList := free' } := by
            unfold ResourceMaster.setDev
            dsimp only
            rw [hlist, writeFirst_append hl (by simp)]
          have halike : Alike s m free' m.freeList := by
            intro ops
            rw [← hself, hsame.later, setMaster_self hget]
          rw [halike.eq hget hok.base hok.bound hheld'.freeOk hok.freeOk]
        · intro hsame
          cases hsame
          have hself : ({ m with freeList := m.freeList } : ResourceMaster).setDev
              { d with entry := d.entry } = m := by
            unfold ResourceMaster.setDev
            rw [hlist, writeFirst_append hl (by simp), ← hlist]
          rw [hself, setMaster_self hget]
          exact hrefl

/-- Function 5 of a master with eight queues holds four of them. -/
def fourOfEight : ResourceState :=
  run exec {} [.masterResourceCreate 0 0 0 8 [], .devEntryCreate 0 5 [], .devUpdate 0 5 4 (-1) []]

/-- The four queues come back when nine are refused. -/
theorem fourOfEight_unchanged :
    (qdmaDevUpdate fourOfEight 0 5 9 (-1) []).1 < 0 ∧
      Unchanged fourOfEight (qdmaDevUpdate fourOfEight 0 5 9 (-1) []).2.2 0 5 := by
  have hrv : (qdmaDevUpdate fourOfEight 0 5 9 (-1) []).1 < 0 := by decide
  have hfits : ¬ Fits (givenBack ⟨0, 4⟩ [⟨4, 4⟩]) 9 := by decide
  have hcut : cutPoints (givenBack ⟨0, 4⟩ [⟨4, 4⟩]) 9 (-1) [] = ∅ := by simp [cutPoints, hfits]
  have hkept : RangeKept ⟨0, 4⟩ [⟨4, 4⟩] 9 (-1) [] := by
    refine ⟨rfl, fun x hx => ?_, ?_, ⟨fun _ => ?_, fun _ => ?_⟩⟩
    · exact absurd (hcut ▸ hx) (Set.notMem_empty x)
    · exact hcut.symm ▸ cutAt_empty_iff.mpr (by simp [Coalesced, ResourceEntry.qend])
    · simp [memoryAfter, hfits, qdmaCalloc]
    · simp [memoryAfter, hfits, qdmaCalloc]
  have hruns : StateOk fourOfEight :=
    run_stateOk (by simp [ResourceOp.InRange])
  refine ⟨hrv, (refusedUpdate_unchanged_iff (fun m hm => ?_) (fun m d _ _ hq => ?_) hrv).mpr ?_⟩
  · have hok := hruns m (List.mem_of_find?_eq_some hm)
    exact ⟨hok.base, hok.bound, hok.funcs, hok.freeOk, hok.entries, hok.tiles.1⟩
  · exact absurd hq (by decide)
  · rintro m d hm hd -
    cases hm
    cases hd
    exact hkept

/-- A new function of a master with eight queues. -/
def freshOfEight : ResourceState :=
  run exec {} [.masterResourceCreate 0 0 0 8 [], .devEntryCreate 0 5 []]

/-- A new function that asks for more queues than there are keeps a base it did not have. -/
theorem freshOfEight_changed :
    (qdmaDevUpdate freshOfEight 0 5 16 (-1) []).1 < 0 ∧
      ¬ Unchanged freshOfEight (qdmaDevUpdate freshOfEight 0 5 16 (-1) []).2.2 0 5 := by
  refine ⟨by decide, fun h => ?_⟩
  exact absurd h.entry (by decide)

end OnicDriver.Resource
