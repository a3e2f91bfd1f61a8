import OnicDriver.Resource.Masters

/-!
# Allocation of queue ranges is complete and best-fit

While adjacent free ranges are merged, a request is met exactly when some
maximal run of free queues is long enough. A refused request of a function
that holds no queues may split a free range at the base it recorded earlier;
the runs considered here are those in which this does not happen.
-/

namespace OnicDriver.Resource

open Lib

/-- `base` starts a smallest maximal run of free queues that holds `qmax` queues. -/
def IsSmallestFit (F : Set ℤ) (qmax : ℕ) (base : ℤ) : Prop :=
  ∃ b, IsMaximalRun F base b ∧ qmax ≤ b - base ∧
    ∀ c d, IsMaximalRun F c d → qmax ≤ d - c → b - base ≤ d - c

/-- The outcome of a request for `qmax` queues from `qbase` among the free queues `F`. -/
structure BestFit (F : Set ℤ) (qmax : ℕ) (qbase : ℤ) (rv : ℤ) (entry : ResourceEntry) :
    Prop where
  complete : rv = QDMA_SUCCESS ↔ ∃ a b, IsMaximalRun F a b ∧ qmax ≤ b - a
  size : rv = QDMA_SUCCESS → entry.totalQ = qmax
  requested : rv = QDMA_SUCCESS → Set.Ico qbase (qbase + qmax) ⊆ F → entry.qbase = qbase
  smallest : rv = QDMA_SUCCESS → ¬ Set.Ico qbase (qbase + qmax) ⊆ F →
    IsSmallestFit F qmax entry.qbase

/-- Refusing a request is right when no free run is long enough. -/
theorem bestFit_of_refused {F : Set ℤ} {qmax : ℕ} {qbase : ℤ} {entry : ResourceEntry}
    (h : ¬ ∃ a b, IsMaximalRun F a b ∧ qmax ≤ b - a) :
    BestFit F qmax qbase (-QDMA_ERR_RM_NO_QUEUES_LEFT) entry := by
  have hne : ¬ (-QDMA_ERR_RM_NO_QUEUES_LEFT = QDMA_SUCCESS) := by decide
  exact ⟨iff_of_false hne h, fun hrv => absurd hrv hne, fun hrv => absurd hrv hne,
    fun hrv => absurd hrv hne⟩

section Outcome

variable {entry entry₁ entry' : ResourceEntry} {free free' : List ResourceEntry} {qmax : ℕ}
  {qbase rv : ℤ}

/-- A request leaves a coalesced free list coalesced, unless a refused request of a
function without queues splits a node at the base it recorded. -/
theorem RequestOutcome.coalesced
    (h : RequestOutcome entry entry₁ qmax qbase free rv entry' free')
    (hcoal : Coalesced ResourceEntry.qbase ResourceEntry.qend free)
    (hsafe : entry.totalQ = 0 → 0 < qmax → (∀ e ∈ free, e.totalQ < qmax) →
      ∀ e ∈ free, ¬ (e.qbase < entry.qbase ∧ entry.qbase < e.qend)) :
    Coalesced ResourceEntry.qbase ResourceEntry.qend free' := by
  cases h with
  | released => exact hcoal
  | granted cut n hpos hcut => exact hcut.coalesced hcoal fun hz => by omega
  | restored cut n hpos hnone hcut hbase =>
    refine hcut.coalesced hcoal fun hz => ?_
    rcases hbase with hbase | hbase
    · have hedge := hsafe hz hpos hnone n hcut.mem
      have hlower := hcut.lower
      have hupper := hcut.upper
      have hsize := hcut.size
      simp only [ResourceEntry.qend] at hedge hupper ⊢
      omega
    · exact Or.inl hbase
  | dropped => exact hcoal

/-- A request out of a coalesced free list is met whenever a free run is long enough, and
from the best place. -/
theorem RequestOutcome.bestFit
    (h : RequestOutcome entry entry₁ qmax qbase free rv entry' free')
    (hcoal : Coalesced ResourceEntry.qbase ResourceEntry.qend free) (hpos : 0 < qmax)
    (hfree : ∀ e ∈ free, 0 ≤ e.qbase) :
    BestFit (cover ResourceEntry.ids free) qmax qbase rv entry' := by
  have hrun := fun a b => hcoal.isMaximalRun_iff (a := a) (b := b)
  have hlong : (∃ a b, IsMaximalRun (cover ResourceEntry.ids free) a b ∧ qmax ≤ b - a) ↔
      ∃ e ∈ free, qmax ≤ e.totalQ := by
    constructor
    · rintro ⟨a, b, hab, hle⟩
      obtain ⟨e, he, rfl, rfl⟩ := (hrun a b).mp hab
      simp only [ResourceEntry.qend] at hle
      exact ⟨e, he, by omega⟩
    · rintro ⟨e, he, hle⟩
      refine ⟨e.qbase, e.qend, (hrun _ _).mpr ⟨e, he, rfl, rfl⟩, ?_⟩
      simp only [ResourceEntry.qend]
      omega
  have hholder : Set.Ico qbase (qbase + qmax) ⊆ cover ResourceEntry.ids free →
      ∃ e ∈ free, e.qbase ≤ qbase ∧ qbase + qmax ≤ e.qend :=
    hcoal.exists_of_subset (by omega)
  have hrefuse : (∀ e ∈ free, e.totalQ < qmax) →
      ¬ ∃ a b, IsMaximalRun (cover ResourceEntry.ids free) a b ∧ qmax ≤ b - a := by
    intro hnone h
    obtain ⟨e, he, hle⟩ := hlong.mp h
    exact absurd (hnone e he) (not_lt.mpr hle)
  cases h with
  | released hzero => omega
  | restored cut n _ hnone => exact bestFit_of_refused (hrefuse hnone)
  | dropped _ hnone => exact bestFit_of_refused (hrefuse hnone)
  | granted cut n _ hcut hbase =>
    have hlower := hcut.lower
    have hupper := hcut.upper
    have hsize := hcut.size
    have hfits : qmax ≤ n.totalQ := by
      simp only [ResourceEntry.qend] at hupper
      omega
    refine ⟨⟨fun _ => hlong.mpr ⟨n, hcut.mem, hfits⟩, fun _ => rfl⟩, fun _ => hsize,
      fun _ hsub => ?_, fun _ hsub => ?_⟩
    · rcases hbase with ⟨-, hbase⟩ | ⟨hnot, -⟩
      · exact hbase
      · obtain ⟨e, he, hle, hend⟩ := hholder hsub
        exact absurd ⟨hle, hend⟩ (hnot e he ((hfree e he).trans hle))
    · rcases hbase with ⟨-, hbase⟩ | ⟨-, hbase, hmin⟩
      · -- the requested range lies in the node it was cut from, so it was free
        refine absurd ?_ hsub
        intro x hx
        rw [hbase] at hlower
        simp only [ResourceEntry.qend, hbase, hsize] at hupper
        exact mem_cover.mpr ⟨n, hcut.mem, hlower.trans hx.1, hx.2.trans_le hupper⟩
      · rw [hbase]
        refine ⟨n.qend, (hrun _ _).mpr ⟨n, hcut.mem, rfl, rfl⟩, ?_, ?_⟩
        · simp only [ResourceEntry.qend]
          omega
        · intro c d hcd hle
          obtain ⟨e, he, rfl, rfl⟩ := (hrun c d).mp hcd
          simp only [ResourceEntry.qend] at hle ⊢
          have := hmin e he (by omega)
          omega

/-- A request for queues out of a free list without queues is refused, rightly so. -/
theorem RequestOutcome.bestFit_of_empty
    (h : RequestOutcome entry entry₁ qmax qbase free rv entry' free') (hpos : 0 < qmax)
    (hempty : ∀ e ∈ free, e.totalQ = 0) :
    BestFit (cover ResourceEntry.ids free) qmax qbase rv entry' := by
  have hcover : cover ResourceEntry.ids free = ∅ := by
    refine Set.eq_empty_iff_forall_notMem.mpr fun x hx => ?_
    obtain ⟨e, he, hxe⟩ := mem_cover.mp hx
    rw [ResourceEntry.ids_eq_empty (hempty e he)] at hxe
    exact hxe
  have hrefuse : ¬ ∃ a b, IsMaximalRun (cover ResourceEntry.ids free) a b ∧ qmax ≤ b - a := by
    rintro ⟨a, b, ⟨hab, hsub, -⟩, -⟩
    rw [hcover] at hsub
    exact hsub ⟨le_rfl, hab⟩
  cases h with
  | released hzero => omega
  | restored => exact bestFit_of_refused hrefuse
  | dropped => exact bestFit_of_refused hrefuse
  | granted cut n _ hcut =>
    have hlower := hcut.lower
    have hupper := hcut.upper
    have hsize := hcut.size
    have hzero := hempty n hcut.mem
    simp only [ResourceEntry.qend] at hupper
    omega

end Outcome

/-! ## The free list between two calls -/

/-- A master in order whose adjacent free ranges are merged. -/
structure MergedOk (m : ResourceMaster) : Prop extends MasterOk m where
  coalesced : m.qbase < m.qend → Coalesced ResourceEntry.qbase ResourceEntry.qend m.freeList

/-- The queues of a master that no function but `funcId` holds. -/
def ResourceMaster.freeFor (m : ResourceMaster) (funcId : ℕ) : Set ℤ :=
  {q | q ∈ Set.Ico m.qbase m.qend ∧ ∀ d ∈ m.devList, d.funcId ≠ funcId → q ∉ d.entry.ids}

section Merged

variable {m : ResourceMaster} {d : DevEntry} {s t : List DevEntry}

/-- The own range and the free ranges are the queues that no other function holds. -/
theorem MasterOk.freeFor_eq (h : MasterOk m) (hlist : m.devList = s ++ d :: t) :
    m.freeFor d.funcId = cover ResourceEntry.ids (d.entry :: m.freeList) := by
  have htiles := (h.requestOk hlist).tiles
  rw [← List.cons_append] at htiles
  obtain ⟨-, -, hcross⟩ := List.pairwise_append.mp htiles.1
  have hothers : ∀ e, e ∈ s ++ t ↔ e ∈ m.devList ∧ e.funcId ≠ d.funcId := by
    have hfuncs := h.funcs
    rw [hlist, List.map_append, List.map_cons, List.nodup_middle, List.nodup_cons,
      ← List.map_append] at hfuncs
    intro e
    rw [hlist]
    constructor
    · intro he
      refine ⟨by simp only [List.mem_append, List.mem_cons] at he ⊢; tauto, fun heq => ?_⟩
      exact hfuncs.1 (heq ▸ List.mem_map_of_mem he)
    · rintro ⟨he, hne⟩
      simp only [List.mem_append, List.mem_cons] at he ⊢
      rcases he with he | rfl | he
      · exact Or.inl he
      · exact absurd rfl hne
      · exact Or.inr he
  ext q
  constructor
  · rintro ⟨hq, hnone⟩
    rw [← htiles.2, cover_append] at hq
    rcases hq with hq | hq
    · exact hq
    · obtain ⟨e, he, hqe⟩ := mem_cover.mp hq
      obtain ⟨o, ho, rfl⟩ := List.mem_map.mp he
      obtain ⟨hmem, hne⟩ := (hothers o).mp ho
      exact absurd hqe (hnone o hmem hne)
  · intro hq
    obtain ⟨p, hp, hqp⟩ := mem_cover.mp hq
    refine ⟨htiles.subset (List.mem_append_left _ hp) hqp, fun e he hne hqe => ?_⟩
    have hmem := List.mem_map_of_mem (f := DevEntry.entry) ((hothers e).mpr ⟨he, hne⟩)
    exact Set.disjoint_left.mp (hcross p hp _ hmem) hqp hqe

/-- Submitting the own range merges the free list, which then covers both. -/
theorem MergedOk.submit (h : MergedOk m) (hlist : m.devList = s ++ d :: t) :
    ∃ entry₁ free₁, qdmaSubmitToFreeList d.entry m.freeList [] = (entry₁, free₁, []) ∧
      FreeOk m.qbase m.qend free₁ ∧
      (m.qbase < m.qend → Coalesced ResourceEntry.qbase ResourceEntry.qend free₁) ∧
      (d.entry.totalQ = 0 → free₁ = m.freeList) ∧
      cover ResourceEntry.ids free₁ = m.freeFor d.funcId := by
  have hreq := h.requestOk hlist
  have hown : Tiles ResourceEntry.ids (d.entry :: (m.freeList ++ []))
      (cover ResourceEntry.ids (d.entry :: m.freeList)) := by
    have htiles := hreq.tiles
    rw [← List.cons_append] at htiles
    rw [List.append_nil]
    exact ⟨(List.pairwise_append.mp htiles.1).1, rfl⟩
  obtain ⟨entry₁, free₁, hsubmit, hfree₁, -, -, ht, hsame, hmerged⟩ :=
    qdmaSubmitToFreeList_spec h.base h.bound hreq.freeOk hreq.entryOk hown
  refine ⟨entry₁, free₁, hsubmit, hfree₁, fun hlt => ?_, fun hz => (hsame hz).2, ?_⟩
  · by_cases hzero : d.entry.totalQ = 0
    · rw [(hsame hzero).2]
      exact h.coalesced hlt
    · exact hmerged (Nat.pos_of_ne_zero hzero)
  · rw [h.freeFor_eq hlist, ← ht.2, List.append_nil]

end Merged

/-! ## Runs -/

/-- The calls that keep free ranges merged. Besides the conditions on the arguments, an
update that asks for more queues than any free range has, by a function without queues,
must not find the base recorded for that function strictly inside a free range. -/
def Safe (s : ResourceState) (op : ResourceOp) : Prop :=
  op.InRange ∧ ∀ i f qmax qbase mem m d, op = .devUpdate i f qmax qbase mem →
    qdmaGetMasterResourceEntry s i = some m → m.devEntry f = some d → d.entry.totalQ = 0 →
    0 < qmax → (∀ e ∈ m.freeList, e.totalQ < qmax) →
    ∀ e ∈ m.freeList, ¬ (e.qbase < d.entry.qbase ∧ d.entry.qbase < e.qend)

/-- Every safe step of a master keeps its free list merged. -/
theorem MasterStep.mergedOk {s : ResourceState} {i : ℕ} {m m' : ResourceMaster}
    {op : ResourceOp} (h : MasterStep i m op m') (hm : MergedOk m) (hop : Safe s op)
    (hget : qdmaGetMasterResourceEntry s i = some m) : MergedOk m' := by
  refine ⟨h.masterOk hm.toMasterOk hop.1, ?_⟩
  cases h with
  | addDev f mem hnew => exact hm.coalesced
  | eraseDev d mem mem' entry free hdev hsubmit =>
    obtain rfl : mem = [] := hop.1
    obtain ⟨-, l, r, hlist, -⟩ := ResourceMaster.devEntry_split hdev
    obtain ⟨entry₁, free₁, heq, -, hcoal, -, -⟩ := hm.submit hlist
    cases hsubmit.symm.trans heq
    exact hcoal
  | update d qmax qbase rv mem mem' entry free hdev hreq =>
    obtain ⟨⟨rfl, hwrap⟩, hsafe⟩ := hop
    obtain ⟨-, l, r, hlist, -⟩ := ResourceMaster.devEntry_split hdev
    obtain ⟨entry₁, free₁, hsubmit, hfree₁, hcoal, hsame, -⟩ := hm.submit hlist
    obtain ⟨rv₁, entry', free', heq, hout⟩ := qdmaRequestQResource_outcome hm.base hm.bound
      (hm.entries d (by simp [hlist])) hfree₁ hsubmit hwrap
    cases hreq.symm.trans heq
    intro hlt
    refine hout.coalesced (hcoal hlt) fun hzero hpos hnone => ?_
    rw [hsame hzero] at hnone ⊢
    exact hsafe i d.funcId qmax qbase [] m d rfl hget hdev hzero hpos hnone

/-- Free ranges are merged after any safe run. -/
theorem run_mergedOk {ops : List ResourceOp} (hops : Admitted exec Safe {} ops) :
    ∀ m ∈ (run exec {} ops).masterResourceList, MergedOk m := by
  have hinit : ∀ m ∈ ({} : ResourceState).masterResourceList, MergedOk m := by simp
  refine hops.invariant (I := fun s => ∀ m ∈ s.masterResourceList, MergedOk m) ?_ hinit
  intro s op hs hop
  refine exec_preserves ?_ (fun i m m' hget hm hstep => hstep.mergedOk hm hop hget) hs
  rintro i busStart busEnd qBase totalQ mem rfl
  refine ⟨masterOk_newMaster hop.1.2.1 hop.1.2.2, fun hlt => ⟨?_, List.pairwise_singleton _ _⟩⟩
  intro e he
  rw [List.mem_singleton.mp he]
  exact hlt

/-- Writing back the entry of a function and reading it again. -/
theorem qdmaGetDevEntry_setMaster {s : ResourceState} {i : ℕ} {m : ResourceMaster}
    {d : DevEntry} {entry : ResourceEntry} {free : List ResourceEntry}
    (hget : qdmaGetMasterResourceEntry s i = some m) (hdev : m.devEntry d.funcId = some d) :
    qdmaGetDevEntry (s.setMaster ({ m with freeList := free }.setDev { d with entry := entry })) i
      d.funcId = some { d with entry := entry } := by
  obtain rfl : m.dmaDeviceIndex = i := by simpa using List.find?_some hget
  have hmaster : qdmaGetMasterResourceEntry
      (s.setMaster ({ m with freeList := free }.setDev { d with entry := entry }))
      m.dmaDeviceIndex = some ({ m with freeList := free }.setDev { d with entry := entry }) :=
    find?_writeFirst hget (by simp [ResourceMaster.setDev])
  unfold qdmaGetDevEntry
  rw [hmaster, Option.bind_some]
  exact find?_writeFirst hdev (by simp)

/-- After any safe run, an update that asks for queues succeeds exactly when, with the own
range returned, some maximal run of free queues is long enough. The function then holds the
requested range if that was free, and else the start of a smallest run that fits. -/
theorem qdmaDevUpdate_bestFit (ops : List ResourceOp) (hops : Admitted exec Safe {} ops)
    (i f qmax : ℕ) (qbase : ℤ) (m : ResourceMaster) (d : DevEntry) (hpos : 0 < qmax)
    (hwrap : 0 ≤ qbase → qbase + qmax < 2 ^ 32)
    (hm : qdmaGetMasterResourceEntry (run exec {} ops) i = some m)
    (hd : m.devEntry f = some d) :
    ∃ rv base s', qdmaDevUpdate (run exec {} ops) i f qmax qbase [] = (rv, base, s') ∧
      ∃ d', qdmaGetDevEntry s' i f = some d' ∧ d'.entry.qbase = base ∧
        BestFit (m.freeFor f) qmax qbase rv d'.entry := by
  have hok := run_mergedOk hops m (List.mem_of_find?_eq_some hm)
  obtain ⟨rfl, l, r, hlist, hl⟩ := ResourceMaster.devEntry_split hd
  obtain ⟨entry₁, free₁, hsubmit, hfree₁, hcoal, -, hcover⟩ := hok.submit hlist
  obtain ⟨rv, entry, free, heq, hout⟩ := qdmaRequestQResource_outcome hok.base hok.bound
    (hok.entries d (by simp [hlist])) hfree₁ hsubmit hwrap
  have hidle := hok.idle d (by simp [hlist])
  have hupdate : qdmaDevUpdate (run exec {} ops) i d.funcId qmax qbase [] =
      (rv, entry.qbase, (run exec {} ops).setMaster
        ({ m with freeList := free }.setDev { d with entry := entry })) := by
    unfold qdmaDevUpdate
    rw [hm]
    dsimp only
    rw [hd]
    dsimp only
    rw [if_neg (by simp [hidle]), heq]
  refine ⟨rv, entry.qbase, _, hupdate, _, qdmaGetDevEntry_setMaster hm hd, rfl, ?_⟩
  rw [← hcover]
  by_cases hlt : m.qbase < m.qend
  · exact hout.bestFit (hcoal hlt) hpos fun e he => hok.base.trans (hfree₁.inside e he).1
  · refine hout.bestFit_of_empty hpos fun e he => ?_
    have hin := hfree₁.inside e he
    simp only [Inside, ResourceEntry.qend] at hin
    omega

/-- The theorem at a run that ends with four of eight queues taken, and a request for
the other four. -/
theorem qdmaDevUpdate_bestFit_four_of_eight :
    ∃ rv base s', qdmaDevUpdate (run exec {} [.masterResourceCreate 0 0 0 8 [],
        .devEntryCreate 0 0 [], .devEntryCreate 0 1 [], .devUpdate 0 0 4 (-1) []]) 0 1 4 (-1) [] =
          (rv, base, s') ∧
      ∃ d', qdmaGetDevEntry s' 0 1 = some d' ∧ d'.entry.qbase = base ∧
        BestFit (ResourceMaster.freeFor
          { dmaDeviceIndex := 0, pciBusStart := 0, pciBusEnd := 0, totalQ := 8, qbase := 0
            devList := [{ funcId := 0, entry := ⟨0, 4⟩ }, { funcId := 1, entry := ⟨-1, 0⟩ }]
            freeList := [⟨4, 4⟩] } 1) 4 (-1) rv d'.entry := by
  refine qdmaDevUpdate_bestFit _ ?_ 0 1 4 (-1) _ { funcId := 1, entry := ⟨-1, 0⟩ } (by decide)
    (by decide) rfl rfl
  refine ⟨⟨by simp [ResourceOp.InRange], by simp⟩, ⟨rfl, by simp⟩, ⟨rfl, by simp⟩,
    ⟨⟨rfl, by simp⟩, ?_⟩, trivial⟩
  intro i f qmax qbase mem m d hop hm hd hzero hpos hnone
  cases hop
  obtain rfl := Option.some.inj hm
  exact absurd (hnone ⟨0, 8⟩ List.mem_cons_self) (by decide)

/-- A run in which a refused request splits the free list: the second function is refused
while it holds no queues but has base 4 on record from an earlier refusal. -/
def fragmentingRun : List ResourceOp :=
  [.masterResourceCreate 0 0 0 8 [], .devEntryCreate 0 0 [], .devEntryCreate 0 1 [],
    .devUpdate 0 0 4 (-1) [], .devUpdate 0 1 5 (-1) [], .devUpdate 0 0 0 (-1) [],
    .devUpdate 0 1 9 (-1) []]

/-- After that run all eight queues are free, and yet a request for eight is refused. -/
theorem qdmaDevUpdate_refuses_free_run :
    (∀ op ∈ fragmentingRun, op.InRange) ∧
      ∃ m, qdmaGetMasterResourceEntry (run exec {} fragmentingRun) 0 = some m ∧
        IsMaximalRun (m.freeFor 1) 0 8 ∧
        (qdmaDevUpdate (run exec {} fragmentingRun) 0 1 8 (-1) []).1 ≠ QDMA_SUCCESS := by
  refine ⟨by simp [fragmentingRun, ResourceOp.InRange],
    { dmaDeviceIndex := 0, pciBusStart := 0, pciBusEnd := 0, totalQ := 8, qbase := 0
      devList := [{ funcId := 0, entry := ⟨-1, 0⟩ }, { funcId := 1, entry := ⟨4, 0⟩ }]
      freeList := [⟨0, 4⟩, ⟨4, 4⟩] }, rfl, ?_, by decide⟩
  have hfree : ResourceMaster.freeFor
      { dmaDeviceIndex := 0, pciBusStart := 0, pciBusEnd := 0, totalQ := 8, qbase := 0
        devList := [{ funcId := 0, entry := ⟨-1, 0⟩ }, { funcId := 1, entry := ⟨4, 0⟩ }]
        freeList := [⟨0, 4⟩, ⟨4, 4⟩] } 1 = Set.Ico 0 8 := by
    ext q
    simp [ResourceMaster.freeFor, ResourceMaster.qend, interval, ResourceEntry.qend]
  rw [hfree]
  exact ⟨by decide, le_rfl, fun c d _ hsub => hsub⟩

end OnicDriver.Resource
