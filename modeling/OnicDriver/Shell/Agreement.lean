import OnicDriver.Mailbox.Ownership
import OnicDriver.Open.Kept
import OnicDriver.Open.Requests
import OnicDriver.Resource.Granted
import OnicDriver.Shell.Probe

/-!
# The shell and the resource manager on the queues of a function

What a probe tells the shell is the configuration file; what the function gets
is the decision of the resource manager. The two agree if the range of the
file is free, or is the one that an earlier, failed opening left to the
function.
-/

namespace OnicDriver.Shell

open Lib Queue Resource Open Access Mailbox

/-- The range that `qdma_device_open` obtains for the function of a probe. -/
def obtainedRange (env : ProbeEnv) (pinfo : PlatformInfo) (s : HostState) : Option ResourceEntry :=
  let opened := (qdmaDeviceOpen env.device true (some (onicQdmaDevConf env pinfo)) s).2.2
  (qdmaGetDevEntry opened.rm (dmaDeviceIndex env s.rm) env.device.funcId).map DevEntry.entry

/-- QCONF has the base of the range and a number of queues within it, and the indirection table
has queues below that number. -/
structure ShellAgrees (port : ℕ) (reta : List (ℕ × ℕ)) (range : ResourceEntry) : Prop where
  qconf : ∃ v, (QDMA_FUNC_OFFSET_QCONF port, v) ∈ reta
  base : ∀ v, (QDMA_FUNC_OFFSET_QCONF port, v) ∈ reta →
    (FIELD_GET QDMA_FUNC_QCONF_QBASE_MASK v : ℤ) = range.qbase
  number : ∀ v, (QDMA_FUNC_OFFSET_QCONF port, v) ∈ reta →
    FIELD_GET QDMA_FUNC_QCONF_NUMQ_MASK v ≤ range.totalQ
  entries : ∀ i < 128, ∃ w, (QDMA_FUNC_OFFSET_INDIR_TABLE port i, w) ∈ reta
  table : ∀ v i w, (QDMA_FUNC_OFFSET_QCONF port, v) ∈ reta →
    (QDMA_FUNC_OFFSET_INDIR_TABLE port i, w) ∈ reta → w < FIELD_GET QDMA_FUNC_QCONF_NUMQ_MASK v

/-- What a probe writes to the shell agrees with the range that the device obtained. -/
def EventAgrees (s : HostState) : HostEvent → Prop
  | .probe env (.ok pinfo) => ∀ reta, (onicPciProbe env (.ok pinfo) s).reta = some reta →
      ∃ range, obtainedRange env pinfo s = some range ∧ ShellAgrees pinfo.portId.toNat reta range
  | _ => True

/-- The master of the buses of a function, new if there was none. -/
def functionMaster (env : ProbeEnv) (rm : ResourceState) : Option ResourceMaster :=
  let (_, index, rm) := qdmaMasterResourceCreate rm env.device.busNumber env.device.busMax
    QDMA_QBASE QDMA_TOTAL_Q env.device.masterMem
  qdmaGetMasterResourceEntry rm index

/-- The range of the file is what the resource manager has for the function. A function without an
entry finds the range free. A function with an entry asks for the range in the entry: it begins at
the base of the file, or, if there is no memory to give it back first, the last smallest free range
that fits does; and the number of queues fits in. -/
def RangeReady (env : ProbeEnv) (pinfo : PlatformInfo) (rm : ResourceState) : Prop :=
  ∀ m, functionMaster env rm = some m →
    match m.devEntry env.device.funcId with
    | none => HoldsRange m.freeList pinfo.queueMax.toNat pinfo.queueBase.toNat
    | some d => realNumRxQueues env pinfo ≤ d.entry.totalQ ∧
      if (qdmaCalloc env.device.updateMem).1 = true then d.entry.qbase = pinfo.queueBase.toNat
      else LastSmallestFit m.freeList d.entry.totalQ pinfo.queueBase.toNat

/-- The probes that come to write to the shell find the range of the file ready. -/
def EventReady (s : HostState) : HostEvent → Prop
  | .probe env (.ok pinfo) =>
    (onicPciProbe env (.ok pinfo) s).reta ≠ none → RangeReady env pinfo s.rm
  | _ => True

/-- What the network stack guarantees: a network device has queues, and the number of those in use
is at least one and at most that. -/
structure NetdevOk (env : ProbeEnv) (pinfo : PlatformInfo) : Prop where
  queues : env.netdev = true → 0 < pinfo.queueMax.toNat
  inUse : env.setRealNum = true → 0 < realNumRxQueues env pinfo ∧
    realNumRxQueues env pinfo ≤ pinfo.queueMax.toNat

/-- The functions probed are physical, and the requests for other functions do not wrap. -/
def EventOk (s : HostState) : HostEvent → Prop
  | .probe env (.ok pinfo) => env.device.isVf = false ∧ NetdevOk env pinfo
  | .probe env (.error _) => env.device.isVf = false
  | .remove .. => True
  | .resource op => CallSafe s.rm op

/-! ## The opening of a device -/

section

variable {env : OpenEnv} {conf : DevConf} {rm rm' : ResourceState} {i : ℕ} {rv : ℤ}

/-- The part of an update that succeeds: the entry holds what was granted. -/
theorem qdmaDevUpdate_granted {m : ResourceMaster} {d : DevEntry} {f qmax : ℕ} {qbase : ℤ}
    {mem : CallocResults} (hm : qdmaGetMasterResourceEntry rm i = some m)
    (hd : m.devEntry f = some d) (hok : OwnedOk m) (hwrap : 0 ≤ qbase → qbase + qmax < 2 ^ 32)
    (hrv : 0 ≤ (qdmaDevUpdate rm i f qmax qbase mem).1) :
    ∃ e, qdmaGetDevEntry (qdmaDevUpdate rm i f qmax qbase mem).2.2 i f =
        some { d with entry := e } ∧
      (0 < qmax → e.totalQ = qmax ∧ GrantedAt (qdmaSubmitToFreeList d.entry m.freeList mem).2.1
        qmax qbase e.qbase) ∧
      (qmax = 0 → d.entry.totalQ = 0 → e.totalQ = 0) := by
  obtain ⟨rfl, l, r, hlist, hl⟩ := ResourceMaster.devEntry_split hd
  have hheld := hok.held hlist
  unfold qdmaDevUpdate at hrv ⊢
  rw [hm] at hrv ⊢
  dsimp only at hrv ⊢
  rw [hd] at hrv ⊢
  dsimp only at hrv ⊢
  split at hrv
  · exact absurd hrv (show ¬ (0 : ℤ) ≤ -QDMA_ERR_RM_QMAX_CONF_REJECTED by decide)
  · rename_i hidle
    rw [if_neg hidle]
    cases hreq : qdmaRequestQResource d.entry qmax qbase m.freeList mem with
    | mk rv rest =>
      obtain ⟨e, free, mem'⟩ := rest
      rw [hreq] at hrv
      dsimp only at hrv ⊢
      refine ⟨e, qdmaGetDevEntry_setMaster hm hd, fun hpos => ?_, ?_⟩
      · exact qdmaRequestQResource_granted hok.base hok.bound hheld hpos hwrap hreq hrv
      · rintro rfl hzero
        unfold qdmaRequestQResource qdmaSubmitToFreeList at hreq
        rw [if_pos hzero] at hreq
        dsimp only at hreq
        rw [if_pos rfl] at hreq
        cases hreq
        exact hzero

/-- A new entry is in the list of the master. -/
theorem qdmaDevEntryCreate_master {m : ResourceMaster} {f : ℕ} {mem : CallocResults}
    (hm : qdmaGetMasterResourceEntry rm i = some m) (hd : m.devEntry f = none)
    (hrv : ¬ (qdmaDevEntryCreate rm i f mem).1 < 0) :
    ∃ m', qdmaGetMasterResourceEntry (qdmaDevEntryCreate rm i f mem).2 i = some m' ∧
      m' = { m with devList := m.devList ++ [{ funcId := f, entry := ⟨-1, 0⟩ }] } ∧
      m'.devEntry f = some { funcId := f, entry := ⟨-1, 0⟩ } := by
  have hindex : m.dmaDeviceIndex = i := by simpa using List.find?_some hm
  unfold qdmaDevEntryCreate at hrv ⊢
  rw [hm] at hrv ⊢
  dsimp only at hrv ⊢
  rw [hd] at hrv ⊢
  cases hcalloc : qdmaCalloc mem with
  | mk ok rest =>
    rw [hcalloc] at hrv
    cases ok with
    | false => exact absurd (show -QDMA_ERR_NO_MEM < 0 by decide) hrv
    | true =>
      subst hindex
      refine ⟨_, find?_writeFirst hm (by simp), rfl, ?_⟩
      unfold ResourceMaster.devEntry at hd ⊢
      rw [List.find?_append, hd]
      simp

/-- The range of the function after an opening that goes on: a function without an entry asked for
the range of the configuration, the others for the range that they had. -/
def EntryGranted (env : OpenEnv) (conf : DevConf) (m : ResourceMaster) (e : ResourceEntry) : Prop :=
  match m.devEntry env.funcId with
  | none => e.totalQ = conf.qsetsMax ∧ GrantedAt m.freeList conf.qsetsMax conf.qsetsBase e.qbase
  | some d =>
    (0 < d.entry.totalQ → e.totalQ = d.entry.totalQ ∧
      GrantedAt (qdmaSubmitToFreeList d.entry m.freeList env.updateMem).2.1 d.entry.totalQ
        d.entry.qbase e.qbase) ∧
    (d.entry.totalQ = 0 → e.totalQ = 0)

theorem afterUpdate_goesOn {res : ℤ × ℤ × ResourceState}
    (h : afterUpdate env res = (rv, true, rm')) : 0 ≤ res.1 ∧ res.2.2 = rm' := by
  unfold afterUpdate at h
  split at h
  · cases h
  · rename_i hneg
    split at h
    · cases h
    · cases h
      exact ⟨not_lt.mp hneg, rfl⟩

theorem openEntry_granted {m : ResourceMaster} (hm : qdmaGetMasterResourceEntry rm i = some m)
    (hok : OwnedOk m) (hmax : 0 < conf.qsetsMax) (hwrap : conf.qsetsBase + conf.qsetsMax < 2 ^ 32)
    (h : openEntry env conf i rm = (rv, true, rm')) :
    ∃ e, (qdmaGetDevEntry rm' i env.funcId).map DevEntry.entry = some e ∧
      EntryGranted env conf m e := by
  have hget : qdmaGetDevEntry rm i env.funcId = m.devEntry env.funcId := by
    unfold qdmaGetDevEntry
    rw [hm, Option.bind_some]
  unfold openEntry at h
  split at h
  · cases h
  unfold EntryGranted
  cases hd : m.devEntry env.funcId with
  | none =>
    rw [hd] at hget
    obtain ⟨rv₀, hqinfo, hneg⟩ := qdmaDevQinfoGet_of_none hget
    rw [hqinfo] at h
    dsimp only [Option.getD_none] at h
    rw [if_pos hneg] at h
    split at h
    · cases h
    · rename_i hcreate
      obtain ⟨m', hm', rfl, hd'⟩ := qdmaDevEntryCreate_master hm hd hcreate
      obtain ⟨hrv, rfl⟩ := afterUpdate_goesOn h
      obtain ⟨e, hentry, hgranted, -⟩ :=
        qdmaDevUpdate_granted hm' hd' (hok.addDev hd) (fun _ => hwrap) hrv
      obtain ⟨hsize, hbase⟩ := hgranted hmax
      refine ⟨e, ?_, hsize, hbase⟩
      rw [hentry]
      rfl
  | some d =>
    rw [hd] at hget
    rw [qdmaDevQinfoGet_of_some hget] at h
    dsimp only [Option.getD_some] at h
    rw [if_neg (lt_irrefl 0)] at h
    dsimp only at h
    rw [if_neg (lt_irrefl 0)] at h
    obtain ⟨hrv, rfl⟩ := afterUpdate_goesOn h
    have hin : 0 ≤ d.entry.qbase → d.entry.qbase + d.entry.totalQ < 2 ^ 32 := by
      intro hq
      obtain ⟨-, l, r, hlist, -⟩ := ResourceMaster.devEntry_split hd
      have hbound := hok.bound
      rcases hok.entries d (by simp [hlist]) with heq | hinside
      · rw [heq] at hq
        exact absurd hq (by decide)
      · have hend := hinside.2
        simp only [ResourceEntry.qend] at hend
        omega
    obtain ⟨e, hentry, hgranted, hzero⟩ := qdmaDevUpdate_granted hm hd hok hin hrv
    refine ⟨e, ?_, hgranted, fun hz => hzero hz hz⟩
    rw [hentry]
    rfl

end

section

variable {env : ProbeEnv} {pinfo : PlatformInfo} {s : HostState} {rm rm' : ResourceState} {rv : ℤ}

/-- The requests of an opening for a range that does not wrap keep the ranges of the functions
apart. -/
theorem keptByRequests_owned {conf : DevConf}
    (hwrap : conf.qsetsBase + conf.qsetsMax < 2 ^ 32) : KeptByRequests conf Owned where
  create rm busStart busEnd mem h :=
    h.exec (show CallSafe rm (.masterResourceCreate busStart busEnd QDMA_QBASE QDMA_TOTAL_Q mem)
      from ⟨by decide, by decide⟩)
  entry rm i f mem h := h.devEntryCreate i f mem
  update rm i f qmax qbase mem hasked h := by
    apply h.devUpdate
    intro m hm d hd _
    rcases hasked with ⟨rfl, rfl⟩ | ⟨d', hd', rfl, rfl⟩
    · exact fun _ => .inl hwrap
    · have hsame : qdmaGetDevEntry rm i f = some d := by
        unfold qdmaGetDevEntry
        rw [hm]
        exact hd
      rw [hd'] at hsame
      cases hsame
      have hok := h.master hm
      have hmem : d ∈ m.devList := List.mem_of_find?_eq_some hd
      exact (hok.entries d hmem).requestSafe hok.bound _

theorem onicQdmaDevConf_wrap (env : ProbeEnv) (pinfo : PlatformInfo) :
    (onicQdmaDevConf env pinfo).qsetsBase + (onicQdmaDevConf env pinfo).qsetsMax < 2 ^ 32 := by
  have hmax := pinfo.queueMax.toNat_lt
  have hbase := pinfo.queueBase.toNat_lt
  dsimp only [onicQdmaDevConf]
  omega

/-- A master without functions is removed whole. -/
theorem Owned.masterResourceDestroy (hrm : Owned rm) (i : ℕ) :
    Owned (qdmaMasterResourceDestroy rm i) := by
  unfold qdmaMasterResourceDestroy
  split
  · exact hrm
  · split
    · exact hrm
    · exact fun m hm => hrm m (List.mem_of_mem_eraseP hm)

theorem Owned.deviceClose (hrm : Owned s.rm) (pdev hndl i f : ℕ) (mem : CallocResults) :
    Owned (qdmaDeviceClose pdev hndl i f mem s).2.rm := by
  unfold qdmaDeviceClose
  dsimp only
  split_ifs
  · exact hrm
  · exact Owned.masterResourceDestroy (hrm.devEntryDestroy i f mem) i
  · exact hrm

theorem Owned.qdmaSetup (hrm : Owned s.rm) (env : ProbeEnv) (pinfo : PlatformInfo) :
    Owned (onicQdmaSetup env pinfo s).2.2.rm := by
  have hopen := KeptByRequests.qdmaDeviceOpen (some (onicQdmaDevConf env pinfo))
    (fun c hc => by cases hc; exact keptByRequests_owned (onicQdmaDevConf_wrap env pinfo))
    env.device true hrm
  unfold onicQdmaSetup
  dsimp only
  split_ifs <;> first | exact hopen | exact Owned.deviceClose hopen _ _ _ _ _

/-- A probe keeps the ranges of the functions apart, wherever it ends. -/
theorem Owned.probe (hrm : Owned s.rm) (env : ProbeEnv) (pinfo : Except ℤ PlatformInfo) :
    Owned (onicPciProbe env pinfo s).host.rm := by
  unfold onicPciProbe
  split
  · exact hrm
  · rename_i pinfo
    have hsetup := Owned.qdmaSetup hrm env pinfo
    have hclosed := fun hndl i f mem => Owned.deviceClose hsetup env.pdev hndl i f mem
    dsimp only
    split_ifs <;> first | exact hrm | exact hsetup | exact hclosed _ _ _ _

/-- An event keeps the ranges of the functions apart. -/
theorem Owned.hostStep (hrm : Owned s.rm) (e : HostEvent) (hok : EventOk s e) :
    Owned (Shell.hostStep s e).rm := by
  cases e with
  | probe env pinfo => exact Owned.probe hrm env pinfo
  | remove pdev hndl i f mem => exact Owned.deviceClose hrm pdev hndl i f mem
  | resource op => exact hrm.exec hok

theorem masterCreate_owned (env : OpenEnv) (hrm : Owned rm) :
    Owned (qdmaMasterResourceCreate rm env.busNumber env.busMax QDMA_QBASE QDMA_TOTAL_Q
      env.masterMem).2.2 :=
  hrm.exec (show CallSafe rm (.masterResourceCreate env.busNumber env.busMax QDMA_QBASE
    QDMA_TOTAL_Q env.masterMem) from ⟨by decide, by decide⟩)

theorem functionMaster_owned {m : ResourceMaster} (hrm : Owned rm)
    (h : functionMaster env rm = some m) : OwnedOk m :=
  (masterCreate_owned env.device hrm).master h

/-- A PF whose requests go on has a master, and a range that was granted. -/
theorem openResources_granted (env : ProbeEnv) (conf : DevConf) (hrm : Owned rm)
    (hmax : 0 < conf.qsetsMax)
    (hwrap : conf.qsetsBase + conf.qsetsMax < 2 ^ 32)
    (h : openResources env.device conf rm = (rv, true, rm')) :
    ∃ m e, functionMaster env rm = some m ∧ (qdmaGetDevEntry rm' (dmaDeviceIndex env rm)
      env.device.funcId).map DevEntry.entry = some e ∧ EntryGranted env.device conf m e := by
  have howned := masterCreate_owned env.device hrm
  have hmaster : ∃ m, functionMaster env rm = some m := by
    unfold functionMaster
    unfold openResources at h
    rcases masterCreate_cases env.device rm with ⟨m, hfind, heq⟩ | ⟨index, heq⟩ |
      ⟨rm₁, m, -, heq, hm, -⟩
    · rw [heq]
      exact exists_master rm (List.mem_of_find?_eq_some hfind)
    · rw [heq] at h
      dsimp only at h
      rw [if_pos rfl] at h
      cases h
    · rw [heq]
      exact ⟨m, hm⟩
  obtain ⟨m, hm⟩ := hmaster
  have hentry : openEntry env.device conf (dmaDeviceIndex env rm)
      (qdmaMasterResourceCreate rm env.device.busNumber env.device.busMax QDMA_QBASE QDMA_TOTAL_Q
        env.device.masterMem).2.2 = (rv, true, rm') := by
    unfold openResources at h
    dsimp only at h
    split at h
    · cases h
    · exact h
  obtain ⟨e, hrange, hgranted⟩ := openEntry_granted hm (howned.master hm) hmax hwrap hentry
  exact ⟨m, e, hm, hrange, hgranted⟩

theorem openMapped_goesOn {env : OpenEnv} {conf : DevConf} (hpf : env.isVf = false)
    (h : openMapped env conf rm = (rv, true, rm')) :
    ∃ rv, openResources env conf rm = (rv, true, rm') := by
  unfold openMapped at h
  split at h
  · cases h
  split at h
  · cases h
  split at h
  · cases h
  rw [hpf, if_neg Bool.false_ne_true] at h
  cases hres : openResources env conf rm with
  | mk rv₀ rest =>
    obtain ⟨ok, rm₀⟩ := rest
    rw [hres] at h
    cases ok with
    | false => cases h
    | true =>
      dsimp only at h
      split at h
      · cases h
      split at h
      · cases h
      split at h
      · cases h
      cases h
      exact ⟨_, rfl⟩

/-- An opening that returns a device has met its requests. -/
theorem qdmaDeviceOpen_goesOn {env : OpenEnv} {conf : DevConf} (hpf : env.isVf = false)
    (hret : (qdmaDeviceOpen env true (some conf) s).1 = 0)
    (hhndl : (qdmaDeviceOpen env true (some conf) s).2.1 ≠ 0) :
    ∃ rv, openResources env conf s.rm =
      (rv, true, (qdmaDeviceOpen env true (some conf) s).2.2.rm) := by
  rcases qdmaDeviceOpen_cases env true conf s with ⟨-, rv, heq, hneg⟩ | ⟨-, -, heq⟩ |
    ⟨-, -, pdev, heq⟩
  · rw [heq] at hret
    exact absurd hret hneg.ne
  · rw [heq] at hhndl
    exact absurd rfl hhndl
  · cases hmapped : openMapped env conf s.rm with
    | mk rv rest =>
      obtain ⟨ok, rm'⟩ := rest
      rw [heq _ _ _ hmapped] at hhndl ⊢
      cases ok with
      | false => exact absurd rfl hhndl
      | true => exact openMapped_goesOn hpf hmapped

theorem onicQdmaSetup_ok (h : (onicQdmaSetup env pinfo s).1 = 0) :
    (qdmaDeviceOpen env.device true (some (onicQdmaDevConf env pinfo)) s).1 = 0 ∧
      (qdmaDeviceOpen env.device true (some (onicQdmaDevConf env pinfo)) s).2.1 ≠ 0 := by
  have hfails : -Open.EINVAL ≠ 0 := by decide
  unfold onicQdmaSetup at h
  dsimp only at h
  split at h
  · exact absurd h hfails
  · rename_i hret
    refine ⟨not_not.mp hret, fun hnull => ?_⟩
    rw [if_pos hnull, if_pos hfails] at h
    exact absurd h hfails

/-- A probe that writes to the shell has opened its device. -/
theorem onicPciProbe_reta {reta : List (ℕ × ℕ)}
    (h : (onicPciProbe env (.ok pinfo) s).reta = some reta) :
    env.netdev = true ∧
      (qdmaDeviceOpen env.device true (some (onicQdmaDevConf env pinfo)) s).1 = 0 ∧
      (qdmaDeviceOpen env.device true (some (onicQdmaDevConf env pinfo)) s).2.1 ≠ 0 ∧
      reta = onicInitReta pinfo (realNumRxQueues env pinfo) := by
  have hsetup : env.netdev = true ∧ (onicQdmaSetup env pinfo s).1 = 0 ∧
      reta = onicInitReta pinfo (realNumRxQueues env pinfo) := by
    unfold onicPciProbe at h
    dsimp only at h
    split_ifs at h with hnetdev hnum hreq hsetup hmap hcmac hregister
    · cases h
      exact ⟨Bool.not_eq_false _ ▸ hnetdev, not_not.mp hsetup, rfl⟩
    · cases h
      exact ⟨Bool.not_eq_false _ ▸ hnetdev, not_not.mp hsetup, rfl⟩
  obtain ⟨hnetdev, hret, hreta⟩ := hsetup
  obtain ⟨hopen, hhndl⟩ := onicQdmaSetup_ok hret
  exact ⟨hnetdev, hopen, hhndl, hreta⟩

/-- A probe whose steps up to the shell succeed writes to the shell. -/
theorem onicPciProbe_writes (env : ProbeEnv) (pinfo : PlatformInfo) (s : HostState)
    (hnetdev : env.netdev = true)
    (hnum : (onicSetNumQueue pinfo env.numMsix).1 = 0) (hreq : env.dmaReq = true)
    (hsetup : (onicQdmaSetup env pinfo s).1 = 0) (hmap : env.iomap = true)
    (hcmac : env.enableCmac = 0) : (onicPciProbe env (.ok pinfo) s).reta =
      some (onicInitReta pinfo (realNumRxQueues env pinfo)) := by
  unfold onicPciProbe
  dsimp only
  rw [if_neg (by simp [hnetdev]), if_neg (not_not.mpr hnum), if_neg (by simp [hreq]),
    if_neg (not_not.mpr hsetup), if_neg (by simp [hmap]), if_neg (not_not.mpr hcmac)]
  split <;> rfl

/-! ## What the shell is told -/

/-- The two fields of QCONF hold the base and the number. -/
theorem qconf_fields {base n : ℕ} (hbase : base < 2 ^ 16) (hn : n < 2 ^ 16) :
    FIELD_GET QDMA_FUNC_QCONF_QBASE_MASK (FIELD_SET 32 QDMA_FUNC_QCONF_QBASE_MASK base |||
        FIELD_SET 32 QDMA_FUNC_QCONF_NUMQ_MASK n) = base ∧
      FIELD_GET QDMA_FUNC_QCONF_NUMQ_MASK (FIELD_SET 32 QDMA_FUNC_QCONF_QBASE_MASK base |||
        FIELD_SET 32 QDMA_FUNC_QCONF_NUMQ_MASK n) = n := by
  have hhigh : QDMA_FUNC_QCONF_QBASE_MASK = Mask.val ⟨31, 16⟩ := genmask_eq (by omega) (by omega)
  have hlow : QDMA_FUNC_QCONF_NUMQ_MASK = Mask.val ⟨15, 0⟩ := genmask_eq (by omega) (by omega)
  rw [hhigh, hlow]
  simp only [fieldSet_eq, fieldGet_eq, show (16 : ℕ) ≤ 31 by omega, show (31 : ℕ) < 64 by omega,
    show (0 : ℕ) ≤ 15 by omega, show (15 : ℕ) < 64 by omega]
  have hfitsBase : Mask.Fits ⟨31, 16⟩ base := hbase
  have hfitsNumber : Mask.Fits ⟨15, 0⟩ n := hn
  constructor
  · rw [Mask.get_or, Mask.get_set (by decide) hfitsBase, Mask.get_set_of_apart (by decide),
      Nat.or_zero]
  · rw [Mask.get_or, Mask.get_set (by decide) hfitsNumber, Mask.get_set_of_apart (by decide),
      Nat.zero_or]

/-- The first write is the one of QCONF. -/
theorem mem_onicInitReta_qconf {n v : ℕ} :
    (QDMA_FUNC_OFFSET_QCONF pinfo.portId.toNat, v) ∈ onicInitReta pinfo n ↔
      v = FIELD_SET 32 QDMA_FUNC_QCONF_QBASE_MASK pinfo.queueBase.toNat |||
        FIELD_SET 32 QDMA_FUNC_QCONF_NUMQ_MASK n := by
  unfold onicInitReta
  simp only [List.mem_cons, List.mem_map, List.mem_range, Prod.mk.injEq, true_and]
  constructor
  · rintro (heq | ⟨i, -, hoffset, -⟩)
    · exact heq
    · unfold QDMA_FUNC_OFFSET_INDIR_TABLE QDMA_FUNC_OFFSET_QCONF at hoffset
      omega
  · exact Or.inl

/-- The other writes are those of the table. -/
theorem mem_onicInitReta_table {n i w : ℕ} :
    (QDMA_FUNC_OFFSET_INDIR_TABLE pinfo.portId.toNat i, w) ∈ onicInitReta pinfo n ↔
      i < 128 ∧ w = (i % n &&& 0x0000FFFF) := by
  unfold onicInitReta
  simp only [List.mem_cons, List.mem_map, List.mem_range, Prod.mk.injEq]
  constructor
  · rintro (⟨hoffset, -⟩ | ⟨j, hj, hoffset, rfl⟩)
    · unfold QDMA_FUNC_OFFSET_INDIR_TABLE QDMA_FUNC_OFFSET_QCONF at hoffset
      omega
    · obtain rfl : j = i := by
        unfold QDMA_FUNC_OFFSET_INDIR_TABLE at hoffset
        omega
      exact ⟨hj, rfl⟩
  · rintro ⟨hi, rfl⟩
    exact .inr ⟨i, hi, rfl, rfl⟩

/-- The shell agrees with a range if the base of the file is that of the range, and the number of
queues in use fits in. -/
theorem shellAgrees_iff {n : ℕ} {range : ResourceEntry} (hpos : 0 < n) (hlt : n < 2 ^ 16) :
    ShellAgrees pinfo.portId.toNat (onicInitReta pinfo n) range ↔
      pinfo.queueBase.toNat = range.qbase ∧ n ≤ range.totalQ := by
  obtain ⟨hbase, hnumber⟩ := qconf_fields pinfo.queueBase.toNat_lt hlt
  constructor
  · intro h
    have hrange := h.base _ (mem_onicInitReta_qconf.mpr rfl)
    have hfits := h.number _ (mem_onicInitReta_qconf.mpr rfl)
    rw [hbase] at hrange
    rw [hnumber] at hfits
    exact ⟨hrange, hfits⟩
  · rintro ⟨hrange, hfits⟩
    refine ⟨⟨_, mem_onicInitReta_qconf.mpr rfl⟩, ?_, ?_, ?_, ?_⟩
    · intro v hv
      rw [mem_onicInitReta_qconf.mp hv, hbase, hrange]
    · intro v hv
      rw [mem_onicInitReta_qconf.mp hv, hnumber]
      exact hfits
    · exact fun i hi => ⟨_, mem_onicInitReta_table.mpr ⟨hi, rfl⟩⟩
    · intro v i w hv hw
      obtain ⟨-, rfl⟩ := mem_onicInitReta_table.mp hw
      rw [mem_onicInitReta_qconf.mp hv, hnumber]
      exact Nat.and_le_left.trans_lt (Nat.mod_lt i hpos)

/-! ## The two sides -/

/-- A granted range is the one of the file exactly if the range of the file was ready. -/
theorem entryGranted_ready_iff {m : ResourceMaster} {e : ResourceEntry} (hm : OwnedOk m)
    (hpos : 0 < realNumRxQueues env pinfo)
    (hle : realNumRxQueues env pinfo ≤ pinfo.queueMax.toNat)
    (h : EntryGranted env.device (onicQdmaDevConf env pinfo) m e) :
    (pinfo.queueBase.toNat = e.qbase ∧ realNumRxQueues env pinfo ≤ e.totalQ) ↔
      match m.devEntry env.device.funcId with
      | none => HoldsRange m.freeList pinfo.queueMax.toNat pinfo.queueBase.toNat
      | some d => realNumRxQueues env pinfo ≤ d.entry.totalQ ∧
        if (qdmaCalloc env.device.updateMem).1 = true then d.entry.qbase = pinfo.queueBase.toNat
        else LastSmallestFit m.freeList d.entry.totalQ pinfo.queueBase.toNat := by
  unfold EntryGranted at h
  cases hd : m.devEntry env.device.funcId with
  | none =>
    rw [hd] at h
    obtain ⟨hsize, hgranted⟩ := h
    dsimp only [onicQdmaDevConf] at hsize hgranted ⊢
    constructor
    · rintro ⟨hbase, -⟩
      by_contra hnot
      obtain ⟨s, n, t, hlist, hn, hfits, -⟩ := hgranted.other fun h => hnot h.2
      refine hnot ⟨n, by simp [hlist], ?_, ?_⟩
      · omega
      · simp only [ResourceEntry.qend]
        omega
    · intro hholds
      have hbase := hgranted.held (by omega) hholds
      exact ⟨hbase.symm, by omega⟩
  | some d =>
    rw [hd] at h
    obtain ⟨hgranted, hzero⟩ := h
    dsimp only
    by_cases hnone : d.entry.totalQ = 0
    · -- the function has an entry without queues
      have he := hzero hnone
      exact iff_of_false (fun h => by omega) (fun h => by omega)
    obtain ⟨hsize, hbase⟩ := hgranted (Nat.pos_of_ne_zero hnone)
    obtain ⟨hfunc, l, r, hlist, -⟩ := ResourceMaster.devEntry_split hd
    have hheld := hm.held hlist
    have htotal : 0 < d.entry.totalQ := Nat.pos_of_ne_zero hnone
    cases hmem : (qdmaCalloc env.device.updateMem).1 with
    | true =>
      have hholds := qdmaSubmitToFreeList_holds hm.base hm.bound hheld htotal hmem
      have hlower := (hheld.entryOk.inside htotal).1
      have hsame := hbase.held (hm.base.trans hlower) hholds
      rw [if_pos rfl, hsize, hsame, eq_comm]
      exact and_comm
    | false =>
      rw [qdmaSubmitToFreeList_kept hmem] at hbase
      have hfit := hbase.other fun h => hheld.not_holdsRange htotal h.2
      rw [if_neg Bool.false_ne_true, hsize]
      constructor
      · rintro ⟨hfile, hle⟩
        rw [hfile]
        exact ⟨hle, hfit⟩
      · rintro ⟨hle, hfile⟩
        exact ⟨hfile.unique hfit, hle⟩

/-- A probe that writes agrees with the manager exactly if the range of the file was ready. -/
theorem probe_agrees_iff (hrm : Owned s.rm) (hpf : env.device.isVf = false)
    (hnet : NetdevOk env pinfo) {reta : List (ℕ × ℕ)}
    (h : (onicPciProbe env (.ok pinfo) s).reta = some reta) :
    (∃ range, obtainedRange env pinfo s = some range ∧
        ShellAgrees pinfo.portId.toNat reta range) ↔ RangeReady env pinfo s.rm := by
  obtain ⟨hnetdev, hret, hhndl, rfl⟩ := onicPciProbe_reta h
  have hmax := hnet.queues hnetdev
  have hqueues : 0 < realNumRxQueues env pinfo ∧
      realNumRxQueues env pinfo ≤ pinfo.queueMax.toNat := by
    by_cases hset : env.setRealNum = true
    · exact hnet.inUse hset
    · unfold realNumRxQueues
      dsimp only
      rw [if_neg hset]
      exact ⟨hmax, le_rfl⟩
  have hmaxlt := pinfo.queueMax.toNat_lt
  obtain ⟨rv, hres⟩ := qdmaDeviceOpen_goesOn hpf hret hhndl
  obtain ⟨m, e, hmaster, hrange, hgranted⟩ := openResources_granted env
    (onicQdmaDevConf env pinfo) hrm hmax (onicQdmaDevConf_wrap env pinfo) hres
  have hobtained : obtainedRange env pinfo s = some e := hrange
  have hiff :=
    entryGranted_ready_iff (functionMaster_owned hrm hmaster) hqueues.1 hqueues.2 hgranted
  rw [hobtained]
  constructor
  · rintro ⟨range, hsome, hagrees⟩
    cases hsome
    intro m' hm'
    rw [hmaster] at hm'
    cases hm'
    exact hiff.mp ((shellAgrees_iff hqueues.1 (by omega)).mp hagrees)
  · intro hready
    have hagrees := hiff.mpr (hready m hmaster)
    exact ⟨e, rfl, (shellAgrees_iff hqueues.1 (by omega)).mpr hagrees⟩

/-- What an event writes agrees exactly if its range was ready. -/
theorem eventAgrees_iff (hrm : Owned s.rm) {e : HostEvent} (hok : EventOk s e) :
    EventAgrees s e ↔ EventReady s e := by
  cases e with
  | remove => exact Iff.rfl
  | resource => exact Iff.rfl
  | probe env pinfo =>
    cases pinfo with
    | error ret => exact Iff.rfl
    | ok pinfo =>
      obtain ⟨hpf, hnet⟩ := hok
      dsimp only [EventAgrees, EventReady]
      constructor
      · intro hagrees hwrites
        obtain ⟨reta, hreta⟩ := Option.ne_none_iff_exists'.mp hwrites
        exact (probe_agrees_iff hrm hpf hnet hreta).mp (hagrees reta hreta)
      · intro hready reta hreta
        refine (probe_agrees_iff hrm hpf hnet hreta).mpr (hready ?_)
        rw [hreta]
        exact Option.some_ne_none _

end

/-- Over any run of probes and other calls from a resource manager whose functions do not share
queues, the shell agrees with the resource manager at every probe exactly if every probe that
writes to the shell finds the range of its file ready. -/
theorem hostRun_agrees_iff {s : HostState} (hrm : Owned s.rm) {es : List HostEvent}
    (hes : Admitted hostStep EventOk s es) :
    Admitted hostStep EventAgrees s es ↔ Admitted hostStep EventReady s es :=
  hes.congr (I := fun s => Owned s.rm) (fun _ e hs hok _ => Owned.hostStep hs e hok)
    (fun _ _ hs hok => eventAgrees_iff hs hok) hrm

/-- A probe of the function with this number that meets no error. -/
def plainProbe (funcId : ℕ) : ProbeEnv :=
  { pdev := funcId, numMsix := 9, device := { funcId := funcId, addr := funcId } }

/-- A file that asks for this range. -/
def rangeFile (portId : UInt8) (queueBase queueMax usedQueues : UInt16) : PlatformInfo :=
  { queueBase := queueBase, queueMax := queueMax, usedQueues := usedQueues, portId := portId }

/-- Two functions whose files ask for ranges that do not overlap. -/
def disjointRun : List HostEvent :=
  [.probe (plainProbe 0) (.ok (rangeFile 0 0 64 16)),
    .probe (plainProbe 1) (.ok (rangeFile 1 64 64 8))]

/-- Two functions whose files ask for ranges that overlap. -/
def overlapRun : List HostEvent :=
  [.probe (plainProbe 0) (.ok (rangeFile 0 0 64 16)),
    .probe (plainProbe 1) (.ok (rangeFile 1 32 64 8))]

theorem disjointRun_agrees : Admitted hostStep EventAgrees {} disjointRun := by
  have hok : Admitted hostStep EventOk {} disjointRun :=
    ⟨⟨rfl, by decide, by decide⟩, ⟨rfl, by decide, by decide⟩, trivial⟩
  refine (hostRun_agrees_iff (s := {}) (by simp [Owned]) hok).mpr ⟨?_, ?_, trivial⟩
  · intro _ m hm
    cases hm
    exact ⟨_, List.mem_cons_self, by decide, by decide⟩
  · intro _ m hm
    cases hm
    exact ⟨_, List.mem_cons_self, by decide, by decide⟩

/-- The second function gets another range than the one that the shell is told. -/
theorem overlapRun_not_agrees : Admitted hostStep EventOk {} overlapRun ∧
    ¬ Admitted hostStep EventAgrees {} overlapRun := by
  refine ⟨⟨⟨rfl, by decide, by decide⟩, ⟨rfl, by decide, by decide⟩, trivial⟩, ?_⟩
  rintro ⟨-, hagrees, -⟩
  have hwrites := onicPciProbe_writes (plainProbe 1) (rangeFile 1 32 64 8)
    (hostStep {} (.probe (plainProbe 0) (.ok (rangeFile 0 0 64 16))))
    rfl (by decide) rfl (by decide) rfl rfl
  have hobtained : obtainedRange (plainProbe 1) (rangeFile 1 32 64 8)
      (hostStep {} (.probe (plainProbe 0) (.ok (rangeFile 0 0 64 16)))) = some ⟨64, 64⟩ := by
    decide
  obtain ⟨range, hrange, hshell⟩ := hagrees _ hwrites
  rw [hobtained] at hrange
  cases hrange
  have hbase := ((shellAgrees_iff (by decide) (by decide)).mp hshell).1
  exact absurd hbase (by decide)

end OnicDriver.Shell
