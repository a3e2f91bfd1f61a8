import OnicDriver.Open.Device
import OnicDriver.Resource.BestFit

/-!
# Opening is all or nothing

A call that fails takes the device off the list again. The resource manager
keeps the master and the entry that the call created, and two failures are
reported as a success.
-/

namespace OnicDriver.Open

open Lib Queue Resource

/-- A handle of a device on the list. -/
def Live (hndl : ℕ) (s : HostState) : Prop := hndl ≠ 0 ∧ ∃ d ∈ s.xdevList, d.hndl = hndl

/-- The call returns 0 exactly with the handle of a device on the list, and changes nothing if it
fails. -/
structure OpenProper (s : HostState) (res : ℤ × ℕ × HostState) : Prop where
  live : res.1 = 0 ↔ Live res.2.1 res.2.2
  failed : res.1 ≠ 0 → res.2.2 = s

/-- The call comes to allocate its device: its arguments are valid, the PCI device is not attached
yet, and the PCI functions succeed. -/
def Attachable (env : OpenEnv) (modName : Bool) (conf : DevConf) (s : HostState) : Prop :=
  modName = true ∧ conf.drvMode ≠ none ∧
    (∃ pdev, conf.pdev = some pdev ∧ ∀ d ∈ s.xdevList, d.pdev ≠ pdev) ∧
    env.requestRegions = 0 ∧ env.enableDevice = 0 ∧ env.dmaMask = true

/-- The hardware is found behind the BAR. -/
def HwFound (env : OpenEnv) : Prop :=
  xdevMapBars env = 0 ∧ env.hwAccessInit = 0 ∧ env.getVersion = 0

/-- What a PF asks the resource manager for is granted. -/
def ResourcesReady (env : OpenEnv) (conf : DevConf) (rm : ResourceState) : Prop :=
  env.isVf = false → (openResources env conf rm).2.1 = true

/-- The mode is that of legacy interrupts, which the device does not have. -/
def LegacyRefused (env : OpenEnv) (conf : DevConf) : Prop :=
  conf.drvMode = some .legacyIntr ∧ env.legacyIntr = false

/-- The device goes online, and its BARs are identified. -/
def Started (env : OpenEnv) : Prop := ¬ env.online < 0 ∧ xdevIdentifyBars env = 0

/-- The requests of a PF leave the resource manager as it is: there is no memory for the master; or
the master was there, and the call ends at the function number or the memory for the entry, or
finds the entry and gets the range back that the entry had. -/
def ResourcesKept (env : OpenEnv) (rm : ResourceState) : Prop :=
  (qdmaMasterResourceCreate rm env.busNumber env.busMax QDMA_QBASE QDMA_TOTAL_Q
      env.masterMem).1 = -QDMA_ERR_NO_MEM ∨
    ∃ m, qdmaFindMasterResourceEntry rm env.busNumber env.busMax = some m ∧
      (env.functionNumber ≠ 0 ∨
        (qdmaGetDevEntry rm m.dmaDeviceIndex env.funcId = none ∧
          (qdmaCalloc env.entryMem).1 = false) ∨
        ∃ d, qdmaGetDevEntry rm m.dmaDeviceIndex env.funcId = some d ∧
          (qdmaDevUpdate rm m.dmaDeviceIndex env.funcId d.entry.totalQ d.entry.qbase
            env.updateMem).2.2 = rm)

/-- The calls that are all or nothing. -/
structure OpenKept (env : OpenEnv) (modName : Bool) (conf : DevConf) (s : HostState) : Prop where
  alloc : Attachable env modName conf s → env.xdevAlloc = true
  legacy : Attachable env modName conf s → HwFound env → ResourcesReady env conf s.rm →
    ¬ LegacyRefused env conf
  resources : Attachable env modName conf s → HwFound env → env.isVf = false →
    ¬ (ResourcesReady env conf s.rm ∧ Started env) → ResourcesKept env s.rm

/-! ## Error codes -/

theorem accessResult_neg_iff {e : Fin 26} : accessResult e < 0 ↔ e ≠ 0 := by
  unfold accessResult
  rw [ne_eq, Fin.ext_iff]
  simp only [Fin.val_zero]
  omega

theorem accessResult_eq_zero_iff {e : Fin 26} : accessResult e = 0 ↔ e = 0 := by
  unfold accessResult
  rw [Fin.ext_iff]
  simp only [Fin.val_zero]
  omega

theorem errorCode_neg : ∀ e : Fin 26, e ≠ 0 → qdmaGetErrorCode (accessResult e) < 0 := by decide

theorem einval_neg : -EINVAL < 0 := by decide

theorem enodev_neg : -ENODEV < 0 := by decide

theorem enomem_neg : -ENOMEM < 0 := by decide

theorem ite_neg {P : Prop} [Decidable P] {a : ℤ} (ha : P → a < 0)
    (h : (if P then a else 0) ≠ 0) : (if P then a else 0) < 0 := by
  by_cases hP : P
  · rw [if_pos hP]
    exact ha hP
  · rw [if_neg hP] at h
    exact absurd rfl h

theorem xdevMapBars_neg {env : OpenEnv} (h : xdevMapBars env ≠ 0) : xdevMapBars env < 0 :=
  ite_neg (fun _ => einval_neg) h

theorem xdevIdentifyBars_neg {env : OpenEnv} (h : xdevIdentifyBars env ≠ 0) :
    xdevIdentifyBars env < 0 := by
  refine ite_neg ?_ h
  rintro ⟨-, hneg⟩
  cases hip : env.versalHardIp with
  | true =>
    rw [hip, if_pos rfl] at hneg
    exact absurd hneg (lt_irrefl 0)
  | false =>
    rw [hip, if_neg Bool.false_ne_true] at hneg
    exact errorCode_neg _ (accessResult_neg_iff.mp hneg)

/-! ## The requests of a PF -/

section

variable {rm : ResourceState} {i f : ℕ} {d : DevEntry}

theorem rm_errors_neg :
    (-QDMA_ERR_RM_RES_NOT_EXISTS < 0 ∧ qdmaGetErrorCode (-QDMA_ERR_RM_RES_NOT_EXISTS) < 0) ∧
      (-QDMA_ERR_RM_DEV_NOT_EXISTS < 0 ∧ qdmaGetErrorCode (-QDMA_ERR_RM_DEV_NOT_EXISTS) < 0) ∧
      (-QDMA_ERR_RM_NO_QUEUES_LEFT < 0 ∧ qdmaGetErrorCode (-QDMA_ERR_RM_NO_QUEUES_LEFT) < 0) ∧
      (-QDMA_ERR_RM_QMAX_CONF_REJECTED < 0 ∧
        qdmaGetErrorCode (-QDMA_ERR_RM_QMAX_CONF_REJECTED) < 0) := by
  decide

/-- A call of `qdma_dev_update` succeeds with 0 or fails with an error of the table. -/
theorem qdmaDevUpdate_rv (rm : ResourceState) (i f qmax : ℕ) (qbase : ℤ) (mem : CallocResults) :
    (qdmaDevUpdate rm i f qmax qbase mem).1 = 0 ∨
      ((qdmaDevUpdate rm i f qmax qbase mem).1 < 0 ∧
        qdmaGetErrorCode (qdmaDevUpdate rm i f qmax qbase mem).1 < 0) := by
  obtain ⟨hnoMaster, hnoDev, hnoQueues, hbusy⟩ := rm_errors_neg
  unfold qdmaDevUpdate
  split
  · exact .inr hnoMaster
  · split
    · exact .inr hnoDev
    · split
      · exact .inr hbusy
      · rename_i m _ _ e _ _
        have hrequest : (qdmaRequestQResource e.entry qmax qbase m.freeList mem).1 = 0 ∨
            (qdmaRequestQResource e.entry qmax qbase m.freeList mem).1 =
              -QDMA_ERR_RM_NO_QUEUES_LEFT := by
          unfold qdmaRequestQResource
          dsimp only
          split
          · exact .inl rfl
          · split
            · exact .inl rfl
            · split <;> exact .inr rfl
        dsimp only
        rcases hrequest with hrv | hrv
        · exact .inl hrv
        · rw [hrv]
          exact .inr hnoQueues

theorem length_writeFirst {α : Type*} (p : α → Bool) (a : α) (l : List α) :
    (writeFirst p a l).length = l.length := by
  induction l with
  | nil => rfl
  | cons b l ih =>
    unfold writeFirst
    split
    · rfl
    · rw [List.length_cons, List.length_cons, ih]

theorem length_setMaster (rm : ResourceState) (m : ResourceMaster) :
    (rm.setMaster m).masterResourceList.length = rm.masterResourceList.length :=
  length_writeFirst _ _ _

theorem length_qdmaDevUpdate (rm : ResourceState) (i f qmax : ℕ) (qbase : ℤ)
    (mem : CallocResults) :
    (qdmaDevUpdate rm i f qmax qbase mem).2.2.masterResourceList.length =
      rm.masterResourceList.length := by
  unfold qdmaDevUpdate
  split
  · rfl
  · split
    · rfl
    · split
      · rfl
      · exact length_setMaster _ _

theorem length_qdmaDevEntryCreate (rm : ResourceState) (i f : ℕ) (mem : CallocResults) :
    (qdmaDevEntryCreate rm i f mem).2.masterResourceList.length =
      rm.masterResourceList.length := by
  unfold qdmaDevEntryCreate
  split
  · rfl
  · split
    · rfl
    · split
      · rfl
      · exact length_setMaster _ _

/-- A function that has an entry keeps one when its range is updated. -/
theorem qdmaDevUpdate_hasEntry (h : qdmaGetDevEntry rm i f = some d) (qmax : ℕ) (qbase : ℤ)
    (mem : CallocResults) :
    qdmaGetDevEntry (qdmaDevUpdate rm i f qmax qbase mem).2.2 i f ≠ none := by
  obtain ⟨m, hm, hd⟩ := qdmaGetDevEntry_eq_some h
  obtain ⟨rfl, -⟩ := ResourceMaster.devEntry_split hd
  unfold qdmaDevUpdate
  rw [hm]
  dsimp only
  rw [hd]
  dsimp only
  split
  · rw [h]
    exact Option.some_ne_none _
  · rw [qdmaGetDevEntry_setMaster hm hd]
    exact Option.some_ne_none _

/-- A function without an entry gets one, unless there is no memory for it. -/
theorem qdmaDevEntryCreate_of_none {m : ResourceMaster}
    (hm : qdmaGetMasterResourceEntry rm i = some m) (h : qdmaGetDevEntry rm i f = none)
    (mem : CallocResults) :
    ((qdmaCalloc mem).1 = false ∧ qdmaDevEntryCreate rm i f mem = (-QDMA_ERR_NO_MEM, rm)) ∨
      ((qdmaCalloc mem).1 = true ∧ (qdmaDevEntryCreate rm i f mem).1 = 0 ∧
        ∃ d, qdmaGetDevEntry (qdmaDevEntryCreate rm i f mem).2 i f = some d) := by
  have hd : m.devEntry f = none := by
    unfold qdmaGetDevEntry at h
    rwa [hm] at h
  unfold qdmaDevEntryCreate
  rw [hm]
  dsimp only
  rw [hd]
  dsimp only
  generalize qdmaCalloc mem = res
  obtain ⟨ok, rest⟩ := res
  cases ok with
  | false => exact .inl ⟨rfl, rfl⟩
  | true =>
    refine .inr ⟨rfl, rfl, { funcId := f, entry := ⟨-1, 0⟩ }, ?_⟩
    obtain rfl : m.dmaDeviceIndex = i := by simpa using List.find?_some hm
    have hmaster : qdmaGetMasterResourceEntry (rm.setMaster
        { m with devList := m.devList ++ [{ funcId := f, entry := ⟨-1, 0⟩ }] }) m.dmaDeviceIndex =
        some { m with devList := m.devList ++ [{ funcId := f, entry := ⟨-1, 0⟩ }] } :=
      find?_writeFirst hm (by simp)
    unfold qdmaGetDevEntry
    dsimp only
    rw [hmaster, Option.bind_some]
    unfold ResourceMaster.devEntry at hd ⊢
    rw [List.find?_append, hd]
    simp

theorem qdmaDevQinfoGet_of_none (h : qdmaGetDevEntry rm i f = none) :
    ∃ rv, qdmaDevQinfoGet rm i f = (rv, none) ∧ rv < 0 := by
  unfold qdmaDevQinfoGet
  cases hm : qdmaGetMasterResourceEntry rm i with
  | none => exact ⟨_, rfl, res_not_exists_neg⟩
  | some m =>
    have hd : m.devEntry f = none := by
      unfold qdmaGetDevEntry at h
      rwa [hm] at h
    dsimp only
    rw [hd]
    exact ⟨_, rfl, dev_not_exists_neg⟩

theorem qdmaDevQinfoGet_of_some (h : qdmaGetDevEntry rm i f = some d) :
    qdmaDevQinfoGet rm i f = (0, some (d.entry.qbase, d.entry.totalQ)) := by
  obtain ⟨m, hm, hd⟩ := qdmaGetDevEntry_eq_some h
  unfold qdmaDevQinfoGet
  rw [hm]
  dsimp only
  rw [hd]
  rfl

/-- What follows an update: its error, or the check of the modes. -/
def afterUpdate (env : OpenEnv) (res : ℤ × ℤ × ResourceState) : ℤ × Bool × ResourceState :=
  if res.1 < 0 then (qdmaGetErrorCode res.1, false, res.2.2)
  else if env.mmEn = false ∧ env.stEn = false then (-EINVAL, false, res.2.2)
  else (res.1, true, res.2.2)

/-- The error code of the moment is an error exactly if the call does not go on. -/
structure Coded (res : ℤ × Bool × ResourceState) : Prop where
  goesOn : res.2.1 = true → res.1 = 0
  fails : res.2.1 = false → res.1 < 0

theorem afterUpdate_coded {env : OpenEnv} {res : ℤ × ℤ × ResourceState}
    (h : res.1 = 0 ∨ (res.1 < 0 ∧ qdmaGetErrorCode res.1 < 0)) : Coded (afterUpdate env res) := by
  unfold afterUpdate
  split
  · rename_i hneg
    rcases h with hzero | ⟨-, hcode⟩
    · exact absurd hzero hneg.ne
    · exact ⟨nofun, fun _ => hcode⟩
  · rename_i hrv
    split
    · exact ⟨nofun, fun _ => einval_neg⟩
    · exact ⟨fun _ => h.resolve_right fun hneg => hrv hneg.1, nofun⟩

theorem afterUpdate_rm (env : OpenEnv) (res : ℤ × ℤ × ResourceState) :
    (afterUpdate env res).2.2 = res.2.2 := by
  unfold afterUpdate
  split
  · rfl
  · split <;> rfl

/-- The ends of the part after the master: at the function number, without memory for the entry,
with a new entry, or with the entry that was there. -/
theorem openEntry_cases (env : OpenEnv) (conf : DevConf) {m : ResourceMaster}
    (hm : qdmaGetMasterResourceEntry rm i = some m) :
    (env.functionNumber ≠ 0 ∧ openEntry env conf i rm = (-EINVAL, false, rm)) ∨
      (env.functionNumber = 0 ∧ qdmaGetDevEntry rm i env.funcId = none ∧
        (qdmaCalloc env.entryMem).1 = false ∧ openEntry env conf i rm = (-ENODEV, false, rm)) ∨
      (env.functionNumber = 0 ∧ qdmaGetDevEntry rm i env.funcId = none ∧
        (qdmaCalloc env.entryMem).1 = true ∧ ∃ d rm', qdmaGetDevEntry rm' i env.funcId = some d ∧
          rm'.masterResourceList.length = rm.masterResourceList.length ∧
          openEntry env conf i rm = afterUpdate env (qdmaDevUpdate rm' i env.funcId conf.qsetsMax
            conf.qsetsBase env.updateMem)) ∨
      (env.functionNumber = 0 ∧ ∃ d, qdmaGetDevEntry rm i env.funcId = some d ∧
        openEntry env conf i rm = afterUpdate env (qdmaDevUpdate rm i env.funcId d.entry.totalQ
          d.entry.qbase env.updateMem)) := by
  unfold openEntry
  by_cases hfunc : env.functionNumber = 0
  · right
    rw [if_neg (by rw [accessResult_neg_iff]; exact not_not.mpr hfunc)]
    cases hd : qdmaGetDevEntry rm i env.funcId with
    | none =>
      obtain ⟨rv, hqinfo, hneg⟩ := qdmaDevQinfoGet_of_none hd
      rw [hqinfo]
      dsimp only
      rw [if_pos hneg]
      have hlength := length_qdmaDevEntryCreate rm i env.funcId env.entryMem
      rcases qdmaDevEntryCreate_of_none hm hd env.entryMem with ⟨hmem, hcreate⟩ |
        ⟨hmem, hrv, d, hentry⟩
      · rw [hcreate]
        exact .inl ⟨hfunc, rfl, hmem, rfl⟩
      · refine .inr (.inl ⟨hfunc, rfl, hmem, d, _, hentry, hlength, ?_⟩)
        rw [hrv]
        rfl
    | some d =>
      rw [qdmaDevQinfoGet_of_some hd]
      exact .inr (.inr ⟨hfunc, d, rfl, rfl⟩)
  · left
    rw [if_pos (accessResult_neg_iff.mpr hfunc)]
    exact ⟨hfunc, rfl⟩

theorem openEntry_coded (env : OpenEnv) (conf : DevConf) {m : ResourceMaster}
    (hm : qdmaGetMasterResourceEntry rm i = some m) : Coded (openEntry env conf i rm) := by
  rcases openEntry_cases env conf hm with ⟨-, heq⟩ | ⟨-, -, -, heq⟩ |
    ⟨-, -, -, d, rm', -, -, heq⟩ | ⟨-, d, -, heq⟩
  · rw [heq]
    exact ⟨nofun, fun _ => einval_neg⟩
  · rw [heq]
    exact ⟨nofun, fun _ => enodev_neg⟩
  · rw [heq]
    exact afterUpdate_coded (qdmaDevUpdate_rv ..)
  · rw [heq]
    exact afterUpdate_coded (qdmaDevUpdate_rv ..)

theorem length_openEntry (env : OpenEnv) (conf : DevConf) {m : ResourceMaster}
    (hm : qdmaGetMasterResourceEntry rm i = some m) :
    (openEntry env conf i rm).2.2.masterResourceList.length = rm.masterResourceList.length := by
  rcases openEntry_cases env conf hm with ⟨-, heq⟩ | ⟨-, -, -, heq⟩ |
    ⟨-, -, -, d, rm', -, hlength, heq⟩ | ⟨-, d, -, heq⟩
  · rw [heq]
  · rw [heq]
  · rw [heq, afterUpdate_rm, length_qdmaDevUpdate, hlength]
  · rw [heq, afterUpdate_rm, length_qdmaDevUpdate]

/-- After the master, the resource manager is kept if the call ends before the entry, or finds the
entry and the update changes nothing. -/
theorem openEntry_kept_iff (env : OpenEnv) (conf : DevConf) {m : ResourceMaster}
    (hm : qdmaGetMasterResourceEntry rm i = some m) :
    (openEntry env conf i rm).2.2 = rm ↔
      (env.functionNumber ≠ 0 ∨
        (qdmaGetDevEntry rm i env.funcId = none ∧ (qdmaCalloc env.entryMem).1 = false) ∨
        ∃ d, qdmaGetDevEntry rm i env.funcId = some d ∧
          (qdmaDevUpdate rm i env.funcId d.entry.totalQ d.entry.qbase env.updateMem).2.2 = rm) := by
  rcases openEntry_cases env conf hm with ⟨hfunc, heq⟩ | ⟨-, hnone, hmem, heq⟩ |
    ⟨hfunc, hnone, hmem, d, rm', hentry, -, heq⟩ | ⟨hfunc, d, hentry, heq⟩
  · rw [heq]
    exact iff_of_true rfl (.inl hfunc)
  · rw [heq]
    exact iff_of_true rfl (.inr (.inl ⟨hnone, hmem⟩))
  · -- the entry is new
    rw [heq, afterUpdate_rm]
    have hsome := qdmaDevUpdate_hasEntry hentry conf.qsetsMax conf.qsetsBase env.updateMem
    refine iff_of_false (fun hsame => hsome (by rw [hsame]; exact hnone)) ?_
    rintro (hne | ⟨-, hfalse⟩ | ⟨d', hd', -⟩)
    · exact hne hfunc
    · rw [hmem] at hfalse
      cases hfalse
    · rw [hnone] at hd'
      cases hd'
  · rw [heq, afterUpdate_rm]
    constructor
    · exact fun hsame => .inr (.inr ⟨d, hentry, hsame⟩)
    · rintro (hne | ⟨hnone, -⟩ | ⟨d', hd', hsame⟩)
      · exact absurd hfunc hne
      · rw [hentry] at hnone
        cases hnone
      · rw [hentry] at hd'
        cases hd'
        exact hsame

/-- A master is there under its number. -/
theorem exists_master (rm : ResourceState) {m : ResourceMaster} (h : m ∈ rm.masterResourceList) :
    ∃ m', qdmaGetMasterResourceEntry rm m.dmaDeviceIndex = some m' := by
  apply Option.isSome_iff_exists.mp
  unfold qdmaGetMasterResourceEntry
  rw [List.find?_isSome]
  exact ⟨m, h, decide_eq_true rfl⟩

/-- The master of the buses is there, cannot be created, or is new. -/
theorem masterCreate_cases (env : OpenEnv) (rm : ResourceState) :
    (∃ m, qdmaFindMasterResourceEntry rm env.busNumber env.busMax = some m ∧
        qdmaMasterResourceCreate rm env.busNumber env.busMax QDMA_QBASE QDMA_TOTAL_Q env.masterMem =
          (-QDMA_ERR_RM_RES_EXISTS, m.dmaDeviceIndex, rm)) ∨
      (∃ index, qdmaMasterResourceCreate rm env.busNumber env.busMax QDMA_QBASE QDMA_TOTAL_Q
          env.masterMem = (-QDMA_ERR_NO_MEM, index, rm)) ∨
      ∃ rm' m, qdmaFindMasterResourceEntry rm env.busNumber env.busMax = none ∧
        qdmaMasterResourceCreate rm env.busNumber env.busMax QDMA_QBASE QDMA_TOTAL_Q env.masterMem =
          (QDMA_SUCCESS, rm.index, rm') ∧ qdmaGetMasterResourceEntry rm' rm.index = some m ∧
        rm'.masterResourceList.length = rm.masterResourceList.length + 1 := by
  unfold qdmaMasterResourceCreate
  cases hfind : qdmaFindMasterResourceEntry rm env.busNumber env.busMax with
  | some m => exact .inl ⟨m, rfl, rfl⟩
  | none =>
    right
    generalize qdmaCalloc env.masterMem = res
    obtain ⟨ok, rest⟩ := res
    cases ok with
    | false => exact .inl ⟨_, rfl⟩
    | true =>
      dsimp only
      generalize qdmaCalloc rest = res
      obtain ⟨ok, rest⟩ := res
      cases ok with
      | false => exact .inl ⟨_, rfl⟩
      | true =>
        obtain ⟨m, hm⟩ := exists_master {
            masterResourceList := rm.masterResourceList ++
              [newMaster rm.index env.busNumber env.busMax QDMA_QBASE QDMA_TOTAL_Q]
            index := u32 (rm.index + 1) }
          (List.mem_append_right _ (List.mem_singleton_self _))
        exact .inr ⟨_, m, rfl, rfl, hm, List.length_append⟩

/-- What a PF asks the resource manager for: the call goes on without an error, or fails with one;
and the resource manager is as before only if nothing new was needed. -/
theorem openResources_spec (env : OpenEnv) (conf : DevConf) (rm : ResourceState) :
    Coded (openResources env conf rm) ∧
      ((openResources env conf rm).2.2 = rm ↔ ResourcesKept env rm) := by
  unfold openResources ResourcesKept
  rcases masterCreate_cases env rm with ⟨m, hfind, heq⟩ | ⟨index, heq⟩ |
    ⟨rm', m, hfind, heq, hm, hlength⟩
  · obtain ⟨m', hm⟩ := exists_master rm (List.mem_of_find?_eq_some hfind)
    rw [heq, hfind]
    dsimp only
    rw [if_neg (by decide), openEntry_kept_iff env conf hm]
    refine ⟨openEntry_coded env conf hm, ?_⟩
    constructor
    · exact fun h => .inr ⟨m, rfl, h⟩
    · rintro (hmem | ⟨m₁, hm₁, h⟩)
      · exact absurd hmem (by decide)
      · cases hm₁
        exact h
  · rw [heq]
    dsimp only
    rw [if_pos rfl]
    exact ⟨⟨nofun, fun _ => enomem_neg⟩, iff_of_true rfl (.inl rfl)⟩
  · -- the master is new
    rw [heq, hfind]
    dsimp only
    rw [if_neg (by decide)]
    refine ⟨openEntry_coded env conf hm, iff_of_false (fun hsame => ?_) ?_⟩
    · have hlonger := length_openEntry env conf hm
      rw [hsame, hlength] at hlonger
      omega
    · rintro (hmem | ⟨m₁, hm₁, -⟩)
      · exact absurd hmem (by decide)
      · cases hm₁

end

/-! ## The whole call -/

section

variable {env : OpenEnv} {conf : DevConf} {modName : Bool} {s : HostState} {rm : ResourceState}

/-- A call that ends with an error code and the state as it was. -/
theorem OpenProper.of_neg {rv : ℤ} (h : rv < 0) : OpenProper s (rv, 0, s) :=
  ⟨iff_of_false h.ne fun hlive => hlive.1 rfl, fun _ => rfl⟩

/-- A call that returns 0 without a device. -/
theorem not_openProper {s' : HostState} : ¬ OpenProper s (0, 0, s') := fun h =>
  (h.live.mp rfl).1 rfl

/-- The part with the mapped BAR: it fails with an error and without having asked a PF's resource
manager, refuses the legacy mode with the code 0, fails with an error, or succeeds. -/
theorem openMapped_cases (env : OpenEnv) (conf : DevConf) (rm : ResourceState) :
    (¬ HwFound env ∧ ∃ rv, openMapped env conf rm = (rv, false, rm) ∧ rv < 0) ∨
      (HwFound env ∧ ResourcesReady env conf rm ∧ LegacyRefused env conf ∧
        ∃ rm', openMapped env conf rm = (0, false, rm')) ∨
      (HwFound env ∧ ¬ (ResourcesReady env conf rm ∧ LegacyRefused env conf) ∧
        ¬ (ResourcesReady env conf rm ∧ Started env) ∧
        ∃ rv rm', openMapped env conf rm = (rv, false, rm') ∧ rv < 0 ∧
          (rm' = rm ↔ env.isVf = false → ResourcesKept env rm)) ∨
      (HwFound env ∧ ResourcesReady env conf rm ∧ ¬ LegacyRefused env conf ∧ Started env ∧
        ∃ rm', openMapped env conf rm = (0, true, rm')) := by
  unfold openMapped
  by_cases hbar : xdevMapBars env = 0
  · rw [if_neg (not_not.mpr hbar)]
    by_cases hinit : env.hwAccessInit = 0
    · rw [if_neg (not_not.mpr (accessResult_eq_zero_iff.mpr hinit))]
      by_cases hversion : env.getVersion = 0
      · rw [if_neg (not_not.mpr (accessResult_eq_zero_iff.mpr hversion))]
        right
        have hfound : HwFound env := ⟨hbar, hinit, hversion⟩
        -- the requests of a PF, none of a VF
        have hrequests : ∃ res, (if env.isVf = true then (0, true, rm)
              else openResources env conf rm) = res ∧ Coded res ∧
            (ResourcesReady env conf rm ↔ res.2.1 = true) ∧
            (res.2.2 = rm ↔ env.isVf = false → ResourcesKept env rm) := by
          refine ⟨_, rfl, ?_⟩
          unfold ResourcesReady
          cases hvf : env.isVf with
          | true =>
            exact ⟨⟨fun _ => rfl, nofun⟩, iff_of_true nofun rfl, iff_of_true rfl nofun⟩
          | false =>
            obtain ⟨hcoded, hkept⟩ := openResources_spec env conf rm
            exact ⟨hcoded, ⟨fun h => h rfl, fun h _ => h⟩,
              ⟨fun h _ => hkept.mp h, fun h => hkept.mpr (h rfl)⟩⟩
        obtain ⟨⟨rv, ok, rm'⟩, heq, hcoded, hready, hkept⟩ := hrequests
        rw [heq]
        cases ok with
        | false =>
          have hnot : ¬ ResourcesReady env conf rm := fun h => Bool.false_ne_true (hready.mp h)
          exact .inr (.inl ⟨hfound, fun h => hnot h.1, fun h => hnot h.1, rv, rm', rfl,
            hcoded.fails rfl, hkept⟩)
        | true =>
          obtain rfl : rv = 0 := hcoded.goesOn rfl
          have hready := hready.mpr rfl
          dsimp only
          by_cases hlegacy : conf.drvMode = some .legacyIntr ∧ env.legacyIntr = false
          · rw [if_pos hlegacy]
            exact .inl ⟨hfound, hready, hlegacy, rm', rfl⟩
          · right
            rw [if_neg hlegacy]
            by_cases honline : env.online < 0
            · rw [if_pos honline]
              exact .inl ⟨hfound, fun h => hlegacy h.2, fun h => h.2.1 honline, _, rm', rfl,
                honline, hkept⟩
            · rw [if_neg honline]
              by_cases hbars : xdevIdentifyBars env = 0
              · rw [if_neg (not_not.mpr hbars)]
                exact .inr ⟨hfound, hready, hlegacy, ⟨honline, hbars⟩, rm', rfl⟩
              · rw [if_pos hbars]
                exact .inl ⟨hfound, fun h => hlegacy h.2, fun h => hbars h.2.2, _, rm', rfl,
                  xdevIdentifyBars_neg hbars, hkept⟩
      · rw [if_pos (mt accessResult_eq_zero_iff.mp hversion)]
        refine .inl ⟨fun h => hversion h.2.2, _, rfl, ?_⟩
        split
        · exact accessResult_neg_iff.mpr hversion
        · exact errorCode_neg _ hversion
    · rw [if_pos (mt accessResult_eq_zero_iff.mp hinit)]
      refine .inl ⟨fun h => hinit h.2.1, _, rfl, ?_⟩
      split
      · exact accessResult_neg_iff.mpr hinit
      · exact einval_neg
  · rw [if_pos hbar]
    exact .inl ⟨fun h => hbar h.1, _, rfl, xdevMapBars_neg hbar⟩

/-- A call that does not come to allocate a device fails and changes nothing. One that does finds
no memory, or puts the device on the list, from which it takes it if it fails. -/
theorem qdmaDeviceOpen_cases (env : OpenEnv) (modName : Bool) (conf : DevConf) (s : HostState) :
    (¬ Attachable env modName conf s ∧
        ∃ rv, qdmaDeviceOpen env modName (some conf) s = (rv, 0, s) ∧ rv < 0) ∨
      (Attachable env modName conf s ∧ env.xdevAlloc = false ∧
        qdmaDeviceOpen env modName (some conf) s = (0, 0, s)) ∨
      (Attachable env modName conf s ∧ env.xdevAlloc = true ∧
        ∃ pdev, ∀ rv ok rm, openMapped env conf s.rm = (rv, ok, rm) →
          qdmaDeviceOpen env modName (some conf) s =
            if ok then (rv, env.addr + 1,
              { xdevList := s.xdevList ++ [{ pdev := pdev, hndl := env.addr + 1 }], rm := rm })
            else (rv, 0, { xdevList := s.xdevList, rm := rm })) := by
  unfold qdmaDeviceOpen Attachable
  cases modName with
  | false => exact .inl ⟨fun h => Bool.false_ne_true h.1, _, rfl, einval_neg⟩
  | true =>
    rw [if_neg nofun]
    dsimp only
    cases hmode : conf.drvMode with
    | none => exact .inl ⟨fun h => h.2.1 rfl, _, rfl, einval_neg⟩
    | some mode =>
      cases hpdev : conf.pdev with
      | none =>
        refine .inl ⟨?_, _, rfl, einval_neg⟩
        rintro ⟨-, -, ⟨pdev, heq, -⟩, -⟩
        cases heq
      | some pdev =>
        dsimp only
        unfold openChecked
        by_cases hlisted : (s.xdevList.any fun d => decide (d.pdev = pdev)) = true
        · rw [if_pos hlisted]
          refine .inl ⟨?_, _, rfl, einval_neg⟩
          rintro ⟨-, -, ⟨p, heq, hnone⟩, -⟩
          cases heq
          obtain ⟨d, hd, hat⟩ := List.any_eq_true.mp hlisted
          exact hnone d hd (of_decide_eq_true hat)
        · rw [if_neg hlisted]
          have hnone : ∀ d ∈ s.xdevList, d.pdev ≠ pdev := by
            intro d hd hat
            exact hlisted (List.any_eq_true.mpr ⟨d, hd, decide_eq_true hat⟩)
          by_cases hregions : env.requestRegions = 0
          · rw [if_neg (not_not.mpr hregions)]
            by_cases henable : env.enableDevice = 0
            · rw [if_neg (not_not.mpr henable)]
              by_cases hmask : env.dmaMask = false
              · rw [if_pos hmask]
                refine .inl ⟨fun h => ?_, _, rfl, einval_neg⟩
                rw [hmask] at h
                exact Bool.false_ne_true h.2.2.2.2.2
              · rw [if_neg hmask]
                right
                have hattach : true = true ∧ some mode ≠ none ∧
                    (∃ p, some pdev = some p ∧ ∀ d ∈ s.xdevList, d.pdev ≠ p) ∧
                    env.requestRegions = 0 ∧ env.enableDevice = 0 ∧ env.dmaMask = true :=
                  ⟨rfl, nofun, ⟨pdev, rfl, hnone⟩, hregions, henable,
                    Bool.eq_true_of_not_eq_false hmask⟩
                cases halloc : env.xdevAlloc with
                | false => exact .inl ⟨hattach, rfl, if_pos rfl⟩
                | true =>
                  rw [if_neg nofun]
                  refine .inr ⟨hattach, rfl, pdev, ?_⟩
                  have hnew : ∀ xdev : ListedDevice, xdev.pdev = pdev →
                      (s.xdevList ++ [xdev]).erase xdev = s.xdevList := by
                    intro xdev hat
                    rw [List.erase_append_right _ fun hmem => hnone _ hmem hat,
                      List.erase_cons_head, List.append_nil]
                  intro rv ok rm hmapped
                  dsimp only
                  rw [hmapped]
                  cases ok with
                  | false =>
                    exact congrArg (fun l => (rv, 0, ({ xdevList := l, rm := rm } : HostState)))
                      (hnew _ rfl)
                  | true => rfl
            · rw [if_pos henable]
              exact .inl ⟨fun h => henable h.2.2.2.2.1, _, rfl, by omega⟩
          · rw [if_pos hregions]
            exact .inl ⟨fun h => hregions h.2.2.2.1, _, rfl, by omega⟩

/-- A call of `qdma_device_open` is all or nothing exactly if memory for the device is found, a
legacy mode that the device lacks is not asked for, and a PF that fails needed nothing new of the
resource manager. Without a configuration nothing happens. -/
theorem qdmaDeviceOpen_proper_iff (env : OpenEnv) (modName : Bool) (s : HostState) :
    OpenProper s (qdmaDeviceOpen env modName none s) ∧
      ∀ conf, OpenProper s (qdmaDeviceOpen env modName (some conf) s) ↔
        OpenKept env modName conf s := by
  constructor
  · unfold qdmaDeviceOpen
    split <;> exact .of_neg einval_neg
  · intro conf
    rcases qdmaDeviceOpen_cases env modName conf s with ⟨hnot, rv, heq, hneg⟩ |
      ⟨hattach, halloc, heq⟩ | ⟨hattach, halloc, pdev, heq⟩
    · rw [heq]
      exact iff_of_true (.of_neg hneg)
        ⟨fun h => absurd h hnot, fun h => absurd h hnot, fun h => absurd h hnot⟩
    · rw [heq]
      refine iff_of_false not_openProper fun h => ?_
      rw [h.alloc hattach] at halloc
      cases halloc
    · rcases openMapped_cases env conf s.rm with ⟨hnot, rv, hmapped, hneg⟩ |
        ⟨hfound, hready, hlegacy, rm', hmapped⟩ |
        ⟨hfound, hlegacy, hstarted, rv, rm', hmapped, hneg, hkept⟩ |
        ⟨hfound, hready, hlegacy, hstarted, rm', hmapped⟩
      · rw [heq _ _ _ hmapped]
        exact iff_of_true (.of_neg hneg)
          ⟨fun _ => halloc, fun _ h => absurd h hnot, fun _ h => absurd h hnot⟩
      · rw [heq _ _ _ hmapped]
        exact iff_of_false not_openProper fun h => h.legacy hattach hfound hready hlegacy
      · rw [heq _ _ _ hmapped]
        constructor
        · intro h
          have hsame : rm' = s.rm := congrArg HostState.rm (h.failed hneg.ne)
          exact ⟨fun _ => halloc, fun _ _ hready hrefused => hlegacy ⟨hready, hrefused⟩,
            fun _ _ hpf _ => hkept.mp hsame hpf⟩
        · intro h
          rw [hkept.mpr fun hpf => h.resources hattach hfound hpf hstarted]
          exact .of_neg hneg
      · rw [heq _ _ _ hmapped]
        refine iff_of_true ⟨iff_of_true rfl ⟨Nat.succ_ne_zero _, _,
          List.mem_append_right _ (List.mem_singleton_self _), rfl⟩, fun hne => absurd rfl hne⟩ ?_
        exact ⟨fun _ => halloc, fun _ _ _ => hlegacy,
          fun _ _ _ hnot => absurd ⟨hready, hstarted⟩ hnot⟩

end

/-- The device of the examples: a PF whose bus is new. -/
def newPf : DevConf := { drvMode := some .poll, pdev := some 0, qsetsMax := 8, qsetsBase := -1 }

/-- When no memory for the device is found, 0 is returned without a device. -/
theorem noMemory_not_proper :
    ¬ OpenProper {} (qdmaDeviceOpen { xdevAlloc := false } true (some newPf) {}) := by
  intro h
  exact (h.live.mp rfl).1 rfl

end OnicDriver.Open
