import OnicDriver.Config.Setters
import OnicDriver.Lib.Runs
import OnicDriver.Lifecycle.Counts
import OnicDriver.Open.Requests
import OnicDriver.Resource.Accounting
import Mathlib.Algebra.Order.BigOperators.Group.List

/-!
# Setting only while idle

A setter is to refuse while a queue of its device is active, and only then.
The count of a master tells whether one is, as long as each queue that is
removed was counted; a setter that asks by the bus number may ask another
master, or none.
-/

namespace OnicDriver.Config

open Lib Resource Setup Lifecycle
open Open (OpenEnv DevConf HostState qdmaDeviceOpen QDMA_QBASE QDMA_TOTAL_Q)

variable {R : Type*}

/-- The PFs that are open, with what they share: the resource manager and the registers. -/
structure ConfigState (R : Type*) where
  host : HostState := {}
  devs : List PfDev := []
  regs : R

/-- A PF is opened, adds or removes a queue, or is told to set something, or a call of the resource
manager is made for a VF of a device. -/
inductive ConfigEvent
  | openDev (env : OpenEnv) (conf : DevConf) (dev : PfDev)
  | add (k : ℕ) (c : ClientConf) (env : AddEnv)
  | remove (k id : ℕ) (mail : ℕ → Mail)
  | served (i : ℕ) (op : AccountOp)
  | set (k : ℕ) (call : SetterCall)

/-- The queues of a PF. -/
def PfDev.queues (dev : PfDev) (rm : ResourceState) : Device :=
  { slots := dev.slots, initQrange := dev.initQrange, mem := dev.mem, rm := rm }

/-- The PF with its queues after a call. -/
def PfDev.withQueues (dev : PfDev) (d : Device) : PfDev :=
  { dev with slots := d.slots, initQrange := d.initQrange, mem := d.mem }

/-- The PF that an opening sets up, with the rest of it as `dev` has it. -/
def opened (env : OpenEnv) (index hndl : ℕ) (dev : PfDev) : PfDev :=
  { dev with
    hndl := hndl, busNumber := env.busNumber
    x := { dev.x with isVf := false, dmaDeviceIndex := index, funcId := env.funcId } }

def configStep (hw : HwAccess R) (s : ConfigState R) : ConfigEvent → ConfigState R
  | .openDev env conf dev =>
    let env := { env with isVf := false }
    let index := (qdmaMasterResourceCreate s.host.rm env.busNumber env.busMax QDMA_QBASE
      QDMA_TOTAL_Q env.masterMem).2.1
    let (_, hndl, host) := qdmaDeviceOpen env true (some conf) s.host
    let devs := if hndl = 0 then s.devs else s.devs ++ [opened env index hndl dev]
    { s with host := host, devs := devs }
  | .add k c env =>
    match s.devs[k]? with
    | none => s
    | some dev =>
      let d := (qdmaQueueAdd dev.x (dev.queues s.host.rm) c env).2.2
      { s with host := { s.host with rm := d.rm }, devs := s.devs.set k (dev.withQueues d) }
  | .remove k id mail =>
    match s.devs[k]? with
    | none => s
    | some dev =>
      let d := (qdmaQueueRemove dev.x (dev.queues s.host.rm) id mail).2
      { s with host := { s.host with rm := d.rm }, devs := s.devs.set k (dev.withQueues d) }
  | .served i op => { s with host := { s.host with rm := account i s.host.rm op } }
  | .set k call =>
    match s.devs[k]? with
    | none => s
    | some dev =>
      let (_, dev, regs) := setter hw s.host.rm call dev s.regs
      { s with devs := s.devs.set k dev, regs := regs }

/-- A queue of a DMA device is active. -/
def DeviceActive (rm : ResourceState) (dmaDeviceIndex : ℕ) : Prop :=
  ∃ m, qdmaGetMasterResourceEntry rm dmaDeviceIndex = some m ∧ ∃ d ∈ m.devList, d.active ≠ 0

/-- A setter refuses and changes nothing if a queue of its device is active, and otherwise does
what it does where no device has queues. -/
def Guarded (hw : HwAccess R) (s : ConfigState R) : ConfigEvent → Prop
  | .set k call => ∀ dev, s.devs[k]? = some dev →
    (DeviceActive s.host.rm dev.x.dmaDeviceIndex →
      (setter hw s.host.rm call dev s.regs).1 < 0 ∧
        (setter hw s.host.rm call dev s.regs).2 = (dev, s.regs)) ∧
    (¬ DeviceActive s.host.rm dev.x.dmaDeviceIndex →
      setter hw s.host.rm call dev s.regs = setter hw {} call dev s.regs)
  | _ => True

/-- The setter asks by the index of the device. -/
def SetterCall.asksByIndex : SetterCall → Prop
  | .globalCsr .. => True
  | _ => False

/-- The steps that keep setters to their devices: a setter that asks by the bus number asks a
master that has active queues exactly if that of its device has, a queue that is removed has been
counted, a count that goes up is not at its largest value, and the calls for VFs are safe. -/
def StepOk (s : ConfigState R) : ConfigEvent → Prop
  | .openDev .. => True
  | .add k _ _ => ∀ dev m, s.devs[k]? = some dev →
    qdmaGetMasterResourceEntry s.host.rm dev.x.dmaDeviceIndex = some m →
      m.activeQcnt + 2 < 2 ^ 32
  | .remove k id _ => ∀ dev e, s.devs[k]? = some dev →
    qdmaGetDevEntry s.host.rm dev.x.dmaDeviceIndex dev.x.funcId = some e →
      id < 3 * dev.x.qmax → (dev.slots id).qState = .enabled →
        e.activeQcnt (devQType (dev.slots id).conf.qType) ≠ 0 ∧
          ((dev.slots id).conf.stC2h = true → e.activeCmptQcnt ≠ 0)
  | .served i op => AccountSafe i s.host.rm op
  | .set k call => call.asksByIndex ∨ ∀ dev, s.devs[k]? = some dev →
    (qdmaGetActiveQueueCount s.host.rm dev.busNumber = 0 ↔
      qdmaGetActiveQueueCount s.host.rm dev.x.dmaDeviceIndex = 0)

/-! ## Counts -/

section

variable {rm : ResourceState} {i : ℕ} {x : Xdev} {mail : ℕ → Mail} {conf : QdmaQueueConf}

/-- The count of an accounted master is zero exactly if none of its functions has active queues. -/
theorem activeQueueCount_eq_zero_iff (h : AccountedAll rm) (i : ℕ) :
    qdmaGetActiveQueueCount rm i = 0 ↔ ¬ DeviceActive rm i := by
  unfold qdmaGetActiveQueueCount DeviceActive
  cases hm : qdmaGetMasterResourceEntry rm i with
  | none => simp
  | some m =>
    have htotal := (h i m hm).total
    simp [htotal, activeSum, List.sum_eq_zero_iff]

/-- Counting a queue of a PF is a call of the resource manager for its master. -/
theorem addActive_eq (hpf : x.isVf = false) (mail : Mail) (t : QType) (rm : ResourceState) :
    (addActive x mail t rm).2 =
      account x.dmaDeviceIndex rm (.incrementActiveQueue x.funcId (some (devQType t))) := by
  simp [addActive, notify, hpf, account]

theorem delActive_eq (hpf : x.isVf = false) (mail : Mail) (t : QType) (rm : ResourceState) :
    (delActive x mail t rm).2 =
      account x.dmaDeviceIndex rm (.decrementActiveQueue x.funcId (some (devQType t))) := by
  simp [delActive, notify, hpf, account]

theorem addActive_rv (hpf : x.isVf = false) (mail : Mail) (t : QType) (rm : ResourceState) :
    (addActive x mail t rm).1 =
      (qdmaDevIncrementActiveQueue rm x.dmaDeviceIndex x.funcId (some (devQType t))).1 := by
  simp [addActive, notify, hpf]

theorem delActive_rv (hpf : x.isVf = false) (mail : Mail) (t : QType) (rm : ResourceState) :
    (delActive x mail t rm).1 =
      (qdmaDevDecrementActiveQueue rm x.dmaDeviceIndex x.funcId (some (devQType t))).1 := by
  simp [delActive, notify, hpf]

/-- The count of a master goes up by one at most. -/
theorem increment_master {f : ℕ} {t : DevQType} {m' : ResourceMaster}
    (hm' : qdmaGetMasterResourceEntry (qdmaDevIncrementActiveQueue rm i f (some t)).2 i =
      some m') :
    ∃ m, qdmaGetMasterResourceEntry rm i = some m ∧ m'.activeQcnt ≤ m.activeQcnt + 1 := by
  cases hm : qdmaGetMasterResourceEntry rm i with
  | none =>
    unfold qdmaDevIncrementActiveQueue at hm'
    rw [hm] at hm'
    cases hm.symm.trans hm'
  | some m =>
    refine ⟨m, rfl, ?_⟩
    have hi : m.dmaDeviceIndex = i := by simpa using List.find?_some hm
    unfold qdmaDevIncrementActiveQueue at hm'
    rw [hm] at hm'
    cases hd : m.devEntry f with
    | none =>
      simp only [hd] at hm'
      cases hm.symm.trans hm'
      exact Nat.le_succ _
    | some d =>
      simp only [hd] at hm'
      split at hm'
      · cases hm.symm.trans hm'
        exact Nat.le_succ _
      · have hkey : ({ m with activeQcnt := u32 (m.activeQcnt + 1) }.setDev
            (d.setActiveQcnt (u32 (d.activeQcnt t + 1)) t)).dmaDeviceIndex = i := hi
        have hfound := find?_writeFirst hm (by simpa using hkey)
        unfold qdmaGetMasterResourceEntry ResourceState.setMaster at hm'
        dsimp only at hm'
        rw [hkey] at hm'
        cases hfound.symm.trans hm'
        show u32 ((m.activeQcnt : ℤ) + 1) ≤ m.activeQcnt + 1
        unfold u32
        omega

/-- A count that fails changes nothing, and otherwise the function has an active queue of the
type. -/
theorem increment_result (h : AccountedAll rm) {f : ℕ} {t : DevQType}
    (hroom : ∀ m, qdmaGetMasterResourceEntry rm i = some m → m.activeQcnt + 1 < 2 ^ 32) :
    (qdmaDevIncrementActiveQueue rm i f (some t)).2 = rm ∧
        (qdmaDevIncrementActiveQueue rm i f (some t)).1 < 0 ∨
      (qdmaDevIncrementActiveQueue rm i f (some t)).1 = 0 ∧
        ∃ d, qdmaGetDevEntry (qdmaDevIncrementActiveQueue rm i f (some t)).2 i f = some d ∧
          d.activeQcnt t ≠ 0 := by
  cases hd : qdmaGetDevEntry rm i f with
  | none =>
    obtain ⟨hneg, hsame⟩ := increment_of_none hd t
    exact .inl ⟨hsame, hneg⟩
  | some d =>
    by_cases hfull : d.entry.totalQ < u32 (d.activeQcnt t + 1)
    · rw [increment_of_full hd hfull]
      exact .inl ⟨rfl, (by decide : -QDMA_ERR_RM_NO_QUEUES_LEFT < 0)⟩
    · obtain ⟨hrv, hentry⟩ := increment_of_room hd (Nat.not_lt.mp hfull)
      refine .inr ⟨hrv, _, hentry, ?_⟩
      obtain ⟨m, hm, hdev⟩ := qdmaGetDevEntry_eq_some hd
      have hle : d.activeQcnt t ≤ m.activeQcnt := by
        obtain ⟨-, l, r, hlist, -⟩ := ResourceMaster.devEntry_split hdev
        have hcount := activeQcnt_le_active d t
        have htotal := (h i m hm).total
        rw [hlist, activeSum_split] at htotal
        omega
      have hfits := hroom m hm
      rw [setActiveQcnt_activeQcnt]
      unfold u32
      omega

/-- A queue that is added leaves all masters accounted for. -/
theorem countAdded_accounted (hpf : x.isVf = false) (h : AccountedAll rm) (mail : ℕ → Mail)
    (conf : QdmaQueueConf) (hroom : ∀ m, qdmaGetMasterResourceEntry rm x.dmaDeviceIndex = some m →
      m.activeQcnt + 2 < 2 ^ 32) : AccountedAll (countAdded x mail conf rm).2 := by
  have hroom₁ : ∀ m, qdmaGetMasterResourceEntry rm x.dmaDeviceIndex = some m →
      m.activeQcnt + 1 < 2 ^ 32 := by
    intro m hm
    have hfits := hroom m hm
    omega
  have h₁ := h.account x.dmaDeviceIndex
    (.incrementActiveQueue x.funcId (some (devQType conf.qType))) hroom₁
  have hfirst := increment_result h (f := x.funcId) (t := devQType conf.qType) hroom₁
  have hcount₁ : ∀ m, qdmaGetMasterResourceEntry
      (qdmaDevIncrementActiveQueue rm x.dmaDeviceIndex x.funcId (some (devQType conf.qType))).2
        x.dmaDeviceIndex = some m → m.activeQcnt + 1 < 2 ^ 32 := by
    intro m' hm'
    obtain ⟨m, hm, hle⟩ := increment_master hm'
    have hfits := hroom m hm
    omega
  unfold countAdded countQueue
  dsimp only
  rw [addActive_eq hpf, addActive_rv hpf]
  split
  · exact h₁
  · rename_i hok
    split
    · rw [addActive_eq hpf, addActive_rv hpf]
      have h₂ := h₁.account x.dmaDeviceIndex
        (.incrementActiveQueue x.funcId (some (devQType .cmpt))) hcount₁
      split
      · rename_i hneg
        have hsame := (increment_result h₁ (f := x.funcId) (t := .cmpt) hcount₁).resolve_right
          fun hdone => hneg.ne hdone.1
        rw [delActive_eq hpf]
        have heq : account x.dmaDeviceIndex (account x.dmaDeviceIndex rm
            (.incrementActiveQueue x.funcId (some (devQType conf.qType))))
              (.incrementActiveQueue x.funcId (some (devQType .cmpt))) =
            account x.dmaDeviceIndex rm
              (.incrementActiveQueue x.funcId (some (devQType conf.qType))) := hsame.1
        rw [heq]
        apply h₁.account
        intro d hd
        obtain ⟨d', hd', hne⟩ := (hfirst.resolve_left fun hfail => hok hfail.2).2
        cases hd'.symm.trans hd
        exact ⟨_, rfl, hne⟩
      · exact h₂
    · exact h₁

/-- A queue that was counted and is removed leaves all masters accounted for. -/
theorem countRemoved_accounted (hpf : x.isVf = false) (h : AccountedAll rm) (mail : ℕ → Mail)
    (conf : QdmaQueueConf) (hcounted : ∀ e,
      qdmaGetDevEntry rm x.dmaDeviceIndex x.funcId = some e →
        e.activeQcnt (devQType conf.qType) ≠ 0 ∧ (conf.stC2h = true → e.activeCmptQcnt ≠ 0)) :
    AccountedAll (countRemoved x mail conf rm).2 := by
  have h₁ := h.account x.dmaDeviceIndex
    (.decrementActiveQueue x.funcId (some (devQType conf.qType)))
    fun e he => ⟨_, rfl, (hcounted e he).1⟩
  unfold countRemoved countQueue
  dsimp only
  rw [delActive_eq hpf, delActive_rv hpf]
  split
  · exact h₁
  · rename_i hok
    split
    · rename_i hst
      cases hd : qdmaGetDevEntry rm x.dmaDeviceIndex x.funcId with
      | none => exact absurd (decrement_of_none hd _).1 hok
      | some e =>
        have ht : devQType conf.qType = .c2h := congrArg devQType (stC2h_qType hst)
        have hentry := (decrement_of_some hd (t := devQType conf.qType)).2
        -- the count of the completions is another one
        have hcmpt : (e.setActiveQcnt (e.activeQcnt (devQType conf.qType) - 1)
            (devQType conf.qType)).activeQcnt .cmpt ≠ 0 := by
          rw [setActiveQcnt_activeQcnt_of_ne (by rw [ht]; exact nofun)]
          exact (hcounted e hd).2 hst
        rw [delActive_eq hpf, delActive_rv hpf]
        have h₂ := h₁.account x.dmaDeviceIndex
          (.decrementActiveQueue x.funcId (some (devQType .cmpt))) (by
            intro d hdev
            cases hentry.symm.trans hdev
            exact ⟨_, rfl, hcmpt⟩)
        split
        · rename_i hneg
          exact absurd (decrement_of_some hentry (t := .cmpt)).1 hneg.ne
        · exact h₂
    · exact h₁

end

/-! ## Steps -/

variable {hw : HwAccess R} {s : ConfigState R}

/-- The masters are accounted for, and the devices are PFs. -/
structure ConfigInv (s : ConfigState R) : Prop where
  accounted : AccountedAll s.host.rm
  pf : ∀ dev ∈ s.devs, dev.x.isVf = false

theorem keptByRequests_accounted (conf : Open.DevConf) :
    Open.KeptByRequests conf AccountedAll where
  create rm busStart busEnd mem h := by
    unfold qdmaMasterResourceCreate
    split
    · exact h
    · split
      · exact h
      · split
        · exact h
        · intro i m hm
          unfold qdmaGetMasterResourceEntry at hm
          rw [List.find?_append] at hm
          cases hold : rm.masterResourceList.find? fun m => decide (m.dmaDeviceIndex = i) with
          | some m' =>
            rw [hold] at hm
            cases hm
            exact h i m hold
          | none =>
            rw [hold, Option.none_or] at hm
            have hmem := List.mem_of_find?_eq_some hm
            obtain rfl := List.mem_singleton.mp hmem
            exact accounted_newMaster rm.index busStart busEnd QDMA_QBASE QDMA_TOTAL_Q
  entry rm i f mem h := h.account i (.devEntryCreate f mem) trivial
  update rm i f qmax qbase mem _ h := h.account i (.devUpdate f qmax qbase mem) trivial

/-- The master that a setter asks. -/
def SetterCall.key (dev : PfDev) : SetterCall → ℕ
  | .globalCsr .. => dev.x.dmaDeviceIndex
  | _ => dev.busNumber

theorem einval_neg : -EINVAL < 0 := by decide

/-- A setter that learns of active queues refuses. -/
theorem setter_busy {rm : ResourceState} {call : SetterCall} {dev : PfDev} {regs : R}
    (h : qdmaGetActiveQueueCount rm (call.key dev) ≠ 0) :
    (setter hw rm call dev regs).1 < 0 ∧ (setter hw rm call dev regs).2 = (dev, regs) := by
  have hneg : (-1 : ℤ) < 0 := by decide
  have htable : ∀ kind failed result vals, qdmaGetActiveQueueCount rm dev.busNumber ≠ 0 →
      (setTable hw kind failed result rm vals dev regs).1 < 0 ∧
        (setTable hw kind failed result rm vals dev regs).2 = (dev, regs) := by
    intro kind failed result vals hbusy
    unfold setTable
    rw [if_pos hbusy]
    exact ⟨hneg, rfl⟩
  cases call with
  | intrRngsz alloc v =>
    simp only [setter, qdmaSetIntrRngsz]
    split
    · exact ⟨hneg, rfl⟩
    · split
      · exact ⟨hneg, rfl⟩
      · rw [if_pos (show qdmaGetActiveQueueCount rm dev.busNumber ≠ 0 from h)]
        exact ⟨hneg, rfl⟩
  | bufSz vals => exact htable _ _ _ _ h
  | glblRngSz vals => exact htable _ _ _ _ h
  | timerCnt vals => exact htable _ _ _ _ h
  | cntThresh vals => exact htable _ _ _ _ h
  | cmplStatusAcc v =>
    simp only [setter, qdmaSetCmplStatusAcc]
    rw [if_pos (show qdmaGetActiveQueueCount rm dev.busNumber ≠ 0 from h)]
    exact ⟨einval_neg, rfl⟩
  | globalCsr index count csr wb =>
    simp only [setter, qdmaGlobalCsrSet]
    rw [if_pos (show qdmaGetActiveQueueCount rm dev.x.dmaDeviceIndex ≠ 0 from h)]
    exact ⟨einval_neg, rfl⟩

/-- A setter that learns of no active queue does what it does without any. -/
theorem setter_idle {rm : ResourceState} {call : SetterCall} {dev : PfDev} {regs : R}
    (h : qdmaGetActiveQueueCount rm (call.key dev) = 0) :
    setter hw rm call dev regs = setter hw {} call dev regs := by
  have hnone : ∀ i, qdmaGetActiveQueueCount {} i = 0 := fun _ => rfl
  cases call <;> simp only [SetterCall.key] at h <;>
    simp only [setter, qdmaSetIntrRngsz, qdmaSetBufSz, qdmaSetGlblRngSz, qdmaSetTimerCnt,
      qdmaSetCntThresh, setTable, qdmaSetCmplStatusAcc, qdmaGlobalCsrSet, h, hnone]

theorem interruptSetup_isVf (hw : HwAccess R) (alloc : IntrAlloc) (dev : PfDev) (regs : R) :
    (qdmaDeviceInterruptSetup hw alloc dev regs).2.1.x.isVf = dev.x.isVf := by
  have hring : (intrRingSetup alloc dev).2.x.isVf = dev.x.isVf := by
    unfold intrRingSetup
    split_ifs <;> rfl
  unfold qdmaDeviceInterruptSetup
  dsimp only
  split
  · split
    · exact hring
    · split
      · split <;> exact hring
      · exact hring
  · rfl

/-- Setters leave a PF what it is. -/
theorem setter_isVf (hw : HwAccess R) (rm : ResourceState) (call : SetterCall) (dev : PfDev)
    (regs : R) : (setter hw rm call dev regs).2.1.x.isVf = dev.x.isVf := by
  have hread : ∀ regs, (qdmaCsrRead hw dev regs).2.x.isVf = dev.x.isVf := by
    intro regs
    unfold qdmaCsrRead
    dsimp only
    split_ifs <;> rfl
  have htable : ∀ kind failed result vals,
      (setTable hw kind failed result rm vals dev regs).2.1.x.isVf = dev.x.isVf := by
    intro kind failed result vals
    unfold setTable
    dsimp only
    split_ifs <;> first | rfl | exact hread _
  cases call with
  | intrRngsz alloc v =>
    simp only [setter, qdmaSetIntrRngsz]
    split_ifs <;> first | rfl | skip
    rw [interruptSetup_isVf]
    unfold qdmaDeviceInterruptCleanup intrRingTeardown
    split <;> rfl
  | bufSz vals => exact htable ..
  | glblRngSz vals => exact htable ..
  | timerCnt vals => exact htable ..
  | cntThresh vals => exact htable ..
  | cmplStatusAcc v =>
    simp only [setter, qdmaSetCmplStatusAcc]
    split_ifs <;> first | rfl | exact hread _
  | globalCsr index count csr wb =>
    simp only [setter, qdmaGlobalCsrSet]
    split_ifs <;> first | rfl | exact hread _

/-- A PF in the list is written back. -/
theorem ConfigInv.setDev (h : ConfigInv s) (k : ℕ) (dev : PfDev) {rm : ResourceState} {regs : R}
    (hrm : AccountedAll rm) (hpf : dev.x.isVf = false) :
    ConfigInv { s with host := { s.host with rm := rm }, devs := s.devs.set k dev, regs := regs } :=
  ⟨hrm, fun dev' hdev' => (List.mem_or_eq_of_mem_set hdev').elim (h.pf dev') fun heq => heq ▸ hpf⟩

theorem ConfigInv.openDev (h : ConfigInv s) (env : OpenEnv) (conf : DevConf) (dev : PfDev) :
    ConfigInv (configStep hw s (.openDev env conf dev)) := by
  have hrm := Open.KeptByRequests.qdmaDeviceOpen (some conf)
    (fun c _ => keptByRequests_accounted c) { env with isVf := false } true
    h.accounted
  refine ⟨hrm, ?_⟩
  simp only [configStep]
  split
  · exact h.pf
  · intro dev' hdev'
    rcases List.mem_append.mp hdev' with hold | hnew
    · exact h.pf dev' hold
    · rw [List.mem_singleton.mp hnew]
      rfl

theorem ConfigInv.add (h : ConfigInv s) {k : ℕ} {c : ClientConf} {env : AddEnv}
    (hok : StepOk s (.add k c env)) : ConfigInv (configStep hw s (.add k c env)) := by
  simp only [configStep]
  cases hdev : s.devs[k]? with
  | none => exact h
  | some dev =>
    have hpf := h.pf dev (List.mem_of_getElem? hdev)
    apply h.setDev k (dev.withQueues _) _ hpf
    have hcount : AccountedAll (countAdded dev.x env.mail c.conf s.host.rm).2 :=
      countAdded_accounted hpf h.accounted env.mail c.conf fun m hm => hok dev m hdev hm
    have hadd := qdmaQueueAdd_result dev.x (dev.queues s.host.rm) c env
    generalize qdmaQueueAdd dev.x (dev.queues s.host.rm) c env = res at hadd
    cases hadd with
    | refused hneg => exact h.accounted
    | unwound hslot hneg => exact h.accounted
    | marked hslot hpf hprep => exact h.accounted
    | uncounted hslot hprep hlegacy heq hneg =>
      have heq : countAdded dev.x env.mail c.conf s.host.rm = _ := heq
      rw [heq] at hcount
      exact hcount
    | added hslot hprep hlegacy heq hrv =>
      have heq : countAdded dev.x env.mail c.conf s.host.rm = _ := heq
      rw [heq] at hcount
      exact hcount

theorem ConfigInv.remove (h : ConfigInv s) {k id : ℕ} {mail : ℕ → Mail}
    (hok : StepOk s (.remove k id mail)) : ConfigInv (configStep hw s (.remove k id mail)) := by
  simp only [configStep]
  cases hdev : s.devs[k]? with
  | none => exact h
  | some dev =>
    have hpf := h.pf dev (List.mem_of_getElem? hdev)
    apply h.setDev k (dev.withQueues _) _ hpf
    unfold qdmaQueueRemove
    split
    · exact h.accounted
    · rename_i pos hpos
      obtain ⟨rfl, hlt, -⟩ := getDescqById_some hpos
      split
      · exact h.accounted
      · rename_i hen
        have hcount := countRemoved_accounted hpf h.accounted mail (dev.slots pos).conf
          fun e he => hok dev e hdev he hlt (Decidable.not_not.mp hen)
        unfold countRemoved at hcount
        dsimp only
        split <;> exact hcount

/-- Every step that is as it should be keeps the masters accounted for. -/
theorem ConfigInv.step (h : ConfigInv s) (e : ConfigEvent) (hok : StepOk s e) :
    ConfigInv (configStep hw s e) := by
  cases e with
  | openDev env conf dev => exact h.openDev env conf dev
  | add k c env => exact h.add hok
  | remove k id mail => exact h.remove hok
  | served i op => exact ⟨h.accounted.account i op hok, h.pf⟩
  | set k call =>
    simp only [configStep]
    cases hdev : s.devs[k]? with
    | none => exact h
    | some dev =>
      apply h.setDev k _ h.accounted
      rw [setter_isVf]
      exact h.pf dev (List.mem_of_getElem? hdev)

/-- A setter that asks the right master is guarded. -/
theorem ConfigInv.guarded (h : ConfigInv s) (e : ConfigEvent) (hok : StepOk s e) :
    Guarded hw s e := by
  cases e with
  | set k call =>
    intro dev hdev
    -- what the setter learns is whether its device has active queues
    have hkey : qdmaGetActiveQueueCount s.host.rm (call.key dev) = 0 ↔
        ¬ DeviceActive s.host.rm dev.x.dmaDeviceIndex := by
      rw [← activeQueueCount_eq_zero_iff h.accounted]
      rcases hok with hindex | hbus
      · cases call with
        | globalCsr index count csr wb => exact Iff.rfl
        | _ => exact hindex.elim
      · cases call with
        | globalCsr index count csr wb => exact Iff.rfl
        | _ => exact hbus dev hdev
    constructor
    · intro hactive
      exact setter_busy fun hzero => hkey.mp hzero hactive
    · intro hidle
      exact setter_idle (hkey.mpr hidle)
  | _ => trivial

/-- In every run from no devices on whose steps are as they should be every setter is guarded. -/
theorem configRun_guarded (hw : HwAccess R) (regs : R) (es : List ConfigEvent)
    (h : Admitted (configStep hw) StepOk { regs := regs } es) :
    Admitted (configStep hw) (Guarded hw) { regs := regs } es := by
  have hstart : ConfigInv ({ regs := regs } : ConfigState R) :=
    ⟨fun _ _ hm => (nomatch hm), fun _ hdev => (nomatch hdev)⟩
  exact h.steps (fun s e hs hok => hs.step e hok) (fun s e hs hok => hs.guarded e hok) hstart

/-! ## Two openings -/

/-- Registers of which only the first buffer size is kept. -/
def bufRegs : HwAccess ℕ where
  globalCsrWrite _ _ _ vals kind regs := (0, if kind = .bufSz then vals 0 else regs)
  globalCsrRead _ _ _ kind old regs := (0, if kind = .bufSz then fun _ => regs else old)
  globalWritebackIntervalWrite _ _ regs := (0, regs)
  globalWritebackIntervalRead _ old _ := (0, old)
  indirectIntrCtxInvalidate _ _ regs := (0, regs)
  intrContextSetup _ _ regs := (0, regs)
  hwErrorIntrSetup _ regs := (0, regs)
  hwErrorEnable _ regs := (0, regs)
  hwErrorIntrRearm _ regs := (0, regs)

/-- The first PF that is opened is on a bus and gets a queue; then its buffer sizes are set. -/
def busRun (bus : ℕ) : List ConfigEvent :=
  [.openDev { busNumber := bus, busMax := bus }
      { drvMode := some .poll, pdev := some 0, qsetsMax := 4, qsetsBase := 0 }
      { hndl := 0, busNumber := 0, x := pollingPf, slots := fun _ => newSlot },
    .add 0 c2hConf {}, .set 0 (.bufSz fun _ => 2048)]

theorem stepOk_add {s : ConfigState R} {k : ℕ} {c : ClientConf} {env : AddEnv}
    (h : ∀ m ∈ s.host.rm.masterResourceList, m.activeQcnt + 2 < 2 ^ 32) :
    StepOk s (.add k c env) :=
  fun _ m _ hm => h m (List.mem_of_find?_eq_some hm)

theorem stepOk_set {s : ConfigState R} {k i : ℕ} {call : SetterCall}
    (h : (s.devs[k]?.map fun dev => (dev.busNumber, dev.x.dmaDeviceIndex)) = some (i, i)) :
    StepOk s (.set k call) := by
  refine .inr fun dev hdev => ?_
  rw [hdev] at h
  obtain ⟨hbus, hindex⟩ := Prod.mk.inj (Option.some.inj h)
  rw [hbus, hindex]

theorem busRun_guarded :
    Admitted (configStep bufRegs) (Guarded bufRegs) { regs := 4096 } (busRun 0) := by
  apply configRun_guarded bufRegs 4096 (busRun 0)
  refine ⟨trivial, stepOk_add ?_, stepOk_set (i := 0) ?_, trivial⟩
  · decide +kernel
  · decide +kernel

/-- A PF on another bus sets its buffer sizes while its queue is active. -/
theorem busRun_not_guarded :
    ¬ ∀ es, Admitted (configStep bufRegs) (Guarded bufRegs) { regs := 4096 } es := by
  intro hall
  obtain ⟨-, -, hset, -⟩ := hall (busRun 3)
  generalize hs : configStep bufRegs (configStep bufRegs { regs := 4096 } _) _ = s at hset
  have hactive : (s.devs[0]?.bind fun dev =>
      qdmaGetMasterResourceEntry s.host.rm dev.x.dmaDeviceIndex).any
        (fun m => m.devList.any fun d => decide (d.active ≠ 0)) = true := by
    rw [← hs]
    decide +kernel
  have hdone : (s.devs[0]?.map fun dev =>
      (setter bufRegs s.host.rm (.bufSz fun _ => 2048) dev s.regs).1) = some 0 := by
    rw [← hs]
    decide +kernel
  cases hdev : s.devs[0]? with
  | none =>
    rw [hdev] at hdone
    cases hdone
  | some dev =>
    rw [hdev] at hactive hdone
    have hbusy : DeviceActive s.host.rm dev.x.dmaDeviceIndex := by
      simpa [DeviceActive, Option.any_eq_true] using hactive
    have hrefused := ((hset dev hdev).1 hbusy).1
    exact hrefused.ne (Option.some.inj hdone)

end OnicDriver.Config
