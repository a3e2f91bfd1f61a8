import OnicDriver.Interrupt.Ring
import OnicDriver.Lifecycle.Device
import OnicDriver.Open.Device

/-!
# Setting what all functions share

Interrupt rings and the tables of the global registers are not to change while
queues are in use. Each setter asks the resource manager for the number of
active queues before it writes, and each but one asks by the number of the PCI
bus.
-/

namespace OnicDriver.Config

open Lib Resource Setup Lifecycle Interrupt
open Open (qdmaGetErrorCode)
open Mailbox (QDMA_ERR_HWACC_FEATURE_NOT_SUPPORTED)
open Queue (DrvMode)

def EINVAL : ℤ := 22
def ENOMEM : ℤ := 12

def QDMA_GLOBAL_CSR_ARRAY_SZ : ℕ := 16
def QDMA_INDIRECT_INTR_RING_SIZE_32KB : ℕ := 7

/-- `enum qdma_global_csr_type`. -/
inductive CsrType
  | ringSz
  | timerCnt
  | cntTh
  | bufSz
  deriving DecidableEq, Repr

/-- The functions of the access library that the setters call for the device at an address, with
what they return and the registers they leave. A writeback interval is passed by its address, and
a read gets what is in the place it reads into. -/
structure HwAccess (R : Type*) where
  globalCsrWrite : ℕ → ℕ → ℕ → (ℕ → ℕ) → CsrType → R → ℤ × R
  globalCsrRead : ℕ → ℕ → ℕ → CsrType → (ℕ → ℕ) → R → ℤ × (ℕ → ℕ)
  globalWritebackIntervalWrite : ℕ → ℕ → R → ℤ × R
  globalWritebackIntervalRead : ℕ → ℕ → R → ℤ × ℕ
  indirectIntrCtxInvalidate : ℕ → ℕ → R → ℤ × R
  intrContextSetup : ℕ → IntrCoalConf → R → ℤ × R
  hwErrorIntrSetup : ℕ → R → ℤ × R
  hwErrorEnable : ℕ → R → ℤ × R
  hwErrorIntrRearm : ℕ → R → ℤ × R

/-- `intr_coal_list`: NULL, the one ring of a function, or a list that has been freed. -/
inductive IntrCoalList
  | null
  | list (conf : IntrCoalConf)
  | freed

/-- An open PF, `struct xlnx_dma_dev`: its address, the bus it is on, its configuration, and its
queues. -/
structure PfDev where
  hndl : ℕ
  busNumber : ℕ
  x : Xdev
  masterPf : Bool := false
  numVecs : ℕ := 1
  dvecStartIdx : ℕ := 0
  msixEntry : ℕ → ℕ := id
  wbIntvl : ℕ := 0
  sortedC2hCntrIdx : ℕ → ℕ := id
  intrRngsz : ℕ := 0
  intrCoalList : IntrCoalList := .null
  slots : ℕ → Slot
  initQrange : Bool := false
  mem : Memory := {}

/-- `qdma_get_active_queue_count`. -/
def qdmaGetActiveQueueCount (rm : ResourceState) (dmaDeviceIndex : ℕ) : ℕ :=
  match qdmaGetMasterResourceEntry rm dmaDeviceIndex with
  | none => 0
  | some m => m.activeQcnt

/-! ## Reading the tables -/

/-- One pass of `qdma_sort_c2h_cntr_th_values`: the least threshold from `leastMax` on, and its
index, where the last of equal ones is taken and the index of the pass before is skipped. -/
def sortPass (th : ℕ → ℕ) (refIdx : Option ℕ) (leastMax val idx : ℕ) : ℕ × ℕ :=
  let eligible := fun i => decide (refIdx ≠ some i) && !decide (th i < leastMax)
  match (List.range QDMA_GLOBAL_CSR_ARRAY_SZ).find? eligible with
  | none => (val, idx)
  | some i =>
    (((List.range QDMA_GLOBAL_CSR_ARRAY_SZ).drop i).filter eligible).foldl
      (fun best k => if best.1 ≥ th k then (th k % 2 ^ 8, k) else best) (th i % 2 ^ 8, i)

/-- The passes of `qdma_sort_c2h_cntr_th_values` from pass `j` on. -/
def sortPasses (th : ℕ → ℕ) :
    ℕ → ℕ → Option ℕ → ℕ → ℕ → ℕ → (ℕ → ℕ) → ℕ → ℕ
  | 0, _, _, _, _, _, sorted => sorted
  | n + 1, j, refIdx, leastMax, val, idx, sorted =>
    let (val, idx) := sortPass th refIdx leastMax val idx
    sortPasses th n (j + 1) (some idx) val val (j + 1) (Function.update sorted j idx)

/-- `qdma_sort_c2h_cntr_th_values`. -/
def qdmaSortC2hCntrThValues (th sorted : ℕ → ℕ) : ℕ → ℕ :=
  sortPasses th QDMA_GLOBAL_CSR_ARRAY_SZ 0 none 0 (th 0 % 2 ^ 8) 0 sorted

section

variable {R : Type*} (hw : HwAccess R)

/-- The return value of a read that may be missing in the hardware. -/
def readFails (rv : ℤ) : Prop := rv < 0 ∧ rv ≠ -QDMA_ERR_HWACC_FEATURE_NOT_SUPPORTED

instance (rv : ℤ) : Decidable (readFails rv) := inferInstanceAs (Decidable (_ ∧ _))

/-- `qdma_csr_read` of the PF, into the device. -/
def qdmaCsrRead (dev : PfDev) (regs : R) : ℤ × PfDev :=
  let read := fun kind old =>
    hw.globalCsrRead dev.hndl 0 QDMA_GLOBAL_CSR_ARRAY_SZ kind old regs
  let set := fun (dev : PfDev) csr => { dev with x := { dev.x with csrInfo := csr } }
  let (rv, t) := read .ringSz dev.x.csrInfo.ringSz
  let dev := set dev { dev.x.csrInfo with ringSz := t }
  if rv < 0 then (qdmaGetErrorCode rv, dev)
  else
    let (rv, wb) := hw.globalWritebackIntervalRead dev.hndl dev.wbIntvl regs
    let dev := { dev with wbIntvl := wb }
    if readFails rv then (qdmaGetErrorCode rv, dev)
    else
      let (rv, t) := read .bufSz dev.x.csrInfo.c2hBufSz
      let dev := set dev { dev.x.csrInfo with c2hBufSz := t }
      if readFails rv then (qdmaGetErrorCode rv, dev)
      else
        let (rv, t) := read .timerCnt dev.x.csrInfo.c2hTimerCnt
        let dev := set dev { dev.x.csrInfo with c2hTimerCnt := t }
        if readFails rv then (qdmaGetErrorCode rv, dev)
        else
          let (rv, t) := read .cntTh dev.x.csrInfo.c2hCntTh
          let dev := set dev { dev.x.csrInfo with c2hCntTh := t }
          if readFails rv then (qdmaGetErrorCode rv, dev)
          else
            (0, { dev with sortedC2hCntrIdx :=
              qdmaSortC2hCntrThValues dev.x.csrInfo.c2hCntTh dev.sortedC2hCntrIdx })

/-! ## Interrupt rings -/

/-- What memory the interrupt setup finds: for the list and for the ring. -/
structure IntrAlloc where
  list : Bool := true
  ring : Bool := true
  deriving DecidableEq, Repr

/-- `get_intr_ring_index`. -/
def getIntrRingIndex (dev : PfDev) (vectorIndex : ℕ) : ℤ :=
  (vectorIndex : ℤ) - dev.dvecStartIdx + dev.x.funcId

/-- `intr_ring_teardown`. -/
def intrRingTeardown (dev : PfDev) (regs : R) : PfDev × R :=
  let ring := (getIntrRingIndex dev dev.dvecStartIdx).toNat
  ({ dev with intrCoalList := .freed }, (hw.indirectIntrCtxInvalidate dev.hndl ring regs).2)

/-- `qdma_device_interrupt_cleanup`. -/
def qdmaDeviceInterruptCleanup (dev : PfDev) (regs : R) : PfDev × R :=
  match dev.intrCoalList with
  | .null => (dev, regs)
  | _ => intrRingTeardown hw dev regs

/-- `intr_ring_setup` in a mode with aggregation. -/
def intrRingSetup (alloc : IntrAlloc) (dev : PfDev) : ℤ × PfDev :=
  if dev.numVecs ≠ 0 then
    if alloc.list = false ∨ alloc.ring = false then (-ENOMEM, dev)
    else
      let vecId := dev.msixEntry dev.dvecStartIdx
      let conf : IntrCoalConf :=
        { vecId := vecId, intrRngNumEntries := (dev.intrRngsz + 1) * 512 % 2 ^ 16
          intrRingBase := fun _ => 0, color := true, swCidx := 0
          rngIdx := (getIntrRingIndex dev vecId % 2 ^ 8).toNat }
      (0, { dev with intrCoalList := .list conf })
  else (0, { dev with intrCoalList := .null, x := { dev.x with drvMode := .poll } })

/-- The mode is one with aggregation. -/
def aggregates (mode : DrvMode) : Prop := mode = .indirectIntr ∨ mode = .auto

instance (mode : DrvMode) : Decidable (aggregates mode) := inferInstanceAs (Decidable (_ ∨ _))

/-- The part of `qdma_device_interrupt_setup` for the error interrupt of a master PF. -/
def errorInterruptSetup (dev : PfDev) (regs : R) : ℤ × R :=
  if dev.x.drvMode ≠ .poll ∧ dev.x.drvMode ≠ .legacyIntr ∧ dev.masterPf = true then
    let (rv, regs) := hw.hwErrorIntrSetup dev.hndl regs
    if rv < 0 then (-EINVAL, regs)
    else
      let (rv, regs) := hw.hwErrorEnable dev.hndl regs
      if rv < 0 then (-EINVAL, regs)
      else
        let (rv, regs) := hw.hwErrorIntrRearm dev.hndl regs
        if rv < 0 then (-EINVAL, regs) else (rv, regs)
  else (0, regs)

/-- `qdma_device_interrupt_setup`. -/
def qdmaDeviceInterruptSetup (alloc : IntrAlloc) (dev : PfDev) (regs : R) : ℤ × PfDev × R :=
  if aggregates dev.x.drvMode then
    let (rv, dev) := intrRingSetup alloc dev
    if rv ≠ 0 then (-EINVAL, dev, regs)
    else
      match dev.intrCoalList with
      | .list conf =>
        let (rv, regs) := hw.intrContextSetup dev.hndl conf regs
        if rv ≠ 0 then (rv, dev, regs)
        else
          let (rv, regs) := errorInterruptSetup hw dev regs
          (rv, dev, regs)
      | _ =>
        let dev := { dev with x := { dev.x with drvMode := .directIntr } }
        let (rv, regs) := errorInterruptSetup hw dev regs
        (rv, dev, regs)
  else
    let (rv, regs) := errorInterruptSetup hw dev regs
    (rv, dev, regs)

/-- `qdma_set_intr_rngsz`. What the new setup returns does not count. -/
def qdmaSetIntrRngsz (rm : ResourceState) (alloc : IntrAlloc) (intrRngsz : ℕ) (dev : PfDev)
    (regs : R) : ℤ × PfDev × R :=
  if intrRngsz = dev.intrRngsz then (-1, dev, regs)
  else if ¬ aggregates dev.x.drvMode then (-1, dev, regs)
  else if qdmaGetActiveQueueCount rm dev.busNumber ≠ 0 then (-1, dev, regs)
  else if intrRngsz > QDMA_INDIRECT_INTR_RING_SIZE_32KB then (-1, dev, regs)
  else
    let (dev, regs) := qdmaDeviceInterruptCleanup hw dev regs
    let (_, dev, regs) :=
      qdmaDeviceInterruptSetup hw alloc { dev with intrRngsz := intrRngsz } regs
    (0, dev, regs)

/-! ## Global registers -/

/-- A setter of a table that asks by the bus number: the code of an error of the write, and the
return value from those of the write and of the read that follows. -/
def setTable (kind : CsrType) (failed : ℤ → ℤ) (result : ℤ → ℤ → ℤ) (rm : ResourceState)
    (vals : ℕ → ℕ) (dev : PfDev) (regs : R) : ℤ × PfDev × R :=
  if qdmaGetActiveQueueCount rm dev.busNumber ≠ 0 then (-1, dev, regs)
  else
    let (rv, regs) := hw.globalCsrWrite dev.hndl 0 QDMA_GLOBAL_CSR_ARRAY_SZ vals kind regs
    if rv < 0 then (failed rv, dev, regs)
    else
      let (rvRead, dev) := qdmaCsrRead hw dev regs
      (result rv rvRead, dev, regs)

/-- A read that fails decides the return value. -/
def afterRead (_ rvRead : ℤ) : ℤ := if rvRead < 0 then rvRead else 0

/-- `qdma_set_buf_sz`: what the read returns does not count. -/
def qdmaSetBufSz := setTable hw .bufSz qdmaGetErrorCode fun rv _ => rv

/-- `qdma_set_glbl_rng_sz`. -/
def qdmaSetGlblRngSz := setTable hw .ringSz (fun _ => -EINVAL) afterRead

/-- `qdma_set_timer_cnt`. -/
def qdmaSetTimerCnt := setTable hw .timerCnt qdmaGetErrorCode afterRead

/-- `qdma_set_cnt_thresh`. -/
def qdmaSetCntThresh := setTable hw .cntTh qdmaGetErrorCode afterRead

/-- `qdma_set_cmpl_status_acc`. The value is passed where its address is expected. -/
def qdmaSetCmplStatusAcc (rm : ResourceState) (cmplStatusAcc : ℕ) (dev : PfDev) (regs : R) :
    ℤ × PfDev × R :=
  if qdmaGetActiveQueueCount rm dev.busNumber ≠ 0 then (-EINVAL, dev, regs)
  else
    let (rv, regs) := hw.globalWritebackIntervalWrite dev.hndl cmplStatusAcc regs
    if rv < 0 then (qdmaGetErrorCode rv, dev, regs)
    else
      let (rvRead, dev) := qdmaCsrRead hw dev regs
      (afterRead rv rvRead, dev, regs)

/-- Writes one after the other until one returns an error. -/
def writeAll : List (R → ℤ × R) → R → Bool × R
  | [], regs => (true, regs)
  | write :: rest, regs =>
    let (rv, regs) := write regs
    if rv ≠ 0 then (false, regs) else writeAll rest regs

/-- `qdma_global_csr_set`, which asks by the index of the device. -/
def qdmaGlobalCsrSet (rm : ResourceState) (index count : ℕ) (csr : GlobalCsrConf) (wbIntvl : ℕ)
    (dev : PfDev) (regs : R) : ℤ × PfDev × R :=
  if qdmaGetActiveQueueCount rm dev.x.dmaDeviceIndex ≠ 0 then (-EINVAL, dev, regs)
  else
    let (ok, regs) := writeAll
      [hw.globalWritebackIntervalWrite dev.hndl wbIntvl,
        hw.globalCsrWrite dev.hndl index count csr.ringSz .ringSz,
        hw.globalCsrWrite dev.hndl index count csr.c2hTimerCnt .timerCnt,
        hw.globalCsrWrite dev.hndl index count csr.c2hCntTh .cntTh,
        hw.globalCsrWrite dev.hndl index count csr.c2hBufSz .bufSz] regs
    if ok = false then (-EINVAL, dev, regs)
    else
      let (rvRead, dev) := qdmaCsrRead hw dev regs
      (afterRead 0 rvRead, dev, regs)

/-- A call of a setter. -/
inductive SetterCall
  | intrRngsz (alloc : IntrAlloc) (intrRngsz : ℕ)
  | bufSz (vals : ℕ → ℕ)
  | glblRngSz (vals : ℕ → ℕ)
  | timerCnt (vals : ℕ → ℕ)
  | cntThresh (vals : ℕ → ℕ)
  | cmplStatusAcc (value : ℕ)
  | globalCsr (index count : ℕ) (csr : GlobalCsrConf) (wbIntvl : ℕ)

/-- The setter of a call: the return value, the device and the registers. -/
def setter (rm : ResourceState) : SetterCall → PfDev → R → ℤ × PfDev × R
  | .intrRngsz alloc v => qdmaSetIntrRngsz hw rm alloc v
  | .bufSz vals => qdmaSetBufSz hw rm vals
  | .glblRngSz vals => qdmaSetGlblRngSz hw rm vals
  | .timerCnt vals => qdmaSetTimerCnt hw rm vals
  | .cntThresh vals => qdmaSetCntThresh hw rm vals
  | .cmplStatusAcc v => qdmaSetCmplStatusAcc hw rm v
  | .globalCsr index count csr wb => qdmaGlobalCsrSet hw rm index count csr wb

end

end OnicDriver.Config
