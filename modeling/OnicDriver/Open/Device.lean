import OnicDriver.Queue.Descq
import OnicDriver.Resource.Counting

/-!
# Opening a device

`qdma_device_open` takes what the PCI device, the memory and the resource
manager give, step by step. A step that fails jumps to a label behind which
what was taken before is given back, with the error code of the moment.
-/

namespace OnicDriver.Open

open Lib Queue Resource

def EPERM : ℤ := 1
def EIO : ℤ := 5
def ENOMEM : ℤ := 12
def EBUSY : ℤ := 16
def ENODEV : ℤ := 19
def EINVAL : ℤ := 22

def QDMA_QBASE : ℤ := 0
def QDMA_TOTAL_Q : ℕ := 2048
def QDMA_MAX_BAR_LEN_MAPPED : ℕ := 0x4000000
def QDMA_MIN_BAR_LEN_MAPPED : ℕ := 0x4000

/-- `error_code_map_list`. -/
def errorCodeMapList : List ℤ :=
  [0, EINVAL, ENOMEM, EBUSY, EINVAL, EINVAL, EINVAL, EINVAL, EPERM, EINVAL, EPERM, EINVAL, EPERM,
    EPERM, EIO, EINVAL, EINVAL, EINVAL, EINVAL, EINVAL, EINVAL, EINVAL, EBUSY, EINVAL, EIO, EINVAL]

/-- `qdma_get_error_code`. -/
def qdmaGetErrorCode (accErrCode : ℤ) : ℤ := -errorCodeMapList.getD (-accErrCode).toNat 0

/-- A device on `xdev_list`: its PCI device and its address. -/
structure ListedDevice where
  pdev : ℕ
  hndl : ℕ
  deriving DecidableEq, Repr

/-- The list of devices and the resource manager. -/
structure HostState where
  xdevList : List ListedDevice := []
  rm : ResourceState := {}
  deriving DecidableEq, Repr

/-- `struct qdma_dev_conf`, as far as the call depends on it: the driver mode, unless its number
is above `LEGACY_INTR_MODE`, the PCI device, unless it is NULL, and the queues asked for. -/
structure DevConf where
  drvMode : Option DrvMode
  pdev : Option ℕ
  qsetsMax : ℕ
  qsetsBase : ℤ
  deriving DecidableEq, Repr

/-- No error of `enum qdma_access_error_codes`. -/
def NO_ERROR : Fin 26 := ⟨0, by decide⟩

/-- What the steps of the call meet: the errors of the PCI functions, whether the device can use
DMA and memory for it is found, at which address, the BAR with the registers, the errors of the
access library with what it reads, the allocations of the resource manager, the capabilities, what
`qdma_device_online` returns, and the number of BARs. -/
structure OpenEnv where
  isVf : Bool := false
  requestRegions : ℕ := 0
  enableDevice : ℕ := 0
  dmaMask : Bool := true
  xdevAlloc : Bool := true
  addr : ℕ := 0
  iomap : Bool := true
  barLen : ℕ := QDMA_MIN_BAR_LEN_MAPPED
  hwAccessInit : Fin 26 := NO_ERROR
  getVersion : Fin 26 := NO_ERROR
  busNumber : ℕ := 0
  busMax : ℕ := 0
  masterMem : CallocResults := []
  functionNumber : Fin 26 := NO_ERROR
  funcId : ℕ := 0
  entryMem : CallocResults := []
  updateMem : CallocResults := []
  mmEn : Bool := true
  stEn : Bool := true
  legacyIntr : Bool := false
  online : ℤ := 0
  numBars : ℕ := 2
  versalHardIp : Bool := false
  getUserBar : Fin 26 := NO_ERROR

/-- What a function of the access library returns for an error of `enum qdma_access_error_codes`. -/
def accessResult (e : Fin 26) : ℤ := -(e.val : ℤ)

/-- `xdev_map_bars`. -/
def xdevMapBars (env : OpenEnv) : ℤ :=
  let mapLen := min env.barLen QDMA_MAX_BAR_LEN_MAPPED
  if env.iomap = false ∨ mapLen < QDMA_MIN_BAR_LEN_MAPPED then -EINVAL else 0

/-- `xdev_identify_bars`. -/
def xdevIdentifyBars (env : OpenEnv) : ℤ :=
  let rv := if env.versalHardIp then 0 else accessResult env.getUserBar
  if env.numBars > 1 ∧ rv < 0 then qdmaGetErrorCode rv else 0

/-- The entry and the range that a PF asks the resource manager for, and the check of its modes:
the error code of the moment, whether the call goes on, and the resource manager. -/
def openEntry (env : OpenEnv) (conf : DevConf) (index : ℕ) (rm : ResourceState) :
    ℤ × Bool × ResourceState :=
  if accessResult env.functionNumber < 0 then (-EINVAL, false, rm)
  else
    let (rv, qinfo) := qdmaDevQinfoGet rm index env.funcId
    let (qsetsBase, qsetsMax) := qinfo.getD (conf.qsetsBase, conf.qsetsMax)
    let (rv, rm) := if rv < 0 then qdmaDevEntryCreate rm index env.funcId env.entryMem else (rv, rm)
    if rv < 0 then (-ENODEV, false, rm)
    else
      let (rv, _, rm) := qdmaDevUpdate rm index env.funcId qsetsMax qsetsBase env.updateMem
      if rv < 0 then (qdmaGetErrorCode rv, false, rm)
      else if env.mmEn = false ∧ env.stEn = false then (-EINVAL, false, rm)
      else (rv, true, rm)

/-- The requests of a PF, the first of which is for the master of its buses. -/
def openResources (env : OpenEnv) (conf : DevConf) (rm : ResourceState) :
    ℤ × Bool × ResourceState :=
  let (rv, index, rm) := qdmaMasterResourceCreate rm env.busNumber env.busMax QDMA_QBASE
    QDMA_TOTAL_Q env.masterMem
  if rv = -QDMA_ERR_NO_MEM then (-ENOMEM, false, rm) else openEntry env conf index rm

/-- The part of `qdma_device_open` that jumps to `unmap_bars`. The refusal of the legacy mode
jumps with the code that is there. -/
def openMapped (env : OpenEnv) (conf : DevConf) (rm : ResourceState) :
    ℤ × Bool × ResourceState :=
  if xdevMapBars env ≠ 0 then (xdevMapBars env, false, rm)
  else if accessResult env.hwAccessInit ≠ 0 then
    (if env.isVf then accessResult env.hwAccessInit else -EINVAL, false, rm)
  else if accessResult env.getVersion ≠ 0 then
    (if env.isVf then accessResult env.getVersion
      else qdmaGetErrorCode (accessResult env.getVersion), false, rm)
  else
    match if env.isVf then (0, true, rm) else openResources env conf rm with
    | (rv, false, rm) => (rv, false, rm)
    | (rv, true, rm) =>
      if conf.drvMode = some .legacyIntr ∧ env.legacyIntr = false then (rv, false, rm)
      else if env.online < 0 then (env.online, false, rm)
      else if xdevIdentifyBars env ≠ 0 then (xdevIdentifyBars env, false, rm)
      else (0, true, rm)

/-- `qdma_device_open` once its arguments are checked. If no memory is found the error code is
still that of the DMA mask. -/
def openChecked (env : OpenEnv) (conf : DevConf) (pdev : ℕ) (s : HostState) :
    ℤ × ℕ × HostState :=
  if s.xdevList.any fun d => d.pdev = pdev then (-EINVAL, 0, s)
  else if env.requestRegions ≠ 0 then (-(env.requestRegions : ℤ), 0, s)
  else if env.enableDevice ≠ 0 then (-(env.enableDevice : ℤ), 0, s)
  else if env.dmaMask = false then (-EINVAL, 0, s)
  else if env.xdevAlloc = false then (0, 0, s)
  else
    let xdev : ListedDevice := { pdev := pdev, hndl := env.addr + 1 }
    let listed := s.xdevList ++ [xdev]
    match openMapped env conf s.rm with
    | (rv, false, rm) => (rv, 0, { xdevList := listed.erase xdev, rm := rm })
    | (rv, true, rm) => (rv, xdev.hndl, { xdevList := listed, rm := rm })

/-- `qdma_device_open`: the return value, `*dev_hndl` and the state. A mode or a PCI device that is
not valid and a missing name or configuration are refused. -/
def qdmaDeviceOpen (env : OpenEnv) (modName : Bool) (conf : Option DevConf) (s : HostState) :
    ℤ × ℕ × HostState :=
  if modName = false then (-EINVAL, 0, s)
  else
    match conf with
    | none => (-EINVAL, 0, s)
    | some conf =>
      match conf.drvMode, conf.pdev with
      | none, _ => (-EINVAL, 0, s)
      | some _, none => (-EINVAL, 0, s)
      | some _, some pdev => openChecked env conf pdev s

end OnicDriver.Open
