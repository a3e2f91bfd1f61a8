import OnicDriver.Access.Indirect
import OnicDriver.Json.Platform
import OnicDriver.Open.Device
import OnicDriver.Resource.Masters

/-!
# Probing a function of the card

`onic_pci_probe` sizes the network device by the configuration file, opens the
DMA device, and then tells the shell which queues the function has: it writes
the base and the number of the queues to the register QCONF, and the queues to
the indirection table.
-/

namespace OnicDriver.Shell

open Lib Queue Resource Open Access

/-! ## Registers of the shell -/

def QDMA_SUBSYSTEM_OFFSET : ℕ := 0x1000

def QDMA_FUNC_OFFSET (i : ℕ) : ℕ := QDMA_SUBSYSTEM_OFFSET + 0x1000 * i

def QDMA_FUNC_OFFSET_QCONF (i : ℕ) : ℕ := QDMA_FUNC_OFFSET i + 0x0

def QDMA_FUNC_QCONF_QBASE_MASK : ℕ := GENMASK 31 16

def QDMA_FUNC_QCONF_NUMQ_MASK : ℕ := GENMASK 15 0

def QDMA_FUNC_OFFSET_INDIR_TABLE (i k : ℕ) : ℕ := QDMA_FUNC_OFFSET i + 0x400 + k * 4

/-- `onic_init_reta`: the offsets and the values that it writes, in order. -/
def onicInitReta (pinfo : PlatformInfo) (realNumRxQueues : ℕ) : List (ℕ × ℕ) :=
  let port := pinfo.portId.toNat
  let val := FIELD_SET 32 QDMA_FUNC_QCONF_QBASE_MASK pinfo.queueBase.toNat |||
    FIELD_SET 32 QDMA_FUNC_QCONF_NUMQ_MASK realNumRxQueues
  (QDMA_FUNC_OFFSET_QCONF port, val) ::
    (List.range 128).map fun i =>
      (QDMA_FUNC_OFFSET_INDIR_TABLE port i, i % realNumRxQueues &&& 0x0000FFFF)

/-! ## Opening and closing the device -/

/-- `qdma_master_resource_destroy`. A master with entries stays. -/
def qdmaMasterResourceDestroy (s : ResourceState) (dmaDeviceIndex : ℕ) : ResourceState :=
  match qdmaGetMasterResourceEntry s dmaDeviceIndex with
  | none => s
  | some m =>
    if m.devList ≠ [] then s
    else
      let masters := s.masterResourceList.eraseP fun n => decide (n.dmaDeviceIndex = dmaDeviceIndex)
      { s with masterResourceList := masters }

/-- `qdma_device_close` of a device with this master and this function number. A handle that is
NULL or not that of the PCI device is refused. -/
def qdmaDeviceClose (pdev hndl dmaDeviceIndex funcId : ℕ) (mem : CallocResults) (s : HostState) :
    ℤ × HostState :=
  if hndl = 0 then (-Open.EINVAL, s)
  else
    let xdev : ListedDevice := { pdev := pdev, hndl := hndl }
    if xdev ∈ s.xdevList then
      let rm := qdmaDevEntryDestroy s.rm dmaDeviceIndex funcId mem
      (0, { xdevList := s.xdevList.erase xdev, rm := qdmaMasterResourceDestroy rm dmaDeviceIndex })
    else (-Open.EINVAL, s)

/-- What a probe meets: the PCI device, the interrupt vectors of its MSI-X capability, whether
there is memory for the network device and the requests, whether `netif_set_real_num_rx_queues`
accepts the number, what the opening of the device meets, the error codes of
`onic_qdma_csr_index_setup` with a device, of `onic_enable_cmac` and of `register_netdev`, whether
the BAR is mapped, and the allocations when the device is closed. -/
structure ProbeEnv where
  pdev : ℕ
  numMsix : ℤ
  netdev : Bool := true
  dmaReq : Bool := true
  setRealNum : Bool := true
  device : OpenEnv
  csrIndexSetup : ℤ := 0
  iomap : Bool := true
  enableCmac : ℤ := 0
  registerNetdev : ℤ := 0
  closeMem : CallocResults := []

/-- The number of the master that the device gets from the resource manager. -/
def dmaDeviceIndex (env : ProbeEnv) (rm : ResourceState) : ℕ :=
  (qdmaMasterResourceCreate rm env.device.busNumber env.device.busMax QDMA_QBASE QDMA_TOTAL_Q
    env.device.masterMem).2.1

/-- `onic_set_num_queue`: the return value and `nb_queues`, an `unsigned short`. -/
def onicSetNumQueue (pinfo : PlatformInfo) (numMsix : ℤ) : ℤ × ℕ :=
  if numMsix ≤ 0 then (numMsix, 0)
  else
    let nbQueues := u16 numMsix
    let nbQueues := u16 (nbQueues - pinfo.pciMsixUserCnt.toNat)
    (0, if pinfo.pciMasterPf then u16 (nbQueues - 1) else nbQueues)

/-- `netdev->real_num_rx_queues` after the probe has set it: all the queues of the network device,
unless the number from the file or that of the vectors is accepted. -/
def realNumRxQueues (env : ProbeEnv) (pinfo : PlatformInfo) : ℕ :=
  let nbQueues := (onicSetNumQueue pinfo env.numMsix).2
  let asked := if pinfo.usedQueues.toNat > 0 then pinfo.usedQueues.toNat else nbQueues
  if env.setRealNum then asked else pinfo.queueMax.toNat

/-- The configuration that `onic_qdma_setup` opens the device with. -/
def onicQdmaDevConf (env : ProbeEnv) (pinfo : PlatformInfo) : DevConf :=
  { drvMode := some (if pinfo.pollMode then .poll else .directIntr)
    pdev := some env.pdev
    qsetsMax := pinfo.queueMax.toNat
    qsetsBase := pinfo.queueBase.toNat }

/-- `onic_qdma_setup`: the return value, `dev_handle` and the state. -/
def onicQdmaSetup (env : ProbeEnv) (pinfo : PlatformInfo) (s : HostState) : ℤ × ℕ × HostState :=
  match qdmaDeviceOpen env.device true (some (onicQdmaDevConf env pinfo)) s with
  | (ret, hndl, s') =>
    if ret ≠ 0 then (-Open.EINVAL, hndl, s')
    else
      let ret := if hndl = 0 then -Open.EINVAL else env.csrIndexSetup
      if ret ≠ 0 then
        (-Open.EINVAL, hndl, (qdmaDeviceClose env.pdev hndl (dmaDeviceIndex env s.rm)
          env.device.funcId env.closeMem s').2)
      else (0, hndl, s')

/-- What a probe returns, what `onic_init_reta` wrote if it was called, and the state. -/
structure ProbeResult where
  ret : ℤ
  reta : Option (List (ℕ × ℕ))
  host : HostState

/-- `onic_pci_probe`, with the result of `onic_get_pinfo`. -/
def onicPciProbe (env : ProbeEnv) (pinfo : Except ℤ PlatformInfo) (s : HostState) : ProbeResult :=
  match pinfo with
  | .error ret => ⟨ret, none, s⟩
  | .ok pinfo =>
    if env.netdev = false then ⟨-Open.ENODEV, none, s⟩
    else
      let ret := (onicSetNumQueue pinfo env.numMsix).1
      if ret ≠ 0 then ⟨ret, none, s⟩
      else if env.dmaReq = false then ⟨-Open.ENOMEM, none, s⟩
      else
        match onicQdmaSetup env pinfo s with
        | (ret, hndl, s') =>
          let closed := (qdmaDeviceClose env.pdev hndl (dmaDeviceIndex env s.rm)
            env.device.funcId env.closeMem s').2
          if ret ≠ 0 then ⟨ret, none, s'⟩
          else if env.iomap = false then ⟨- Open.EIO, none, closed⟩
          else if env.enableCmac ≠ 0 then ⟨env.enableCmac, none, closed⟩
          else
            let reta := onicInitReta pinfo (realNumRxQueues env pinfo)
            if env.registerNetdev ≠ 0 then ⟨env.registerNetdev, some reta, closed⟩
            else ⟨0, some reta, s'⟩

/-! ## What happens to the host -/

/-- A probe, the removal of a device, or a call of the resource manager for another function. -/
inductive HostEvent
  | probe (env : ProbeEnv) (pinfo : Except ℤ PlatformInfo)
  | remove (pdev hndl dmaDeviceIndex funcId : ℕ) (mem : CallocResults)
  | resource (op : ResourceOp)

/-- The state after an event. -/
def hostStep (s : HostState) : HostEvent → HostState
  | .probe env pinfo => (onicPciProbe env pinfo s).host
  | .remove pdev hndl i f mem => (qdmaDeviceClose pdev hndl i f mem s).2
  | .resource op => { s with rm := exec s.rm op }

end OnicDriver.Shell
