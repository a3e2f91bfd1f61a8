import OnicDriver.Interrupt.Vectors
import OnicDriver.Shell.Agreement

/-!
# The budgets of queues and vectors

The probe splits the vectors of the function into those of the user, one for
errors, and one for each queue; `intr_setup` counts them once more. The
subtractions of the first are checked by the second, but only in interrupt
mode. The number of queues in use comes from a third source, and the queues of
the function from the resource manager.
-/

namespace OnicDriver.Shell

open Lib Queue Resource Open Mailbox Interrupt.Vectors

/-! ## A probe with its interrupts -/

/-- What a probe meets when its interrupts are taken apart: whether
`netif_set_real_num_tx_queues` accepts the number, how the driver is built, whether the mailbox can
interrupt, what the kernel answers to `intr_setup`, and the result of the rest of
`qdma_device_online`. -/
structure CardEnv where
  probe : ProbeEnv
  setRealNumTx : Bool := true
  build : BuildOptions := ⟨false, false, true⟩
  mboxIntr : Bool := false
  msixAlloc : Bool := true
  infoAlloc : Bool := true
  enableMsix : ℤ := 0
  requestIrq : ℕ → ℤ := fun _ => 0
  restOnline : ℤ := 0

/-- The kernel reports the same number of vectors to the probe and to `intr_setup`. -/
def CardEnv.kernel (card : CardEnv) : KernelEnv :=
  { msixVecCount := card.probe.numMsix, msixAlloc := card.msixAlloc, infoAlloc := card.infoAlloc
    enableMsix := card.enableMsix, requestIrq := card.requestIrq }

/-- The vectors that `onic_qdma_setup` asks for. -/
def onicVectorConf (card : CardEnv) (pinfo : PlatformInfo) : Interrupt.Vectors.DevConf :=
  { drvMode := if pinfo.pollMode then .poll else .directIntr
    msixQvecMax := u16 card.probe.numMsix
    userMsixQvecMax := pinfo.pciMsixUserCnt.toNat
    dataMsixQvecMax := (onicSetNumQueue pinfo card.probe.numMsix).2
    masterPf := pinfo.pciMasterPf
    mboxIntr := card.mboxIntr }

/-- `qdma_device_online` of a device that was just opened: the result and the vectors. -/
def qdmaDeviceOnline (card : CardEnv) (pinfo : PlatformInfo) : ℤ × VecDev :=
  if pinfo.pollMode then (card.restOnline, {})
  else
    match intrSetup card.build (onicVectorConf card pinfo) card.kernel {} with
    | (rv, dev) =>
      if rv ≠ 0 then (-Open.EINVAL, dev) else (card.restOnline, { dev with flagIrq := true })

/-- What the probe meets. -/
def CardEnv.probeEnv (card : CardEnv) (pinfo : PlatformInfo) : ProbeEnv :=
  { card.probe with
    device := { card.probe.device with online := (qdmaDeviceOnline card pinfo).1 } }

/-- The number of queues that the probe asks for. -/
def askedQueues (card : CardEnv) (pinfo : PlatformInfo) : ℕ :=
  if pinfo.usedQueues.toNat > 0 then pinfo.usedQueues.toNat
  else (onicSetNumQueue pinfo card.probe.numMsix).2

/-- `netdev->real_num_tx_queues` after the probe has set it. -/
def realNumTxQueues (card : CardEnv) (pinfo : PlatformInfo) : ℕ :=
  if card.setRealNumTx then askedQueues card pinfo else pinfo.queueMax.toNat

/-- The subtractions of `onic_set_num_queue` on `unsigned short`, minuend first. -/
def setNumQueueSubtractions (pinfo : PlatformInfo) (numMsix : ℤ) : List (ℕ × ℕ) :=
  if numMsix ≤ 0 then []
  else
    let nbQueues := u16 numMsix
    (nbQueues, pinfo.pciMsixUserCnt.toNat) ::
      if pinfo.pciMasterPf then [(u16 (nbQueues - pinfo.pciMsixUserCnt.toNat), 1)] else []

/-- The network stack: a device has queues, and no number of queues in use is accepted that is 0 or
above that of the device. -/
structure NetStackOk (card : CardEnv) (pinfo : PlatformInfo) : Prop where
  queues : card.probe.netdev = true → 0 < pinfo.queueMax.toNat
  rx : card.probe.setRealNum = true →
    0 < askedQueues card pinfo ∧ askedQueues card pinfo ≤ pinfo.queueMax.toNat
  tx : card.setRealNumTx = true →
    0 < askedQueues card pinfo ∧ askedQueues card pinfo ≤ pinfo.queueMax.toNat

/-- No subtraction has wrapped, the vectors that are set up are among those granted, and the queues
in use are among those that the resource manager has for the function. -/
structure Budgeted (card : CardEnv) (pinfo : PlatformInfo) (s : HostState) : Prop where
  fits : ∀ t ∈ setNumQueueSubtractions pinfo card.probe.numMsix, t.2 ≤ t.1
  vectors : pinfo.pollMode = false → ∀ type, ∀ i ∈ (qdmaDeviceOnline card pinfo).2.vectors type,
    (i : ℤ) < (qdmaDeviceOnline card pinfo).2.numVecs
  queues : ∃ range, obtainedRange (card.probeEnv pinfo) pinfo s = some range ∧
    (0 < realNumRxQueues (card.probeEnv pinfo) pinfo ∧
      realNumRxQueues (card.probeEnv pinfo) pinfo ≤ range.totalQ) ∧
    0 < realNumTxQueues card pinfo ∧ realNumTxQueues card pinfo ≤ range.totalQ

/-- In poll mode there are vectors for the user and for errors. A function that already has an entry
in the resource manager has enough queues there. -/
structure BudgetReady (card : CardEnv) (pinfo : PlatformInfo) (s : HostState) : Prop where
  poll : pinfo.pollMode = true → 0 < card.probe.numMsix →
    pinfo.pciMsixUserCnt.toNat + (if pinfo.pciMasterPf then 1 else 0) ≤ u16 card.probe.numMsix
  entry : ∀ m d, functionMaster (card.probeEnv pinfo) s.rm = some m →
    m.devEntry card.probe.device.funcId = some d →
      realNumRxQueues (card.probeEnv pinfo) pinfo ≤ d.entry.totalQ ∧
        realNumTxQueues card pinfo ≤ d.entry.totalQ

/-! ## Subtractions and vectors -/

section

variable {card : CardEnv} {pinfo : PlatformInfo} {s : HostState}

/-- Nothing wraps if there is a vector for each of the user and one for errors. -/
theorem setNumQueue_fits_iff (pinfo : PlatformInfo) {numMsix : ℤ} (hpos : 0 < numMsix) :
    (∀ t ∈ setNumQueueSubtractions pinfo numMsix, t.2 ≤ t.1) ↔
      pinfo.pciMsixUserCnt.toNat + (if pinfo.pciMasterPf then 1 else 0) ≤ u16 numMsix := by
  have huser := pinfo.pciMsixUserCnt.toNat_lt
  unfold setNumQueueSubtractions
  rw [if_neg (not_le.mpr hpos)]
  cases pinfo.pciMasterPf with
  | false => simp
  | true =>
    simp only [if_true, List.forall_mem_cons, List.not_mem_nil, false_imp_iff, implies_true,
      and_true]
    unfold u16
    omega

/-- A setup in an interrupt mode asks for no more vectors than it may have. -/
theorem intrSetup_requested {build : BuildOptions} {conf : Interrupt.Vectors.DevConf}
    {env : KernelEnv} {dev : VecDev} (h : intrSetup build conf env {} = (0, dev))
    (hmode : conf.drvMode = .directIntr) (hcount : env.msixVecCount ≠ 0) :
    0 < conf.dataMsixQvecMax ∧ numVecsReq build conf ≤ conf.msixQvecMax := by
  have hinval : (-Interrupt.Vectors.EINVAL : ℤ) ≠ 0 := by decide
  unfold intrSetup at h
  rw [if_neg (by rw [hmode]; decide), if_neg hcount] at h
  by_cases hdata : conf.dataMsixQvecMax = 0
  · rw [if_pos hdata] at h
    exact absurd (Prod.mk.inj h).1 hinval
  rw [if_neg hdata] at h
  dsimp only at h
  by_cases hreq : (numVecsReq build conf : ℤ) > min env.msixVecCount conf.msixQvecMax
  · rw [if_pos hreq] at h
    exact absurd (Prod.mk.inj h).1 hinval
  exact ⟨Nat.pos_of_ne_zero hdata, by omega⟩

/-- Vectors that are enough for `intr_setup` are enough for the probe: a number of queues that has
wrapped is greater than that of the vectors. -/
theorem fits_of_requested (hpos : 0 < card.probe.numMsix)
    (h : numVecsReq card.build (onicVectorConf card pinfo) ≤ u16 card.probe.numMsix) :
    pinfo.pciMsixUserCnt.toNat + (if pinfo.pciMasterPf then 1 else 0) ≤
      u16 card.probe.numMsix := by
  have huser := pinfo.pciMsixUserCnt.toNat_lt
  have hreq : pinfo.pciMsixUserCnt.toNat + (onicSetNumQueue pinfo card.probe.numMsix).2 +
      (if pinfo.pciMasterPf then 1 else 0) ≤ u16 card.probe.numMsix :=
    (Nat.le_add_right _ _).trans h
  unfold onicSetNumQueue at hreq
  rw [if_neg (not_le.mpr hpos)] at hreq
  have hlt : u16 card.probe.numMsix < 2 ^ 16 := by
    unfold u16
    omega
  generalize u16 card.probe.numMsix = n at hreq hlt ⊢
  cases hmaster : pinfo.pciMasterPf with
  | false =>
    simp only [hmaster, Bool.false_eq_true, if_false] at hreq ⊢
    unfold u16 at hreq
    omega
  | true =>
    simp only [hmaster, if_true] at hreq ⊢
    unfold u16 at hreq
    omega

/-- A device that is online in interrupt mode has set up its vectors. -/
theorem qdmaDeviceOnline_interrupts (hmode : pinfo.pollMode = false)
    (h : ¬ (qdmaDeviceOnline card pinfo).1 < 0) :
    ∃ dev, intrSetup card.build (onicVectorConf card pinfo) card.kernel {} = (0, dev) ∧
      (qdmaDeviceOnline card pinfo).2 = { dev with flagIrq := true } := by
  unfold qdmaDeviceOnline at h ⊢
  rw [if_neg (by rw [hmode]; decide)] at h ⊢
  cases hsetup : intrSetup card.build (onicVectorConf card pinfo) card.kernel {} with
  | mk rv dev =>
    rw [hsetup] at h
    dsimp only at h ⊢
    by_cases hrv : rv = 0
    · subst hrv
      exact ⟨dev, rfl, by rw [if_neg (not_not.mpr rfl)]⟩
    · rw [if_pos hrv] at h
      exact absurd (show -Open.EINVAL < 0 by decide) h

/-- In interrupt mode `intr_setup` has checked the budget of the probe. -/
theorem interrupts_fit (hmode : pinfo.pollMode = false)
    (h : ¬ (qdmaDeviceOnline card pinfo).1 < 0) (hpos : 0 < card.probe.numMsix) :
    pinfo.pciMsixUserCnt.toNat + (if pinfo.pciMasterPf then 1 else 0) ≤
      u16 card.probe.numMsix := by
  obtain ⟨dev, hsetup, -⟩ := qdmaDeviceOnline_interrupts hmode h
  have hdirect : (onicVectorConf card pinfo).drvMode = .directIntr := by
    simp [onicVectorConf, hmode]
  exact fits_of_requested hpos (intrSetup_requested hsetup hdirect hpos.ne').2

/-- The vectors set up in interrupt mode are among those granted. -/
theorem interrupts_inside (hmode : pinfo.pollMode = false)
    (h : ¬ (qdmaDeviceOnline card pinfo).1 < 0) {type : IntrType} {i : ℕ}
    (hi : i ∈ (qdmaDeviceOnline card pinfo).2.vectors type) :
    (i : ℤ) < (qdmaDeviceOnline card pinfo).2.numVecs := by
  obtain ⟨dev, hsetup, hdev⟩ := qdmaDeviceOnline_interrupts hmode h
  rw [hdev] at hi ⊢
  exact ((rangesOk_of_intrSetup hsetup).inside type i hi).1

/-! ## The opening of the device -/

/-- A device that was opened is online. -/
theorem openMapped_online {env : OpenEnv} {conf : Open.DevConf} {rm rm' : ResourceState} {rv : ℤ}
    (h : openMapped env conf rm = (rv, true, rm')) : ¬ env.online < 0 := by
  unfold openMapped at h
  split at h
  · cases h
  split at h
  · cases h
  split at h
  · cases h
  split at h
  · cases h
  · split at h
    · cases h
    split at h
    · cases h
    · assumption

theorem qdmaDeviceOpen_online {env : OpenEnv} {conf : Open.DevConf}
    (hret : (qdmaDeviceOpen env true (some conf) s).1 = 0)
    (hhndl : (qdmaDeviceOpen env true (some conf) s).2.1 ≠ 0) : ¬ env.online < 0 := by
  rcases qdmaDeviceOpen_cases env true conf s with ⟨-, rv, heq, hneg⟩ | ⟨-, -, heq⟩ |
    ⟨-, -, pdev, heq⟩
  · rw [heq] at hret
    exact absurd hret hneg.ne
  · rw [heq] at hhndl
    exact absurd rfl hhndl
  · cases hmapped : openMapped env conf s.rm with
    | mk rv rest =>
      obtain ⟨ok, rm'⟩ := rest
      rw [heq _ _ _ hmapped] at hhndl
      cases ok with
      | false => exact absurd rfl hhndl
      | true => exact openMapped_online hmapped

/-! ## The queues in use -/

/-- The number of queues of a range that was granted is that of the configuration, or that of the
entry that was there. -/
theorem EntryGranted.totalQ_eq {env : OpenEnv} {conf : Open.DevConf} {m : ResourceMaster}
    {e : ResourceEntry} (h : EntryGranted env conf m e) :
    e.totalQ = ((m.devEntry env.funcId).map fun d => d.entry.totalQ).getD conf.qsetsMax := by
  unfold EntryGranted at h
  cases hd : m.devEntry env.funcId with
  | none =>
    rw [hd] at h
    exact h.1
  | some d =>
    rw [hd] at h
    rcases Nat.eq_zero_or_pos d.entry.totalQ with hzero | hpos
    · exact (h.2 hzero).trans hzero.symm
    · exact (h.1 hpos).1

/-- The queues in use are at least one and at most those of the network device. -/
theorem NetStackOk.realNum (h : NetStackOk card pinfo) (hnetdev : card.probe.netdev = true) :
    (0 < realNumRxQueues (card.probeEnv pinfo) pinfo ∧
      realNumRxQueues (card.probeEnv pinfo) pinfo ≤ pinfo.queueMax.toNat) ∧
    0 < realNumTxQueues card pinfo ∧ realNumTxQueues card pinfo ≤ pinfo.queueMax.toNat := by
  have hmax := h.queues hnetdev
  constructor
  · by_cases hset : card.probe.setRealNum = true
    · have hasked : realNumRxQueues (card.probeEnv pinfo) pinfo = askedQueues card pinfo :=
        if_pos hset
      rw [hasked]
      exact h.rx hset
    · have hold : realNumRxQueues (card.probeEnv pinfo) pinfo = pinfo.queueMax.toNat := if_neg hset
      rw [hold]
      exact ⟨hmax, le_rfl⟩
  · by_cases hset : card.setRealNumTx = true
    · have hasked : realNumTxQueues card pinfo = askedQueues card pinfo := if_pos hset
      rw [hasked]
      exact h.tx hset
    · have hold : realNumTxQueues card pinfo = pinfo.queueMax.toNat := if_neg hset
      rw [hold]
      exact ⟨hmax, le_rfl⟩

/-- A probe that gets as far as the shell keeps within its budgets exactly if it was ready to. -/
theorem probe_budgeted_iff (hrm : Owned s.rm) (hpf : card.probe.device.isVf = false)
    (hstack : NetStackOk card pinfo) {reta : List (ℕ × ℕ)}
    (h : (onicPciProbe (card.probeEnv pinfo) (.ok pinfo) s).reta = some reta) :
    Budgeted card pinfo s ↔ BudgetReady card pinfo s := by
  obtain ⟨hnetdev, hret, hhndl, -⟩ := onicPciProbe_reta h
  have honline : ¬ (qdmaDeviceOnline card pinfo).1 < 0 := qdmaDeviceOpen_online hret hhndl
  have hreal := hstack.realNum hnetdev
  have hmax := hstack.queues hnetdev
  have hphysical : (card.probeEnv pinfo).device.isVf = false := hpf
  obtain ⟨rv, hres⟩ := qdmaDeviceOpen_goesOn hphysical hret hhndl
  obtain ⟨m, e, hmaster, hrange, hgranted⟩ := openResources_granted (card.probeEnv pinfo)
    (onicQdmaDevConf (card.probeEnv pinfo) pinfo) hrm hmax (onicQdmaDevConf_wrap _ pinfo) hres
  have hobtained : obtainedRange (card.probeEnv pinfo) pinfo s = some e := hrange
  have htotal : e.totalQ = ((m.devEntry card.probe.device.funcId).map
      fun d => d.entry.totalQ).getD pinfo.queueMax.toNat := hgranted.totalQ_eq
  constructor
  · intro hbudget
    constructor
    · exact fun _ hpos => (setNumQueue_fits_iff pinfo hpos).mp hbudget.fits
    · intro m' d hm' hd
      rw [hmaster] at hm'
      cases hm'
      obtain ⟨range, hsome, hrx, htx⟩ := hbudget.queues
      rw [hobtained] at hsome
      cases hsome
      rw [hd, Option.map_some, Option.getD_some] at htotal
      rw [← htotal]
      exact ⟨hrx.2, htx.2⟩
  · intro hready
    refine ⟨?_, fun hmode type i hi => interrupts_inside hmode honline hi, e, hobtained, ?_⟩
    · by_cases hpos : 0 < card.probe.numMsix
      · refine (setNumQueue_fits_iff pinfo hpos).mpr ?_
        cases hmode : pinfo.pollMode with
        | true => exact hready.poll hmode hpos
        | false => exact interrupts_fit hmode honline hpos
      · intro t ht
        rw [setNumQueueSubtractions, if_pos (not_lt.mp hpos)] at ht
        exact absurd ht List.not_mem_nil
    · cases hd : m.devEntry card.probe.device.funcId with
      | none =>
        rw [hd, Option.map_none, Option.getD_none] at htotal
        rw [htotal]
        exact hreal
      | some d =>
        rw [hd, Option.map_some, Option.getD_some] at htotal
        obtain ⟨hrx, htx⟩ := hready.entry m d hmaster hd
        rw [htotal]
        exact ⟨⟨hreal.1.1, hrx⟩, hreal.2.1, htx⟩

end

/-! ## Runs -/

/-- A probe, the removal of a device, or a call of the resource manager for another function. -/
inductive CardEvent
  | probe (card : CardEnv) (pinfo : Except ℤ PlatformInfo)
  | remove (pdev hndl dmaDeviceIndex funcId : ℕ) (mem : CallocResults)
  | resource (op : ResourceOp)

/-- What the host sees of an event. -/
def CardEvent.host : CardEvent → HostEvent
  | .probe card (.ok pinfo) => .probe (card.probeEnv pinfo) (.ok pinfo)
  | .probe card (.error ret) => .probe card.probe (.error ret)
  | .remove pdev hndl i f mem => .remove pdev hndl i f mem
  | .resource op => .resource op

/-- The state after an event. -/
def cardStep (s : HostState) (e : CardEvent) : HostState := hostStep s e.host

/-- The functions probed are physical, and the requests for other functions do not wrap. -/
def CardEventOk (s : HostState) : CardEvent → Prop
  | .probe card (.ok pinfo) => card.probe.device.isVf = false ∧ NetStackOk card pinfo
  | .probe card (.error _) => card.probe.device.isVf = false
  | .remove .. => True
  | .resource op => CallSafe s.rm op

/-- A probe that gets as far as registering the interface keeps within its budgets. -/
def EventBudgeted (s : HostState) : CardEvent → Prop
  | .probe card (.ok pinfo) =>
    (onicPciProbe (card.probeEnv pinfo) (.ok pinfo) s).reta ≠ none → Budgeted card pinfo s
  | _ => True

/-- A probe that gets as far as registering the interface was ready for its budgets. -/
def EventBudgetReady (s : HostState) : CardEvent → Prop
  | .probe card (.ok pinfo) =>
    (onicPciProbe (card.probeEnv pinfo) (.ok pinfo) s).reta ≠ none → BudgetReady card pinfo s
  | _ => True

theorem NetStackOk.netdevOk {card : CardEnv} {pinfo : PlatformInfo} (h : NetStackOk card pinfo) :
    NetdevOk (card.probeEnv pinfo) pinfo := by
  refine ⟨h.queues, fun hset => ?_⟩
  have hasked : realNumRxQueues (card.probeEnv pinfo) pinfo = askedQueues card pinfo := if_pos hset
  rw [hasked]
  exact h.rx hset

theorem CardEventOk.host {s : HostState} {e : CardEvent} (h : CardEventOk s e) :
    EventOk s e.host := by
  cases e with
  | probe card pinfo =>
    cases pinfo with
    | error ret => exact h
    | ok pinfo => exact ⟨h.1, h.2.netdevOk⟩
  | remove pdev hndl i f mem => trivial
  | resource op => exact h

theorem eventBudgeted_iff {s : HostState} (hrm : Owned s.rm) {e : CardEvent}
    (hok : CardEventOk s e) : EventBudgeted s e ↔ EventBudgetReady s e := by
  cases e with
  | remove => exact Iff.rfl
  | resource => exact Iff.rfl
  | probe card pinfo =>
    cases pinfo with
    | error ret => exact Iff.rfl
    | ok pinfo =>
      refine forall_congr' fun hregisters => ?_
      obtain ⟨reta, hreta⟩ := Option.ne_none_iff_exists'.mp hregisters
      exact probe_budgeted_iff hrm hok.1 hok.2 hreta

/-- Over any run of probes and other calls from a resource manager whose functions do not share
queues, every probe that gets as far as registering the interface keeps within its budgets exactly
if in poll mode it has a vector for each of the user and one for errors, and a function with an
entry in the resource manager has enough queues there. -/
theorem cardRun_budgeted_iff {s : HostState} (hrm : Owned s.rm) {es : List CardEvent}
    (hes : Admitted cardStep CardEventOk s es) :
    Admitted cardStep EventBudgeted s es ↔ Admitted cardStep EventBudgetReady s es :=
  hes.congr (I := fun s => Owned s.rm) (fun _ e hs hok _ => Owned.hostStep hs e.host hok.host)
    (fun _ _ hs hok => eventBudgeted_iff hs hok) hrm

/-- A probe of a function with this number of vectors that meets no error. -/
def plainCard (numMsix : ℤ) : CardEnv :=
  { probe := { pdev := 0, numMsix := numMsix, device := {} } }

/-- A file with two vectors for the user and one for errors, in interrupt or in poll mode. -/
def userFile (pollMode : Bool) : PlatformInfo :=
  { queueMax := 64, usedQueues := 4, pciMsixUserCnt := 2, pciMasterPf := true
    pollMode := pollMode }

theorem userFile_stack (numMsix : ℤ) (pollMode : Bool) :
    NetStackOk (plainCard numMsix) (userFile pollMode) := by
  have hasked : askedQueues (plainCard numMsix) (userFile pollMode) = 4 := rfl
  have hmax : (userFile pollMode).queueMax.toNat = 64 := rfl
  refine ⟨fun _ => by omega, fun _ => ?_, fun _ => ?_⟩
  · rw [hasked, hmax]
    omega
  · rw [hasked, hmax]
    omega

/-- Nine vectors are enough in interrupt mode: six of them are for queues. -/
theorem nineVectors_budgeted : Admitted cardStep EventBudgeted {}
    [.probe (plainCard 9) (.ok (userFile false))] := by
  have hok : Admitted cardStep CardEventOk {} [.probe (plainCard 9) (.ok (userFile false))] :=
    ⟨⟨rfl, userFile_stack 9 false⟩, trivial⟩
  refine (cardRun_budgeted_iff (s := {}) (by simp [Owned]) hok).mpr ⟨fun _ => ⟨?_, ?_⟩, trivial⟩
  · intro hpoll
    cases hpoll
  · intro m d hm hd
    cases hm
    cases hd

/-- With one vector in poll mode `1 - 2` wraps, and the probe succeeds with vectors for 65534
queues. -/
theorem oneVector_wraps :
    CardEventOk {} (.probe (plainCard 1) (.ok (userFile true))) ∧
      (onicPciProbe ((plainCard 1).probeEnv (userFile true)) (.ok (userFile true)) {}).ret = 0 ∧
      (1, 2) ∈ setNumQueueSubtractions (userFile true) 1 ∧
      (onicSetNumQueue (userFile true) 1).2 = 65534 ∧
      ¬ Admitted cardStep EventBudgeted {} [.probe (plainCard 1) (.ok (userFile true))] := by
  have hwrites := onicPciProbe_writes ((plainCard 1).probeEnv (userFile true)) (userFile true) {}
    rfl (by decide) rfl (by decide) rfl rfl
  refine ⟨⟨rfl, userFile_stack 1 true⟩, by decide, by decide, by decide, ?_⟩
  rintro ⟨hbudget, -⟩
  have hregisters : (onicPciProbe ((plainCard 1).probeEnv (userFile true))
      (.ok (userFile true)) {}).reta ≠ none := by
    rw [hwrites]
    exact Option.some_ne_none _
  have hfits := (hbudget hregisters).fits (1, 2) (by decide)
  exact absurd hfits (by decide)

end OnicDriver.Shell
