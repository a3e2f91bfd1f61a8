import Mathlib.Data.UInt
import OnicDriver.Kernel
import OnicDriver.Lib.Loops
import OnicDriver.Lifecycle.Device

/-!
# An interface that goes up and down

`onic_open` obtains the counters and the NAPI instances of the interface and
adds and starts its queues; `onic_stop` takes all of it apart. What fails on
the way up is unwound by four functions, each over the part it has set up.
-/

namespace OnicDriver.Netdev

open Lib Queue Setup Lifecycle

/-- `struct onic_priv` and its net device, what the probe has set. -/
structure OnicConf where
  realNumRxQueues : ℕ
  realNumTxQueues : ℕ
  pollMode : Bool := false
  rxTimerIdx : Fin 16 := CSR_FIRST
  rxCntThIdx : Fin 16 := CSR_FIRST
  cmplRngSzIdx : Fin 16 := CSR_FIRST
  rxDescRngSzIdx : Fin 16 := CSR_FIRST
  rxBufSzIdx : Fin 16 := CSR_FIRST
  txDescRngSzIdx : Fin 16 := CSR_FIRST

/-- `struct rtnl_link_stats64`, the counters that the driver keeps. -/
@[ext]
structure LinkStats where
  rxPackets : UInt64 := 0
  rxBytes : UInt64 := 0
  txPackets : UInt64 := 0
  txBytes : UInt64 := 0
  txDropped : UInt64 := 0
  deriving DecidableEq, Repr

/-- A pointer to one of the counters in a block of memory. The null pointer has block 0. -/
structure StatsPtr where
  block : ℕ := 0
  entry : ℕ := 0
  deriving DecidableEq, Repr

/-- A NAPI instance: not known to the network stack, added to the device, enabled, or scheduled. -/
inductive NapiState
  | absent
  | added
  | enabled
  | scheduled
  deriving DecidableEq, Repr

/-- `struct onic_priv` and its net device: the device with the queues, the memory of the interface
itself with the contents of the counters and the NAPI instances, the handles of the first queues,
and what the network stack is told. -/
structure Onic where
  dev : Device
  mem : Memory := {}
  napi : ℕ := 0
  instances : ℕ → NapiState := fun _ => .absent
  txQstats : StatsPtr := {}
  rxQstats : StatsPtr := {}
  qstats : ℕ → LinkStats := fun _ => {}
  baseRxQHandle : ℕ := 0
  baseTxQHandle : ℕ := 0
  txStarted : Bool := false
  carrierOk : Bool := false

/-- What decides on the way up: whether the counters and the NAPI instances get their memory, what
the additions of the queues meet, and what the programming of their contexts returns. -/
structure OpenEnv where
  stats : Bool := true
  napi : Bool := true
  addRx : ℕ → AddEnv := fun _ => {}
  addTx : ℕ → AddEnv := fun _ => {}
  ctxtRx : ℕ → ℤ := fun _ => 0
  ctxtTx : ℕ → ℤ := fun _ => 0

/-! ## NAPI -/

/-- A call for the instance `q` of the array, which must be in the right state for it. -/
def Onic.setInstance (ok : NapiState → Bool) (new : NapiState) (s : Onic) (q : ℕ) : Onic :=
  let mem := s.mem.use (Thing.isAt s.napi)
  if ok (s.instances q) then { s with mem := mem, instances := Function.update s.instances q new }
  else { s with mem := mem.fault }

/-- `netif_napi_add`. -/
def netifNapiAdd : Onic → ℕ → Onic := Onic.setInstance (· == .absent) .added

/-- `napi_enable`. -/
def napiEnable : Onic → ℕ → Onic := Onic.setInstance (· == .added) .enabled

/-- `napi_schedule`. -/
def napiSchedule : Onic → ℕ → Onic := Onic.setInstance (· == .enabled) .scheduled

/-- `napi_disable`, which waits for a poll that is scheduled. -/
def napiDisable : Onic → ℕ → Onic :=
  Onic.setInstance (fun st => st == .enabled || st == .scheduled) .added

/-- `netif_napi_del`. -/
def netifNapiDel : Onic → ℕ → Onic := Onic.setInstance (· == .added) .absent

section

variable (x : Xdev) (grant : Grant) (conf : OnicConf)

/-! ## Queues -/

/-- The configuration of the receive queue `q_no` in `onic_qdma_rx_queue_add`. -/
def rxQconf (qNo : ℕ) : ClientConf where
  conf :=
    { st := true
      qType := .c2h
      irqEn := false
      pfetchEn := true
      fetchCredit := true
      cmplStatEn := true
      cmplDescSz := DESC_SZ_8B
      cmplRngSzIdx := conf.cmplRngSzIdx
      descRngSzIdx := conf.rxDescRngSzIdx
      c2hBufSzIdx := conf.rxBufSzIdx
      cmplTimerIdx := conf.rxTimerIdx
      cmplCntThIdx := conf.rxCntThIdx
      cmplTrigMode := TRIG_MODE_COMBO
      cmplEnIntr := !conf.pollMode }
  qidx := qNo

/-- The configuration of the transmit queue `q_no` in `onic_qdma_tx_queue_setup`. -/
def txQconf (qNo : ℕ) : ClientConf where
  conf :=
    { st := true
      qType := .h2c
      irqEn := !conf.pollMode
      wbStatusEn := true
      cmplStatEn := true
      cmplStatusAccEn := true
      cmplStatusPendChk := true
      descRngSzIdx := conf.txDescRngSzIdx }
  qidx := qNo

/-- `onic_qdma_rx_queue_add`. -/
def onicQdmaRxQueueAdd (env : OpenEnv) (s : Onic) (qNo : ℕ) : ℤ × Onic :=
  let (ret, qHandle, dev) := qdmaQueueAdd x s.dev (rxQconf conf qNo) (env.addRx qNo)
  let s := { s with dev := dev }
  if ret ≠ 0 then (ret, s)
  else (0, { s with baseRxQHandle := if qNo = 0 then qHandle else s.baseRxQHandle })

/-- The body of the loop of `onic_qdma_tx_queue_setup`. -/
def txQueueAdd (env : OpenEnv) (s : Onic) (qNo : ℕ) : ℤ × Onic :=
  let (ret, qHandle, dev) := qdmaQueueAdd x s.dev (txQconf conf qNo) (env.addTx qNo)
  let s := { s with dev := dev }
  if ret ≠ 0 then (ret, s)
  else (0, { s with baseTxQHandle := if qNo = 0 then qHandle else s.baseTxQHandle })

/-- A queue is removed. A PF asks nobody, and the result is only printed. -/
def queueRemove (s : Onic) (qHandle : ℕ) : Onic :=
  { s with dev := (qdmaQueueRemove x s.dev qHandle fun _ => .answered).2 }

/-- A queue is stopped. The results of the queues together are that of the loop. -/
def queueStop (s : Onic) (qHandle : ℕ) : ℤ × Onic :=
  let (ret, dev) := qdmaQueueStop x s.dev qHandle
  (ret, { s with dev := dev })

/-- `onic_qdma_rx_queue_release`. -/
def onicQdmaRxQueueRelease (numQueues : ℕ) (s : Onic) : Onic :=
  let s := (List.range numQueues).foldl
    (fun s qNo => netifNapiDel (queueRemove x s (s.baseRxQHandle + qNo)) qNo) s
  { s with mem := kfree s.napi s.mem }

/-- `onic_qdma_tx_queue_release`. -/
def onicQdmaTxQueueRelease (numQueues : ℕ) (s : Onic) : Onic :=
  (List.range numQueues).foldl (fun s qNo => queueRemove x s (s.baseTxQHandle + qNo)) s

/-- The body of the loop of `onic_qdma_rx_queue_setup`. -/
def rxQueueSetup (env : OpenEnv) (s : Onic) (qNo : ℕ) : ℤ × Onic :=
  let (ret, s) := onicQdmaRxQueueAdd x conf env s qNo
  if ret ≠ 0 then (ret, s) else (0, netifNapiAdd s qNo)

/-- `onic_qdma_rx_queue_setup`. -/
def onicQdmaRxQueueSetup (env : OpenEnv) (s : Onic) : ℤ × Onic :=
  let (napi, mem) := s.mem.acquire (fun _ => env.napi) .slab
  let s := { s with napi := napi, mem := mem }
  if napi = 0 then (-ENOMEM, s)
  else
    let s := { s with instances := fun _ => .absent }
    let (ret, qNo, s) := untilFailure (rxQueueSetup x conf env) conf.realNumRxQueues 0 s
    if ret ≠ 0 then (ret, onicQdmaRxQueueRelease x qNo s) else (0, s)

/-- `onic_qdma_tx_queue_setup`. -/
def onicQdmaTxQueueSetup (env : OpenEnv) (s : Onic) : ℤ × Onic :=
  let (ret, qNo, s) := untilFailure (txQueueAdd x conf env) conf.realNumTxQueues 0 s
  if ret ≠ 0 then (ret, onicQdmaTxQueueRelease x qNo s) else (0, s)

/-- One of the loops of `onic_qdma_stop`, over queues from a handle on. -/
def stopQueues (base num : ℕ) (r : ℤ × Onic) : ℤ × Onic :=
  (List.range num).foldl
    (fun r q =>
      let (ret, s) := queueStop x r.2 (base + q)
      (if ret < 0 then -EINVAL else r.1, s))
    r

/-- `onic_qdma_stop`. -/
def onicQdmaStop (txq rxq : ℕ) (s : Onic) : ℤ × Onic :=
  let r := stopQueues x s.baseRxQHandle rxq (0, s)
  stopQueues x r.2.baseTxQHandle txq r

/-- The body of the loops of `onic_qdma_start`. -/
def queueStart (base : ℕ) (ctxt : ℕ → ℤ) (s : Onic) (qNo : ℕ) : ℤ × Onic :=
  let (ret, dev) := qdmaQueueStart x grant s.dev (base + qNo) (ctxt qNo)
  (ret, { s with dev := dev })

/-- `onic_qdma_start`. -/
def onicQdmaStart (env : OpenEnv) (s : Onic) : ℤ × Onic :=
  let (ret, qNo, s) :=
    untilFailure (queueStart x grant s.baseRxQHandle env.ctxtRx) conf.realNumRxQueues 0 s
  if ret ≠ 0 then (ret, (onicQdmaStop x 0 qNo s).2)
  else
    let (ret, qNo, s) :=
      untilFailure (queueStart x grant s.baseTxQHandle env.ctxtTx) conf.realNumTxQueues 0 s
    if ret ≠ 0 then (ret, (onicQdmaStop x qNo conf.realNumRxQueues s).2)
    else (0, s)

/-! ## Up and down -/

/-- `onic_stats_alloc`: the counters of the receive queues lie behind those of the transmit
queues. -/
def onicStatsAlloc (env : OpenEnv) (s : Onic) : ℤ × Onic :=
  let (block, mem) := s.mem.acquire (fun _ => env.stats) .slab
  let s := { s with txQstats := { block := block }, mem := mem }
  if block = 0 then (-ENOMEM, s)
  else (0, { s with rxQstats := { block := block, entry := conf.realNumTxQueues },
                    qstats := fun _ => {} })

/-- The end of `onic_open`: the instances are enabled, and the network stack may transmit. -/
def openDone (s : Onic) : Onic :=
  let s := (List.range conf.realNumRxQueues).foldl napiEnable s
  let s := if conf.pollMode then (List.range conf.realNumRxQueues).foldl napiSchedule s else s
  { s with txStarted := true, carrierOk := true }

/-- How far `onic_open` gets: the function that fails, or its end. -/
inductive OpenStage
  | statsAlloc
  | rxQueueSetup
  | txQueueSetup
  | start
  | done
  deriving DecidableEq, Repr

/-- `onic_open`, with how far it gets. Only the failure of the receive queues frees the counters. -/
def onicOpen (env : OpenEnv) (s : Onic) : ℤ × OpenStage × Onic :=
  let (ret, s) := onicStatsAlloc conf env s
  if ret ≠ 0 then (ret, .statsAlloc, s)
  else
    let (ret, s) := onicQdmaRxQueueSetup x conf env s
    if ret ≠ 0 then (ret, .rxQueueSetup, { s with mem := kfree s.txQstats.block s.mem })
    else
      let (ret, s) := onicQdmaTxQueueSetup x conf env s
      if ret ≠ 0 then
        (ret, .txQueueSetup, onicQdmaRxQueueRelease x conf.realNumRxQueues s)
      else
        let (ret, s) := onicQdmaStart x grant conf env s
        if ret ≠ 0 then
          (ret, .start, onicQdmaRxQueueRelease x conf.realNumRxQueues
            (onicQdmaTxQueueRelease x conf.realNumTxQueues s))
        else (0, .done, openDone conf s)

/-- `onic_stop`. -/
def onicStop (s : Onic) : ℤ × Onic :=
  let s := { s with txStarted := false, carrierOk := false }
  let s := (List.range conf.realNumRxQueues).foldl napiDisable s
  let (ret, s) := onicQdmaStop x conf.realNumTxQueues conf.realNumRxQueues s
  let s := onicQdmaRxQueueRelease x conf.realNumRxQueues s
  let s := onicQdmaTxQueueRelease x conf.realNumTxQueues s
  (ret, { s with mem := kfree s.txQstats.block s.mem })

end

/-! ## Counters -/

/-- An entry of the counters is accessed through a pointer. -/
def Onic.useStats (s : Onic) (p : StatsPtr) : Onic :=
  { s with mem := s.mem.use (Thing.isAt p.block) }

/-- The counters of the queue `q` behind a pointer. -/
def Onic.statsAt (s : Onic) (p : StatsPtr) (q : ℕ) : LinkStats := s.qstats (p.entry + q)

/-- The counters of the queue `q` behind a pointer are changed. -/
def Onic.countAt (s : Onic) (p : StatsPtr) (q : ℕ) (f : LinkStats → LinkStats) : Onic :=
  let s := s.useStats p
  { s with qstats := Function.update s.qstats (p.entry + q) (f (s.statsAt p q)) }

/-- One of the loops of `onic_get_stats64`. -/
def addStats (num : ℕ) (p : StatsPtr) (add : LinkStats → LinkStats → LinkStats)
    (r : LinkStats × Onic) : LinkStats × Onic :=
  (List.range num).foldl (fun r q => (add r.1 (r.2.statsAt p q), r.2.useStats p)) r

/-- `onic_get_stats64`. The packets that were dropped are not reported. -/
def onicGetStats64 (conf : OnicConf) (s : Onic) (stats : LinkStats) : LinkStats × Onic :=
  if s.txQstats.block ≠ 0 ∧ s.rxQstats.block ≠ 0 then
    let r := addStats conf.realNumTxQueues s.txQstats
      (fun stats q => { stats with
        txBytes := stats.txBytes + q.txBytes, txPackets := stats.txPackets + q.txPackets })
      (stats, s)
    addStats conf.realNumRxQueues s.rxQstats
      (fun stats q => { stats with
        rxBytes := stats.rxBytes + q.rxBytes, rxPackets := stats.rxPackets + q.rxPackets })
      r
  else (stats, s)

/-- A packet that `onic_rx_pkt_process` was called for is counted, delivered or not. -/
def countReceived (qhndl : ℕ) (len : ℕ) (s : Onic) : Onic :=
  s.countAt s.rxQstats (qhndl - s.baseRxQHandle) fun q =>
    { q with rxPackets := q.rxPackets + 1, rxBytes := q.rxBytes + UInt64.ofNat len }

/-- A packet that `onic_start_xmit` has given to the queue `q_id` is counted. -/
def countSent (qId len : ℕ) (s : Onic) : Onic :=
  s.countAt s.txQstats qId fun q =>
    { q with txPackets := q.txPackets + 1, txBytes := q.txBytes + UInt64.ofNat len }

/-- A packet that `onic_start_xmit` could not give to the queue `q_id` is counted. -/
def countDropped (qId : ℕ) (s : Onic) : Onic :=
  s.countAt s.txQstats qId fun q => { q with txDropped := q.txDropped + 1 }

end OnicDriver.Netdev
