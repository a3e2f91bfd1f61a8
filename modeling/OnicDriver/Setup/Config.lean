import OnicDriver.Mailbox.Handler
import OnicDriver.Queue.Descq

/-!
# Queue configurations

The configuration that a client passes to `qdma_queue_add`, the checks made on
it, and the descriptor queue configured from it with the tables of the device.
-/

namespace OnicDriver.Setup

open Lib Access Mailbox Queue

def DESC_SZ_8B : Fin 4 := 0
def DESC_SZ_16B : Fin 4 := 1
def DESC_SZ_32B : Fin 4 := 2
def DESC_SZ_64B : Fin 4 := 3

def TRIG_MODE_DISABLE : Fin 8 := 0
def TRIG_MODE_COMBO : Fin 8 := 5

/-- The first entry of a table of the global CSRs. -/
def CSR_FIRST : Fin 16 := 0

/-- `enum qdma_ip_type`. -/
inductive IpType
  | versalHardIp
  | versalSoftIp
  | softIp
  | eqdmaSoftIp
  | noneIp
  deriving DecidableEq, Repr

/-- `struct qdma_queue_conf`, the fields that reach the hardware contexts. -/
structure QdmaQueueConf where
  st : Bool := false
  qType : QType := .h2c
  irqEn : Bool := false
  descRngSzIdx : Fin 16 := CSR_FIRST
  wbStatusEn : Bool := false
  cmplStatusAccEn : Bool := false
  cmplStatusPendChk : Bool := false
  descBypass : Bool := false
  pfetchEn : Bool := false
  fetchCredit : Bool := false
  c2hBufSzIdx : Fin 16 := CSR_FIRST
  cmplRngSzIdx : Fin 16 := CSR_FIRST
  cmplDescSz : Fin 4 := DESC_SZ_8B
  cmplStatEn : Bool := false
  cmplTimerIdx : Fin 16 := CSR_FIRST
  cmplCntThIdx : Fin 16 := CSR_FIRST
  cmplTrigMode : Fin 8 := TRIG_MODE_DISABLE
  cmplEnIntr : Bool := false
  swDescSz : Fin 4 := DESC_SZ_8B
  pfetchBypass : Bool := false
  cmplOvfChkDis : Bool := false
  at_ : Bool := false
  adaptiveRx : Bool := false
  mmChannel : Bool := false
  deriving DecidableEq, Repr

namespace QdmaQueueConf

variable (conf : QdmaQueueConf)

/-- The queue has a prefetch context. -/
def stC2h : Bool := conf.st && conf.qType == .c2h

/-- The queue has a completion context. -/
def withCmpt : Bool := conf.stC2h || (!conf.st && conf.qType == .cmpt)

/-- The queue is of 64 byte descriptors that bypass the engine. -/
def bypass64 : Bool := conf.descBypass && conf.swDescSz == DESC_SZ_64B

end QdmaQueueConf

/-- `qdma_validate_qconfig`. -/
def qdmaValidateQconfig (ipType : IpType) (conf : QdmaQueueConf) : Bool :=
  decide (conf.cmplTrigMode ≤ TRIG_MODE_COMBO) &&
    (ipType != .versalHardIp ||
      (conf.cmplDescSz != DESC_SZ_64B && conf.swDescSz != DESC_SZ_64B &&
        conf.cmplTrigMode != TRIG_MODE_COMBO))

/-- The checks of `qdma_queue_add` on a configuration. The remaining ones are about free queues
and handles. -/
def qdmaQueueAddAccepts (attributes : DevAttributes) (ipType : IpType) (conf : QdmaQueueConf) :
    Bool :=
  !(conf.st && conf.qType == .cmpt) && (conf.qType != .cmpt || attributes.mmCmptEn) &&
    (if conf.st then attributes.stEn else attributes.mmEn) && qdmaValidateQconfig ipType conf

/-- `struct global_csr_conf`. -/
structure GlobalCsrConf where
  ringSz : ℕ → ℕ
  c2hTimerCnt : ℕ → ℕ
  c2hCntTh : ℕ → ℕ
  c2hBufSz : ℕ → ℕ

/-- `struct xlnx_dma_dev`, as far as the contexts of a queue depend on it. -/
structure XlnxDmaDev where
  drvMode : DrvMode
  funcId : ℕ
  dvecStartIdx : ℤ
  csrInfo : GlobalCsrConf
  funcId_lt : funcId < 2 ^ 8

/-- `struct qdma_descq`, as far as the contexts depend on it. -/
structure Descq where
  conf : QdmaQueueConf
  rngsz : ℕ := 0
  rngszCmpt : ℕ := 0
  c2hBufsz : ℕ := 0
  channel : ℕ := 0
  intrId : ℕ := 0
  qidxHw : ℕ := 0
  descBus : ℕ := 0
  descCmptBus : ℕ := 0

/-- The index of the smallest ring larger than `v` entries, found by `qdma_descq_config_complete`
with one pass over the table. -/
def bestFitIdx (ringSz : ℕ → ℕ) (v : ℕ) : Option (Fin 16) :=
  (List.finRange 16).foldl
    (fun (best : Option (Fin 16)) (i : Fin 16) =>
      if v < ringSz i then
        match best with
        | none => some i
        | some b => if ringSz i < ringSz b then some i else best
      else best)
    none

/-- The completion ring that a configuration gets: a larger one than it asks for if there is
one. -/
def cmplRngIdx (ringSz : ℕ → ℕ) (conf : QdmaQueueConf) : Fin 16 :=
  (bestFitIdx ringSz (ringSz conf.cmplRngSzIdx)).getD conf.cmplRngSzIdx

/-- The part of `qdma_descq_config_complete` that the contexts depend on. -/
def qdmaDescqConfigComplete (csr : GlobalCsrConf) (descq : Descq) : Descq :=
  let descq := { descq with rngsz := u32 (csr.ringSz descq.conf.descRngSzIdx - 1) }
  if descq.conf.withCmpt then
    let idx := cmplRngIdx csr.ringSz descq.conf
    { descq with
      conf := { descq.conf with cmplRngSzIdx := idx }
      rngszCmpt := u32 (csr.ringSz idx - 1)
      c2hBufsz := csr.c2hBufSz descq.conf.c2hBufSzIdx }
  else descq

/-- The resources that a function has for a queue when it starts it. -/
structure QueueResources where
  qidxHw : ℕ
  intrId : ℕ
  descBus : ℕ
  descCmptBus : ℕ
  qidxHw_lt : qidxHw < 2 ^ 16
  descBus_lt : descBus < 2 ^ 64
  descCmptBus_lt : descCmptBus < 2 ^ 64

/-- `qdma_descq_config` of a queue that is added: the channel stays 0. -/
def qdmaDescqConfig (conf : QdmaQueueConf) (res : QueueResources) : Descq :=
  { conf := conf, qidxHw := res.qidxHw, intrId := res.intrId, descBus := res.descBus
    descCmptBus := res.descCmptBus }

/-- `qdma_descq_config` of a queue that is configured again. -/
def qdmaDescqReconfig (drvMode : DrvMode) (ipType : IpType) (conf : QdmaQueueConf)
    (descq : Descq) : Descq :=
  let irqEn := drvMode != .poll
  { descq with
    channel := if ipType = .versalHardIp then conf.mmChannel.toNat else descq.channel
    conf := { conf with
      st := descq.conf.st, qType := descq.conf.qType, at_ := descq.conf.at_
      mmChannel := descq.conf.mmChannel, irqEn := irqEn, cmplEnIntr := irqEn } }

/-! ## Tables -/

/-- `qdma_csr_read` of the PF on a device whose tables can be read. -/
def pfCsrInfo (env : HwEnv) : GlobalCsrConf where
  ringSz := env.csr .ringSz
  c2hTimerCnt := env.csr .timerCnt
  c2hCntTh := env.csr .cntTh
  c2hBufSz := env.csr .bufSz

/-- `qdma_csr_read` of the VF from the response of the PF. What is not in the response is 0. -/
def vfCsrInfo (body : RespBody) : GlobalCsrConf :=
  match body with
  | .csr ringsz (some (bufsz, timerCnt, cntThres)) =>
    { ringSz := fun i => ringsz.getD i 0, c2hTimerCnt := fun i => timerCnt.getD i 0
      c2hCntTh := fun i => cntThres.getD i 0, c2hBufSz := fun i => bufsz.getD i 0 }
  | .csr ringsz none =>
    { ringSz := fun i => ringsz.getD i 0, c2hTimerCnt := fun _ => 0, c2hCntTh := fun _ => 0
      c2hBufSz := fun _ => 0 }
  | _ =>
    { ringSz := fun _ => 0, c2hTimerCnt := fun _ => 0, c2hCntTh := fun _ => 0
      c2hBufSz := fun _ => 0 }

end OnicDriver.Setup
