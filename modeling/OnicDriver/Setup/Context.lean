import OnicDriver.Mailbox.Wire
import OnicDriver.Setup.Config

/-!
# Programming queue contexts

The contexts that the PF makes for its own queues, and the message from which
it makes those of a queue of a VF.
-/

namespace OnicDriver.Setup

open Lib Access Mailbox Resource Queue

/-- Conversion to a 16-bit unsigned integer. -/
def u16 (x : ℤ) : ℕ := (x % 2 ^ 16).toNat

/-- `get_intr_ring_index`. -/
def getIntrRingIndex (xdev : XlnxDmaDev) (vectorIndex : ℕ) : ℤ :=
  s32 (vectorIndex - xdev.dvecStartIdx + xdev.funcId * QDMA_NUM_DATA_VEC_FOR_INTR_CXT)

/-- Interrupts go through the rings of the device. -/
def XlnxDmaDev.aggregates (xdev : XlnxDmaDev) : Bool :=
  xdev.drvMode == .indirectIntr || xdev.drvMode == .auto

/-- The vector of a queue, or its interrupt ring. -/
def intrVec (xdev : XlnxDmaDev) (descq : Descq) : ℤ :=
  if xdev.aggregates then getIntrRingIndex xdev descq.intrId else descq.intrId

section

variable (xdev : XlnxDmaDev) (descq : Descq)

/-! ## The PF -/

/-- `make_sw_context`. -/
def makeSwContext : DescqSwCtxt :=
  let conf := descq.conf
  let sw : DescqSwCtxt :=
    { vec := u16 (intrVec xdev descq), intrAggr := xdev.aggregates.toNat
      ringBsAddr := descq.descBus, wbiChk := conf.cmplStatusPendChk.toNat
      wbiIntvlEn := conf.cmplStatusAccEn.toNat, rngszIdx := conf.descRngSzIdx
      bypass := conf.descBypass.toNat, wbkEn := conf.wbStatusEn.toNat
      irqEn := conf.irqEn.toNat, isMm := notByte conf.st, qen := 1 }
  let sw :=
    if conf.bypass64 then { sw with descSz := conf.swDescSz.val }
    else if !conf.st then { sw with descSz := DESC_SZ_32B.val, mmChn := descq.channel }
    else if conf.qType = .c2h then
      { sw with frcdEn := conf.fetchCredit.toNat, descSz := DESC_SZ_8B.val }
    else if conf.qType = .h2c then
      { sw with frcdEn := conf.fetchCredit.toNat, descSz := DESC_SZ_16B.val }
    else { sw with descSz := DESC_SZ_16B.val }
  let sw := { sw with fncId := xdev.funcId % 2 ^ 8, irqArm := conf.irqEn.toNat }
  let sw :=
    if conf.stC2h then { sw with irqEn := 0, irqArm := 0, wbkEn := 0, wbiChk := 0 } else sw
  if !conf.descBypass && (!conf.st || conf.qType == .h2c) then { sw with mrkrDis := 1 } else sw

/-- `make_qid2vec_context`. -/
def makeQid2vecContext : Qid2vec :=
  let vec := (intrVec xdev descq % 2 ^ 8).toNat
  if descq.conf.qType = .c2h then { c2hEnCoal := xdev.aggregates.toNat, c2hVector := vec }
  else if descq.conf.qType = .h2c then { h2cEnCoal := xdev.aggregates.toNat, h2cVector := vec }
  else {}

/-- `make_prefetch_context`. -/
def makePrefetchContext : DescqPrefetchCtxt :=
  { valid := 1, bypass := descq.conf.pfetchBypass.toNat, bufszIdx := descq.conf.c2hBufSzIdx
    pfchEn := descq.conf.pfetchEn.toNat }

/-- `make_cmpt_context`. -/
def makeCmptContext : DescqCmptCtxt :=
  let conf := descq.conf
  { enStatDesc := conf.cmplStatEn.toNat, enInt := conf.cmplEnIntr.toNat
    trigMode := conf.cmplTrigMode, fncId := xdev.funcId % 2 ^ 8, timerIdx := conf.cmplTimerIdx
    counterIdx := conf.cmplCntThIdx, color := 1, ringszIdx := conf.cmplRngSzIdx
    bsAddr := descq.descCmptBus, descSz := conf.cmplDescSz, fullUpd := conf.adaptiveRx.toNat
    valid := 1, ovfChkDis := conf.cmplOvfChkDis.toNat, vec := u16 (intrVec xdev descq)
    intAggr := xdev.aggregates.toNat }

/-- The accesses of `qdma_descq_context_clear` that clears. -/
def contextClears (conf : QdmaQueueConf) (qidHw : ℕ) : List HwAccess :=
  let c2h := conf.qType == .c2h
  (if conf.qType = .cmpt then []
    else
      [.swCtx c2h qidHw .clear, .hwCtx c2h qidHw .clear, .creditCtx c2h qidHw .clear] ++
        if conf.stC2h then [.pfetchCtx qidHw .clear] else []) ++
    if conf.withCmpt then [.cmptCtx qidHw .clear] else []

/-- `qdma_descq_context_setup` of the PF with `qdma_descq_context_program`. A failure to write
the `qid2vec` context is ignored. -/
def pfDescqContextSetup (env : HwEnv) (log : HwLog) : ℤ × HwLog :=
  let conf := descq.conf
  let c2h := conf.qType == .c2h
  let qidHw := descq.qidxHw
  unlessFailed (performAll env (contextClears conf qidHw) log) fun log =>
    unlessFailed
        (if conf.qType = .cmpt then (QDMA_SUCCESS, log)
        else perform env (.swCtx c2h qidHw (.write (makeSwContext xdev descq))) log)
        fun log =>
      let log :=
        if conf.qType ≠ .cmpt ∧ env.attributes.qid2vecCtx ∧ xdev.drvMode ≠ .poll then
          (perform env (.qid2vec c2h qidHw (.write (makeQid2vecContext xdev descq))) log).2
        else log
      performAll env
        ((if conf.stC2h then [.pfetchCtx qidHw (.write (makePrefetchContext descq))] else []) ++
          if conf.withCmpt then [.cmptCtx qidHw (.write (makeCmptContext xdev descq))] else [])
        log

/-! ## The VF -/

/-- The configuration that `qdma_descq_context_setup` of the VF puts into its message. The
fields are as wide as the bit-fields of the message. -/
def mboxDescqConfOf : MboxDescqConf :=
  let conf := descq.conf
  let descSz : ℕ × ℕ :=
    if conf.bypass64 then (conf.swDescSz, 0)
    else if conf.qType = .cmpt then (0, 0)
    else if !conf.st then (DESC_SZ_32B.val, 0)
    else if conf.qType = .c2h then (DESC_SZ_8B.val, conf.fetchCredit.toNat)
    else (DESC_SZ_16B.val, 0)
  { ringBsAddr := descq.descBus, cmptRingBsAddr := descq.descCmptBus
    enBypass := conf.descBypass.toNat, irqArm := conf.irqEn.toNat
    wbiIntvlEn := conf.cmplStatusAccEn.toNat, wbiChk := conf.cmplStatusPendChk.toNat
    at_ := conf.at_.toNat, wbkEn := conf.wbStatusEn.toNat, irqEn := conf.irqEn.toNat
    pfchEn := conf.pfetchEn.toNat, enBypassPrefetch := conf.pfetchBypass.toNat
    disOverflowCheck := conf.cmplOvfChkDis.toNat, cmptIntEn := conf.cmplEnIntr.toNat
    cmplStatEn := conf.cmplStatEn.toNat, descSz := descSz.1, forcedEn := descSz.2
    cmptDescSz := conf.cmplDescSz, triggermode := conf.cmplTrigMode, cmptAt := conf.at_.toNat
    cmptColor := 1, cmptFullUpd := 0, funcId := xdev.funcId % 2 ^ 16
    cntThres := xdev.csrInfo.c2hCntTh conf.cmplCntThIdx % 2 ^ 8
    timerThres := xdev.csrInfo.c2hTimerCnt conf.cmplTimerIdx % 2 ^ 8
    ringsz := descq.rngsz % 2 ^ 16, bufsz := descq.c2hBufsz % 2 ^ 16
    cmptRingsz := descq.rngszCmpt % 2 ^ 16
    -- a ring index is cut to 12 bits first, its field has 11
    intrId := (intrVec xdev descq % 2 ^ 11).toNat, intrAggr := xdev.aggregates.toNat }

/-- The kind of completion context in the messages about a queue. -/
def cmptCtxtTypeOf (conf : QdmaQueueConf) : CmptCtxtType :=
  if !conf.st then if conf.qType = .cmpt then .ctxtOnly else .none
  else if conf.qType = .c2h then .withSt else .none

/-- `enum queue_type_t` as a number. -/
def qTypeNum : QType → ℕ
  | .h2c => 0
  | .c2h => 1
  | .cmpt => 2

/-- The message that `qdma_descq_context_setup` of the VF composes. -/
def vfSetupRequest (raw : ByteMem) : ByteMem :=
  qdmaMboxComposeVfQctxtWrite (mboxDescqConfOf xdev descq) xdev.funcId descq.qidxHw
    descq.conf.st.toNat (qTypeNum descq.conf.qType) (cmptCtxtTypeOf descq.conf) raw

/-- `qdma_descq_context_setup` of the VF as far as the PF: the message is composed in `raw`,
received into `rx` and handled. -/
def vfDescqContextSetup (env : HwEnv) (dmaDeviceIndex pfFuncId : ℕ) (s : ResourceState)
    (mem : CallocResults) (raw rx : ByteMem) (log : HwLog) : Handled :=
  qdmaMboxPfRcvMsgHandler env dmaDeviceIndex pfFuncId
    (pfReceives xdev.funcId (vfSetupRequest xdev descq raw) rx) s mem log

end

/-- The contexts written to the hardware. -/
def isContextWrite : HwAccess → Bool
  | .swCtx _ _ (.write _) | .pfetchCtx _ (.write _) | .cmptCtx _ (.write _) => true
  | _ => false

/-- The software, prefetch and completion contexts programmed by logged accesses. -/
def programmed (log : HwLog) : List HwAccess := (log.map Prod.fst).filter isContextWrite

end OnicDriver.Setup
