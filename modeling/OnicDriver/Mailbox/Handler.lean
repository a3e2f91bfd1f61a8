import OnicDriver.Access.Hardware
import OnicDriver.Mailbox.Message
import OnicDriver.Resource.Active

/-!
# The mailbox handler of the PF

A translation of `qdma_mbox_pf_rcv_msg_handler` and of the functions that it
calls for queue contexts. The handler works on the resource manager and on the
hardware, whose accesses are logged.
-/

namespace OnicDriver.Mailbox

open Lib Access Resource

def QDMA_MBOX_VF_ONLINE : ℤ := 1
def QDMA_MBOX_VF_OFFLINE : ℤ := -1
def QDMA_MBOX_VF_RESET : ℤ := 2
def QDMA_MBOX_PF_RESET_DONE : ℤ := 3
def QDMA_MBOX_PF_BYE : ℤ := 4
def QDMA_MBOX_VF_RESET_BYE : ℤ := 5

def QDMA_ERR_HWACC_FEATURE_NOT_SUPPORTED : ℤ := 7
def QDMA_ERR_MBOX_NUM_QUEUES : ℤ := 15
def QDMA_ERR_MBOX_INV_QID : ℤ := 16
def QDMA_ERR_MBOX_INV_RINGSZ : ℤ := 17
def QDMA_ERR_MBOX_INV_BUFSZ : ℤ := 18
def QDMA_ERR_MBOX_INV_CNTR_TH : ℤ := 19
def QDMA_ERR_MBOX_INV_TMR_TH : ℤ := 20
def QDMA_ERR_MBOX_INV_MSG : ℤ := 21
def QDMA_ERR_MBOX_REG_READ_FAILED : ℤ := 24

def QDMA_GLOBAL_CSR_ARRAY_SZ : ℕ := 16

/-- Conversion to the `char` of a response status. -/
def s8 (x : ℤ) : ℤ := Int.bmod x (2 ^ 8)

section

variable (env : HwEnv)

/-! ## Composing contexts -/

/-- The index functions `get_ring_idx`, `get_buf_idx`, `get_cntr_idx` and `get_tmr_idx`: read
a table and look a value up in it. -/
def getCsrIdx (type : CsrType) (notFound : ℤ) (p : ℕ → Bool) (log : HwLog) :
    ℤ × ℕ × HwLog :=
  match perform env (.globalCsr type) log with
  | (rv, log) =>
    if rv ≠ 0 then (rv, 0, log)
    else match (List.range QDMA_GLOBAL_CSR_ARRAY_SZ).find? fun i => p (env.csr type i) with
      | some i => (QDMA_SUCCESS, i, log)
      | none => (-notFound, 0, log)

/-- `get_ring_idx`. The table holds sizes one larger. -/
def getRingIdx (ringSz : ℕ) : HwLog → ℤ × ℕ × HwLog :=
  getCsrIdx env .ringSz QDMA_ERR_MBOX_INV_RINGSZ fun v => ringSz = u32 ((v : ℤ) - 1)

/-- `get_buf_idx`. -/
def getBufIdx (bufSz : ℕ) : HwLog → ℤ × ℕ × HwLog :=
  getCsrIdx env .bufSz QDMA_ERR_MBOX_INV_BUFSZ fun v => v = bufSz

/-- `get_cntr_idx`. -/
def getCntrIdx (cntrVal : ℕ) : HwLog → ℤ × ℕ × HwLog :=
  getCsrIdx env .cntTh QDMA_ERR_MBOX_INV_CNTR_TH fun v => v = cntrVal

/-- `get_tmr_idx`. -/
def getTmrIdx (tmrVal : ℕ) : HwLog → ℤ × ℕ × HwLog :=
  getCsrIdx env .timerCnt QDMA_ERR_MBOX_INV_TMR_TH fun v => v = tmrVal

/-- The complement of a one-bit field, stored in a byte. -/
def notByte (b : Bool) : ℕ := if b then 0xFE else 0xFF

/-- `mbox_compose_sw_context`. -/
def mboxComposeSwContext (st c2h : Bool) (conf : MboxDescqConf) (log : HwLog) :
    ℤ × DescqSwCtxt × HwLog :=
  match getRingIdx env conf.ringsz log with
  | (rv, rngIdx, log) =>
    if rv < 0 then (rv, {}, log)
    else
      let sw : DescqSwCtxt :=
        { vec := conf.intrId, intrAggr := conf.intrAggr, ringBsAddr := conf.ringBsAddr
          wbiChk := conf.wbiChk, wbiIntvlEn := conf.wbiIntvlEn, rngszIdx := rngIdx
          bypass := conf.enBypass, wbkEn := conf.wbkEn, irqEn := conf.irqEn
          isMm := notByte st, mmChn := 0, qen := 1, frcdEn := conf.forcedEn
          descSz := conf.descSz, fncId := conf.funcId % 2 ^ 8, irqArm := conf.irqArm }
      let sw := if st && c2h then { sw with irqEn := 0, irqArm := 0, wbkEn := 0, wbiChk := 0 }
        else sw
      (QDMA_SUCCESS, sw, log)

/-- `mbox_compose_prefetch_context`. -/
def mboxComposePrefetchContext (conf : MboxDescqConf) (log : HwLog) :
    ℤ × DescqPrefetchCtxt × HwLog :=
  match getBufIdx env conf.bufsz log with
  | (rv, bufIdx, log) =>
    if rv < 0 then (rv, {}, log)
    else (QDMA_SUCCESS,
      { valid := 1, bypass := conf.enBypassPrefetch, bufszIdx := bufIdx, pfchEn := conf.pfchEn },
      log)

/-- `mbox_compose_cmpt_context`. -/
def mboxComposeCmptContext (conf : MboxDescqConf) (log : HwLog) : ℤ × DescqCmptCtxt × HwLog :=
  match getCntrIdx env conf.cntThres log with
  | (rv, cntrIdx, log) =>
    if rv < 0 then (rv, {}, log)
    else match getTmrIdx env conf.timerThres log with
    | (rv, tmrIdx, log) =>
      if rv < 0 then (rv, {}, log)
      else match getRingIdx env conf.cmptRingsz log with
      | (rv, rngIdx, log) =>
        if rv < 0 then (rv, {}, log)
        else (QDMA_SUCCESS,
          { bsAddr := conf.cmptRingBsAddr, enStatDesc := conf.cmplStatEn
            enInt := conf.cmptIntEn, trigMode := conf.triggermode, fncId := conf.funcId % 2 ^ 8
            timerIdx := tmrIdx, counterIdx := cntrIdx, color := 1, ringszIdx := rngIdx
            descSz := conf.cmptDescSz, valid := 1, ovfChkDis := conf.disOverflowCheck
            vec := conf.intrId, intAggr := conf.intrAggr }, log)

/-- The result and the accesses of a composition. -/
def composed {α : Type} (r : ℤ × α × HwLog) : ℤ × HwLog := (r.1, r.2.2)

theorem mboxComposeSwContext_composed (st c2h : Bool) (conf : MboxDescqConf) (log : HwLog) :
    composed (mboxComposeSwContext env st c2h conf log) =
      unlessFailed (composed (getRingIdx env conf.ringsz log)) fun log => (QDMA_SUCCESS, log) := by
  unfold mboxComposeSwContext unlessFailed composed
  dsimp only
  split <;> rfl

theorem mboxComposePrefetchContext_composed (conf : MboxDescqConf) (log : HwLog) :
    composed (mboxComposePrefetchContext env conf log) =
      unlessFailed (composed (getBufIdx env conf.bufsz log)) fun log => (QDMA_SUCCESS, log) := by
  unfold mboxComposePrefetchContext unlessFailed composed
  dsimp only
  split <;> rfl

theorem mboxComposeCmptContext_composed (conf : MboxDescqConf) (log : HwLog) :
    composed (mboxComposeCmptContext env conf log) =
      unlessFailed (composed (getCntrIdx env conf.cntThres log)) fun log =>
        unlessFailed (composed (getTmrIdx env conf.timerThres log)) fun log =>
          unlessFailed (composed (getRingIdx env conf.cmptRingsz log)) fun log =>
            (QDMA_SUCCESS, log) := by
  unfold mboxComposeCmptContext unlessFailed composed
  dsimp only
  split
  · rfl
  · split
    · rfl
    · split <;> rfl

/-! ## Queue contexts -/

/-- Whether a message is about a completion context besides the others. -/
def CmptCtxtType.withCmpt (t : CmptCtxtType) : Bool := t = .withMm || t = .withSt

/-- One access to each context of a queue. -/
def queueContextAccesses (op : ∀ {α : Type}, CtxtOp α) (qidHw : ℕ) (st c2h : Bool)
    (cmptCtxtType : CmptCtxtType) : List HwAccess :=
  [.swCtx c2h qidHw op, .hwCtx c2h qidHw op, .creditCtx c2h qidHw op] ++
    (if st && c2h then [.pfetchCtx qidHw op] else []) ++
    (if cmptCtxtType.withCmpt then [.cmptCtx qidHw op] else [])

/-- The common form of `mbox_clear_queue_contexts` and `mbox_invalidate_queue_contexts`. -/
def mboxResetQueueContexts (op : ∀ {α : Type}, CtxtOp α) (s : ResourceState)
    (dmaDeviceIndex funcId qidHw : ℕ) (st c2h : Bool) (cmptCtxtType : CmptCtxtType)
    (log : HwLog) : ℤ × HwLog :=
  -- the completion context alone is reset without a look at the range of the function
  if cmptCtxtType = .ctxtOnly then performAll env [.cmptCtx qidHw op] log
  else
    let rv := (qdmaDevQinfoGet s dmaDeviceIndex funcId).1
    if rv < 0 then (rv, log)
    else if qdmaDevIsQueueInRange s dmaDeviceIndex funcId qidHw ≠ .inRange then (rv, log)
    else performAll env (queueContextAccesses op qidHw st c2h cmptCtxtType) log

/-- `mbox_clear_queue_contexts`. -/
def mboxClearQueueContexts := mboxResetQueueContexts env .clear

/-- `mbox_invalidate_queue_contexts`. -/
def mboxInvalidateQueueContexts := mboxResetQueueContexts env .invalidate

/-- `mbox_write_queue_contexts` on the configuration of a message from function `funcId`. -/
def mboxWriteQueueContexts (s : ResourceState) (dmaDeviceIndex funcId qidHw : ℕ) (st c2h : Bool)
    (cmptCtxtType : CmptCtxtType) (conf : MboxDescqConf) (log : HwLog) : ℤ × HwLog :=
  let rv := (qdmaDevQinfoGet s dmaDeviceIndex funcId).1
  if rv < 0 then (rv, log)
  else if qdmaDevIsQueueInRange s dmaDeviceIndex funcId qidHw ≠ .inRange then (rv, log)
  else if cmptCtxtType = .ctxtOnly then
    let cmpt := mboxComposeCmptContext env conf log
    unlessFailed (composed cmpt) fun log =>
      performAll env [.cmptCtx qidHw .clear, .cmptCtx qidHw (.write cmpt.2.1)] log
  else
    let sw := mboxComposeSwContext env st c2h conf log
    unlessFailed (composed sw) fun log =>
      let pfetch :=
        if st && c2h then mboxComposePrefetchContext env conf log else (QDMA_SUCCESS, {}, log)
      unlessFailed (composed pfetch) fun log =>
        let cmpt :=
          if cmptCtxtType.withCmpt then mboxComposeCmptContext env conf log
          else (QDMA_SUCCESS, {}, log)
        unlessFailed (composed cmpt) fun log =>
          unlessFailed (mboxClearQueueContexts env s dmaDeviceIndex funcId qidHw st c2h
            cmptCtxtType log) fun log =>
            performAll env
              ([.swCtx c2h qidHw (.write sw.2.1)] ++
                (if st && c2h then [.pfetchCtx qidHw (.write pfetch.2.1)] else []) ++
                (if cmptCtxtType.withCmpt then [.cmptCtx qidHw (.write cmpt.2.1)] else []))
              log

/-- The contexts that the accesses logged after `start` have read. -/
def readContexts (log : HwLog) : HwLog → DescqContext → DescqContext
  | [], ctxt => ctxt
  | (a, rv) :: rest, ctxt =>
    let ctxt :=
      if rv < 0 then ctxt
      else match a with
        | .swCtx _ _ _ => { ctxt with swCtxt := env.swCtxt log }
        | .hwCtx _ _ _ => { ctxt with hwCtxt := env.hwCtxt log }
        | .creditCtx _ _ _ => { ctxt with crCtxt := env.crCtxt log }
        | .pfetchCtx _ _ => { ctxt with pfetchCtxt := env.pfetchCtxt log }
        | .cmptCtx _ _ => { ctxt with cmptCtxt := env.cmptCtxt log }
        | _ => ctxt
    readContexts (log ++ [(a, rv)]) rest ctxt

/-- `mbox_read_queue_contexts`: the result and the context of the response. -/
def mboxReadQueueContexts (qidHw : ℕ) (st c2h : Bool) (cmptCtxtType : CmptCtxtType)
    (log : HwLog) : ℤ × DescqContext × HwLog :=
  match performAll env (queueContextAccesses .read qidHw st c2h cmptCtxtType) log with
  | (rv, log') => (rv, readContexts env log (log'.drop log.length) {}, log')

end

/-! ## The handler -/

/-- What handling a message leaves: the return value, the response, the resource manager and
the log of hardware accesses. -/
structure Handled where
  ret : ℤ := 0
  resp : RespMsg := {}
  state : ResourceState
  log : HwLog

section

variable (env : HwEnv) (dmaDeviceIndex funcId : ℕ)

/-- What follows the label `exit_func`. -/
def exitFunc (m : MboxMem) (ret rv : ℤ) (body : RespBody) (s : ResourceState) (log : HwLog) :
    Handled :=
  { ret := ret
    resp :=
      { op := (m.op + MBOX_MSG_OP_RSP_OFFSET) % 2 ^ 8, status := s8 rv, srcFuncId := funcId
        dstFuncId := m.srcFuncId, body := body }
    state := s, log := log }

/-- The branches of `MBOX_OP_VF_BYE` and `MBOX_OP_PF_RESET_VF_BYE`. -/
def handleBye (m : MboxMem) (ret : ℤ) (s : ResourceState) (mem : CallocResults) (log : HwLog) :
    Handled :=
  match perform env (.fmap m.srcFuncId {}) log with
  | (rv, log) =>
    exitFunc funcId m ret rv .empty (qdmaDevEntryDestroy s dmaDeviceIndex m.srcFuncId mem) log

/-- The branch of `MBOX_OP_HELLO`. The range in the response is that of the request where the
function has none yet. -/
def handleHello (m : MboxMem) (s : ResourceState) (mem : CallocResults) (log : HwLog) :
    Handled :=
  let (rv, s', qbase, qmax) :=
    match qdmaDevQinfoGet s dmaDeviceIndex m.srcFuncId with
    | (rv, some (qbase, qmax)) => (rv, s, qbase, qmax)
    | (_, none) =>
      let (rv, s') := qdmaDevEntryCreate s dmaDeviceIndex m.srcFuncId mem
      (rv, s', m.fmapQbase, m.fmapQmax)
  let body := if rv = 0 then .hello (u32 qbase) qmax dmaDeviceIndex else .empty
  match perform env (.fmap m.srcFuncId {}) log with
  | (_, log) => exitFunc funcId m QDMA_MBOX_VF_ONLINE rv body s' log

/-- The branch of `MBOX_OP_FMAP`. A failure returns without a response. -/
def handleFmap (m : MboxMem) (s : ResourceState) (log : HwLog) : Handled :=
  let cfg : FmapCfg :=
    { qbase := (m.fmapQbase % 2 ^ 16).toNat, qmax := m.fmapQmax % 2 ^ 16 }
  match perform env (.fmap m.srcFuncId cfg) log with
  | (rv, log) =>
    if rv < 0 then { ret := rv, state := s, log := log }
    else exitFunc funcId m 0 rv .empty s log

/-- The optional tables of `MBOX_OP_CSR` in turn: a device without the feature is no error. -/
def readCsrs : List CsrType → ℤ → HwLog → ℤ × HwLog × Bool
  | [], rv, log => (rv, log, true)
  | t :: ts, _, log =>
    match perform env (.globalCsr t) log with
    | (rv, log) =>
      if rv < 0 ∧ rv ≠ -QDMA_ERR_HWACC_FEATURE_NOT_SUPPORTED then (rv, log, false)
      else readCsrs ts rv log

/-- The optional tables that the device has. -/
def csrTables : List CsrType :=
  (if env.attributes.stEn then [.bufSz] else []) ++
    if env.attributes.stEn || env.attributes.mmCmptEn then [.timerCnt, .cntTh] else []

/-- The 16 values of a table, cut to `n` bits; zeros if the table was not read. -/
def csrTable (reads : HwLog) (type : CsrType) (n : ℕ) : List ℕ :=
  (List.range QDMA_GLOBAL_CSR_ARRAY_SZ).map fun i =>
    if (HwAccess.globalCsr type, 0) ∈ reads then env.csr type i % 2 ^ n else 0

/-- The branch of `MBOX_OP_CSR`. -/
def handleCsr (m : MboxMem) (s : ResourceState) (log : HwLog) : Handled :=
  match perform env (.globalCsr .ringSz) log with
  | (rv, log₁) =>
    if rv < 0 then exitFunc funcId m 0 rv .empty s log₁
    else
      let (rv, log₂, read) := readCsrs env (csrTables env) rv log₁
      if read then
        let reads := log₂.drop log.length
        let body := RespBody.csr (csrTable env reads .ringSz 16)
          (if rv = 0 then
            some (csrTable env reads .bufSz 16, csrTable env reads .timerCnt 8,
              csrTable env reads .cntTh 8)
          else none)
        let rv := if rv = -QDMA_ERR_HWACC_FEATURE_NOT_SUPPORTED then QDMA_SUCCESS else rv
        exitFunc funcId m 0 rv body s log₂
      else exitFunc funcId m 0 rv .empty s log₂

/-- The branch of `MBOX_OP_QREQ`. -/
def handleQreq (m : MboxMem) (s : ResourceState) (mem : CallocResults) (log : HwLog) : Handled :=
  match qdmaDevUpdate s dmaDeviceIndex m.srcFuncId m.fmapQmax m.fmapQbase mem with
  | (rv, _, s') =>
    let (rv, info) := if rv = 0 then qdmaDevQinfoGet s' dmaDeviceIndex m.srcFuncId else (rv, none)
    let body := match info with
      | some (qbase, qmax) => .fmap qbase qmax
      | none => .empty
    if rv < 0 then exitFunc funcId m 0 (-QDMA_ERR_MBOX_NUM_QUEUES) body s' log
    else match perform env (.fmap m.srcFuncId {}) log with
      | (_, log) => exitFunc funcId m 0 rv body s' log

/-- The branches of `MBOX_OP_QNOTIFY_ADD` and `MBOX_OP_QNOTIFY_DEL`. -/
def handleQnotify (update : ResourceState → ℕ → ℕ → Option DevQType → ℤ × ResourceState)
    (m : MboxMem) (s : ResourceState) (log : HwLog) : Handled :=
  if qdmaDevIsQueueInRange s dmaDeviceIndex m.srcFuncId m.qidHw ≠ .inRange then
    exitFunc funcId m 0 (-QDMA_ERR_MBOX_INV_QID) .empty s log
  else
    match update s dmaDeviceIndex m.srcFuncId (DevQType.fromWord m.qType) with
    | (rv, s') => exitFunc funcId m 0 rv .empty s' log

/-- The branch of `MBOX_OP_GET_QACTIVE_CNT`. The status is the last of the three counts. -/
def handleGetQactiveCnt (m : MboxMem) (s : ResourceState) (log : HwLog) : Handled :=
  let count := qdmaGetDeviceActiveQueueCount s dmaDeviceIndex m.srcFuncId
  exitFunc funcId m 0 (count .cmpt)
    (.qcnt (u32 (count .h2c)) (u32 (count .c2h)) (u32 (count .cmpt))) s log

/-- The accesses of an interrupt context request, ring by ring. -/
def intrCtxtAccesses (m : MboxMem) (ops : ℕ → List (CtxtOp IndirectIntrCtxt)) : List HwAccess :=
  (List.range m.numRings).flatMap fun i => (ops i).map (.intrCtx (m.ringIndexList i))

/-- The branches of the interrupt context requests. All rings are handled whether or not an
access fails. -/
def handleIntrCtxt (m : MboxMem) (ops : ℕ → List (CtxtOp IndirectIntrCtxt)) (body : RespBody)
    (s : ResourceState) (log : HwLog) : Handled :=
  match performEach env 0 (intrCtxtAccesses m ops) log with
  | (rv, log) => exitFunc funcId m 0 rv body s log

/-- The branch of `MBOX_OP_REG_LIST_READ`. -/
def handleRegListRead (m : MboxMem) (s : ResourceState) (log : HwLog) : Handled :=
  match perform env (.regList m.groupNum) log with
  | (rv, log') =>
    if rv < 0 ∨ env.regs log = [] then
      exitFunc funcId m 0 (-QDMA_ERR_MBOX_REG_READ_FAILED) .empty s log'
    else exitFunc funcId m 0 rv (.regList (env.regs log)) s log'

/-- The interrupt contexts that a read request finds. -/
def intrCtxtBody (m : MboxMem) (log : HwLog) : RespBody :=
  .intrCtxt ((List.range m.numRings).map fun i =>
    env.intrCtxt (performEach env 0 ((intrCtxtAccesses m fun _ => [.read]).take i) log).2)

/-- `qdma_mbox_pf_rcv_msg_handler`. -/
def qdmaMboxPfRcvMsgHandler (m : MboxMem) (s : ResourceState) (mem : CallocResults)
    (log : HwLog) : Handled :=
  match MboxOp.fromByte m.op with
  | some .vfBye => handleBye env dmaDeviceIndex funcId m QDMA_MBOX_VF_OFFLINE s mem log
  | some .pfResetVfBye => handleBye env dmaDeviceIndex funcId m QDMA_MBOX_VF_RESET_BYE s mem log
  | some .hello => handleHello env dmaDeviceIndex funcId m s mem log
  | some .fmap => handleFmap env funcId m s log
  | some .csr => handleCsr env funcId m s log
  | some .qreq => handleQreq env dmaDeviceIndex funcId m s mem log
  | some .qnotifyAdd => handleQnotify dmaDeviceIndex funcId qdmaDevIncrementActiveQueue m s log
  | some .qnotifyDel => handleQnotify dmaDeviceIndex funcId qdmaDevDecrementActiveQueue m s log
  | some .getQactiveCnt => handleGetQactiveCnt dmaDeviceIndex funcId m s log
  | some .intrCtxtWrt =>
    handleIntrCtxt env funcId m (fun i => [.clear, .write (m.ictxt i)]) .empty s log
  | some .intrCtxtRd =>
    handleIntrCtxt env funcId m (fun _ => [.read]) (intrCtxtBody env m log) s log
  | some .intrCtxtClr => handleIntrCtxt env funcId m (fun _ => [.clear]) .empty s log
  | some .intrCtxtInv => handleIntrCtxt env funcId m (fun _ => [.invalidate]) .empty s log
  | some .qctxtInv =>
    match mboxInvalidateQueueContexts env s dmaDeviceIndex m.srcFuncId m.qidHw m.st m.c2h
      m.cmptCtxtType log with
    | (rv, log) => exitFunc funcId m 0 rv .empty s log
  | some .qctxtClr =>
    match mboxClearQueueContexts env s dmaDeviceIndex m.srcFuncId m.qidHw m.st m.c2h
      m.cmptCtxtType log with
    | (rv, log) => exitFunc funcId m 0 rv .empty s log
  | some .qctxtRd =>
    match mboxReadQueueContexts env m.qidHw m.st m.c2h m.cmptCtxtType log with
    | (rv, ctxt, log) => exitFunc funcId m 0 rv (.qctxt ctxt) s log
  | some .qctxtWrt =>
    match mboxWriteQueueContexts env s dmaDeviceIndex m.srcFuncId m.qidHw m.st m.c2h
      m.cmptCtxtType { m.descqConf with funcId := m.srcFuncId } log with
    | (rv, log) => exitFunc funcId m 0 rv .empty s log
  | some .regListRead => handleRegListRead env funcId m s log
  | some .resetPrepare | some .resetDone | some .pfBye =>
    { ret := -QDMA_ERR_MBOX_INV_MSG, state := s, log := log }
  | none =>
    { ret :=
        if m.op = 0x90 then QDMA_MBOX_VF_RESET
        else if m.op = 0x91 then QDMA_MBOX_PF_RESET_DONE
        else if m.op = 0x93 then QDMA_MBOX_PF_BYE
        else -QDMA_ERR_MBOX_INV_MSG
      state := s, log := log }

end

end OnicDriver.Mailbox
