import OnicDriver.C2h.FreeList
import OnicDriver.Queue.Ring

/-!
# Completion processing of a streaming C2H queue

A translation of `descq_process_completion_st_c2h` and the functions it calls,
for a queue with a packet callback (`fp_descq_c2h_packet`). The completion
ring is a function of the byte offset, and an entry is a number whose low 64
bits are its first word.
-/

namespace OnicDriver.C2h

open Lib

def ENODATA : ℤ := 61

/-- `TRIG_MODE_COMBO`. -/
def TRIG_MODE_COMBO : ℕ := 5

/-- `QDMA_GLOBAL_CSR_ARRAY_SZ`. -/
def QDMA_GLOBAL_CSR_ARRAY_SZ : ℕ := 16

/-- `MAX_C2H_CNTR_STAGNANT_CNT`. -/
def MAX_C2H_CNTR_STAGNANT_CNT : ℕ := 16

/-- `struct qdma_ul_cmpt_info`; the index of the first descriptor is an argument of the
functions instead. -/
structure UlCmptInfo where
  format : Bool := false
  color : Bool := false
  err : Bool := false
  eot : Bool := false
  descUsed : Bool := false
  len : ℕ := 0
  entry : ℕ := 0
  deriving DecidableEq, Repr

/-- `struct qdma_cmpt_cidx_reg_info`. -/
structure CmptCidxInfo where
  wrbCidx : ℕ := 0
  irqEn : Bool := false
  counterIdx : ℕ := 0
  trigMode : ℕ := 0
  deriving DecidableEq, Repr

/-- The configuration of a queue and its device. `fpProcUlCmptEntry` is the parser of a
queue in bypass mode. -/
structure C2hConf where
  rngsz : ℕ
  rngszCmpt : ℕ
  cmptEntryLen : ℕ
  c2hBufsz : ℕ
  cmplUddEn : Bool := false
  fpProcUlCmptEntry : Option (ℕ → Except ℤ UlCmptInfo) := none
  intrModeration : Bool := false
  adaptiveRx : Bool := false
  latencyOptimize : Bool := false
  pollMode : Bool := false
  cmplEnIntr : Bool := false
  cmplTrigMode : ℕ := 0
  cmplCntThIdx : ℕ := 0
  c2hCntTh : ℕ → ℕ := fun _ => 0
  sortedC2hCntrIdx : ℕ → ℕ := id

/-- The arguments of one call of `fp_descq_c2h_packet`: the number of buffers and of bytes,
the descriptor of the first buffer, the buffers, and the completion entry if passed on. -/
structure PacketCall where
  len : ℕ
  sgcnt : ℕ
  first : ℕ
  sgl : List SwSg
  udd : Option ℕ
  deriving DecidableEq, Repr

/-- What a queue meets outside: pages, the results of the packet callback and those of
`queue_cmpt_cidx_update`, by number of call. -/
structure C2hEnv extends PageEnv where
  fpDescqC2hPacket : ℕ → PacketCall → ℤ
  queueCmptCidxUpdate : ℕ → ℤ

/-- The descriptor queue. `callbacks` are the packet callbacks and `cidxUpdates` the writes
of the completion index register, in order. -/
structure C2hQueue where
  rx : FlqState
  pidx : ℕ := 0
  pidxCmpt : ℕ := 0
  cidxCmpt : ℕ := 0
  descCmptCur : ℕ := 0
  color : Bool := true
  err : Bool := false
  qStopWait : Bool := false
  cmptCidxInfo : CmptCidxInfo := {}
  pidxInfoPidx : ℕ := 0
  pktCnt : ℕ := 0
  c2hPendPktMovingAvg : ℕ := 0
  c2hPendPktAvgThrHi : ℕ := 0
  c2hPendPktAvgThrLo : ℕ := 0
  sortedC2hCntrIdx : ℕ := 0
  c2hCntrMonitorCnt : ℕ := 0
  callbacks : List PacketCall := []
  cidxUpdates : List CmptCidxInfo := []

/-! ## Completion entries -/

/-- `cmpt_next`. -/
def cmptNext (conf : C2hConf) (q : C2hQueue) : C2hQueue :=
  let descCmptCur := q.descCmptCur + conf.cmptEntryLen
  if q.cidxCmpt + 1 = conf.rngszCmpt then
    { q with cidxCmpt := 0, color := !q.color, descCmptCur := 0 }
  else { q with cidxCmpt := q.cidxCmpt + 1, descCmptCur := descCmptCur }

/-- `parse_cmpl_entry` on the entry at the cursor. -/
def parseCmplEntry (entry : ℕ) : UlCmptInfo :=
  let cmpl : UlCmptInfo :=
    { format := entry.testBit 0, color := entry.testBit 1, err := entry.testBit 2
      eot := entry.testBit 20, descUsed := entry.testBit 3, entry := entry }
  if !cmpl.format && cmpl.descUsed then { cmpl with len := entry / 2 ^ 4 % 2 ^ 16 } else cmpl

/-- The parser of the queue: `fp_proc_ul_cmpt_entry` in bypass mode, else
`parse_cmpl_entry`. -/
def C2hConf.parse (conf : C2hConf) (entry : ℕ) : Except ℤ UlCmptInfo :=
  match conf.fpProcUlCmptEntry with
  | some proc => proc entry
  | none => .ok (parseCmplEntry entry)

/-- `descq_cmpl_err_check`: whether the entry is rejected, which stops the queue. -/
def descqCmplErrCheck (conf : C2hConf) (cmpl : UlCmptInfo) : ℤ :=
  if cmpl.format then -EINVAL
  else if !cmpl.descUsed && !conf.cmplUddEn then -EINVAL
  else if cmpl.err then -EINVAL
  else 0

/-- The loop of `get_fl_nr`: the number of whole buffers and the rest. -/
def subBufs (c2hBufsz : ℕ) : ℕ → ℕ → ℕ × ℕ
  | 0, lLen => (0, lLen)
  | fuel + 1, lLen =>
    if lLen ≥ c2hBufsz then
      let r := subBufs c2hBufsz fuel (lLen - c2hBufsz)
      (r.1 + 1, r.2)
    else (0, lLen)

/-- `get_fl_nr`: the number of descriptors for `len` bytes and the bytes in the last one. -/
def getFlNr (len c2hBufsz pgShift pgMask : ℕ) : ℕ × ℕ :=
  if len &&& (len - 1) = 0 then
    let lFlNr := if len ≠ 0 then (len + pgMask) / 2 ^ pgShift else 1
    let lLen := len &&& pgMask
    (lFlNr, if lLen = 0 then c2hBufsz else lLen)
  else if len ≤ c2hBufsz then (1, len)
  else
    let (lFlNr, lLen) := subBufs c2hBufsz len len
    if lLen ≠ 0 then (lFlNr + 1, lLen) else (lFlNr, c2hBufsz)

/-- `fl_nr` as `rcv_pkt` computes it. -/
def flNr (conf : C2hConf) (flq : Flq) (len : ℕ) : ℕ :=
  (getFlNr len conf.c2hBufsz flq.descPgShift (2 ^ flq.descPgShift - 1)).1

/-- The arguments with which `rcv_pkt` calls back for a packet of `fl_nr` buffers. -/
def packetCall (conf : C2hConf) (flq : Flq) (pidx len flNr entry : ℕ) : PacketCall :=
  { len := len, sgcnt := flNr, first := pidx
    sgl := (List.range flNr).map fun i => flq.sdesc (ringIdxIncr pidx i conf.rngsz)
    udd := if conf.cmplUddEn then some entry else none }

/-- A call of the packet callback. -/
def C2hQueue.callback (env : C2hEnv) (q : C2hQueue) (call : PacketCall) : ℤ × C2hQueue :=
  (env.fpDescqC2hPacket q.callbacks.length call, { q with callbacks := q.callbacks ++ [call] })

/-- `rcv_pkt` for a packet that starts at descriptor `pidx`: the result, the descriptor
after the packet, and the queue. -/
def rcvPkt (env : C2hEnv) (conf : C2hConf) (pidx len entry : ℕ) (q : C2hQueue) :
    ℤ × ℕ × C2hQueue :=
  let flq := q.rx.flq
  let lLen := (getFlNr len conf.c2hBufsz flq.descPgShift (2 ^ flq.descPgShift - 1)).2
  let flNr := flNr conf flq len
  let last := ringIdxIncr pidx (flNr - 1) conf.rngsz
  let next := ringIdxIncr last 1 conf.rngsz
  let sdesc := { flq.sdesc last with len := if len = 0 then 0 else lLen }
  let flq := { flq with sdesc := Function.update flq.sdesc last sdesc }
  if q.rx.avail < flNr then (-EBUSY, pidx, { q with rx := { q.rx with flq := flq } })
  else
    let q := { q with rx := { q.rx with flq := flq, avail := q.rx.avail - flNr } }
    let (rv, q) := q.callback env (packetCall conf flq pidx len flNr entry)
    if rv < 0 then (rv, pidx, q)
    else (0, next, { q with rx := { q.rx with flq := { q.rx.flq with pidxPend := next } } })

/-- `rcv_udd_only`: no descriptor is used. -/
def rcvUddOnly (env : C2hEnv) (entry : ℕ) (q : C2hQueue) : ℤ × C2hQueue :=
  q.callback env { len := 0, sgcnt := 0, first := 0, sgl := [], udd := some entry }

/-! ## The completion counter threshold -/

/-- The settings of a streaming C2H queue in `qdma_descq_config_complete`. -/
def qdmaDescqConfigComplete (conf : C2hConf) (q : C2hQueue) : C2hQueue :=
  let movingAvg := conf.c2hCntTh conf.cmplCntThIdx
  let sorted := ((List.range QDMA_GLOBAL_CSR_ARRAY_SZ).find? fun i =>
    decide (conf.cmplCntThIdx = conf.sortedC2hCntrIdx i)).getD q.sortedC2hCntrIdx
  let hiIdx := if sorted = QDMA_GLOBAL_CSR_ARRAY_SZ - 1 then sorted else sorted + 1
  let lowIdx := if sorted = 0 then 0 else sorted - 1
  { q with
    cmptCidxInfo := { q.cmptCidxInfo with
      irqEn := conf.cmplEnIntr, trigMode := conf.cmplTrigMode, counterIdx := conf.cmplCntThIdx }
    pidx := 0, cidxCmpt := 0, pidxCmpt := 0, sortedC2hCntrIdx := sorted
    c2hPendPktMovingAvg := movingAvg
    c2hPendPktAvgThrHi := u32 (movingAvg + conf.c2hCntTh (conf.sortedC2hCntrIdx hiIdx)) / 2
    c2hPendPktAvgThrLo := u32 (movingAvg + conf.c2hCntTh (conf.sortedC2hCntrIdx lowIdx)) / 2 }

/-- `descq_adjust_c2h_cntr_avgs`. -/
def descqAdjustC2hCntrAvgs (conf : C2hConf) (q : C2hQueue) : C2hQueue :=
  let movingAvg := conf.c2hCntTh q.cmptCidxInfo.counterIdx
  let hi := conf.c2hCntTh (conf.sortedC2hCntrIdx
    (if q.sortedC2hCntrIdx = QDMA_GLOBAL_CSR_ARRAY_SZ - 1 then q.sortedC2hCntrIdx
      else q.sortedC2hCntrIdx + 1))
  let lo := conf.c2hCntTh (conf.sortedC2hCntrIdx
    (if q.sortedC2hCntrIdx > 0 then q.sortedC2hCntrIdx - 1 else q.sortedC2hCntrIdx))
  { q with
    c2hPendPktMovingAvg := movingAvg
    c2hPendPktAvgThrHi := u32 (if conf.latencyOptimize then hi + hi else movingAvg + hi) / 2
    c2hPendPktAvgThrLo := u32 (if conf.latencyOptimize then lo + lo else movingAvg + lo) / 2 }

/-- `descq_incr_c2h_cntr_th`. The threshold values are read as bytes. -/
def descqIncrC2hCntrTh (conf : C2hConf) (q : C2hQueue) : C2hQueue :=
  if q.sortedC2hCntrIdx = QDMA_GLOBAL_CSR_ARRAY_SZ - 1 then q
  else
    let q := { q with c2hCntrMonitorCnt := 0 }
    let i := q.sortedC2hCntrIdx
    let valCurr : ℕ := conf.c2hCntTh (conf.sortedC2hCntrIdx i) % 2 ^ 8
    let c2hCntrIdx := conf.sortedC2hCntrIdx (i + 1)
    let valNew : ℕ := conf.c2hCntTh c2hCntrIdx % 2 ^ 8
    if valNew ≥ q.c2hPendPktMovingAvg ∧
        u32 (valNew - q.c2hPendPktMovingAvg) ≥ u32 (q.c2hPendPktMovingAvg - valCurr) then q
    else if valNew < conf.rngsz / 2 then
      descqAdjustC2hCntrAvgs conf { q with
        cmptCidxInfo := { q.cmptCidxInfo with counterIdx := c2hCntrIdx }
        sortedC2hCntrIdx := i + 1 }
    else q

/-- `descq_decr_c2h_cntr_th`. -/
def descqDecrC2hCntrTh (conf : C2hConf) (budget : ℕ) (q : C2hQueue) : C2hQueue :=
  if q.sortedC2hCntrIdx = 0 then q
  else
    let q := { q with c2hCntrMonitorCnt := 0 }
    let i := q.sortedC2hCntrIdx
    let valCurr : ℕ := conf.c2hCntTh (conf.sortedC2hCntrIdx i) % 2 ^ 8
    let c2hCntrIdx := conf.sortedC2hCntrIdx (i - 1)
    let valNew : ℕ := conf.c2hCntTh c2hCntrIdx % 2 ^ 8
    if valNew ≤ q.c2hPendPktMovingAvg ∧
        u32 (q.c2hPendPktMovingAvg - valNew) ≥ u32 (valCurr - q.c2hPendPktMovingAvg) then q
    else if conf.latencyOptimize = false ∧ valNew < u32 (budget - 2) then q
    else
      descqAdjustC2hCntrAvgs conf { q with
        cmptCidxInfo := { q.cmptCidxInfo with counterIdx := c2hCntrIdx }
        sortedC2hCntrIdx := i - 1 }

/-- `descq_adjust_c2h_cntr_th`. -/
def descqAdjustC2hCntrTh (conf : C2hConf) (pend budget : ℕ) (q : C2hQueue) : C2hQueue :=
  let q := { q with c2hPendPktMovingAvg := u32 (q.c2hPendPktMovingAvg + pend) / 2 }
  if q.c2hPendPktAvgThrHi ≤ q.c2hPendPktMovingAvg then descqIncrC2hCntrTh conf q
  else if q.c2hPendPktAvgThrLo ≥ q.c2hPendPktMovingAvg then descqDecrC2hCntrTh conf budget q
  else
    let q := { q with c2hCntrMonitorCnt := (q.c2hCntrMonitorCnt + 1) % 2 ^ 8 }
    if q.c2hCntrMonitorCnt = MAX_C2H_CNTR_STAGNANT_CNT then
      { descqDecrC2hCntrTh conf budget q with c2hCntrMonitorCnt := 0 }
    else q

/-! ## Processing completions -/

/-- The loop of `descq_process_completion_st_c2h` over at most `n` entries: the number
processed, the local producer index, and the queue, or the error that ends the call. -/
def processEntries (env : C2hEnv) (conf : C2hConf) (ring : ℕ → ℕ) :
    ℕ → ℕ → C2hQueue → Except (ℤ × C2hQueue) (ℕ × ℕ × C2hQueue)
  | 0, pidx, q => .ok (0, pidx, q)
  | n + 1, pidx, q =>
    match conf.parse (ring q.descCmptCur) with
    | .error rv => .error (rv, q)
    | .ok cmpl =>
      if descqCmplErrCheck conf cmpl < 0 then
        .error (descqCmplErrCheck conf cmpl, { q with err := true })
      else if cmpl.color ≠ q.color then .ok (0, pidx, q)
      else
        let (rv, next, q) := if cmpl.descUsed then rcvPkt env conf pidx cmpl.len cmpl.entry q
          else if conf.cmplUddEn then
            ((rcvUddOnly env cmpl.entry q).1, pidx, (rcvUddOnly env cmpl.entry q).2)
          else (0, pidx, q)
        if rv < 0 then .ok (0, pidx, q)
        else (processEntries env conf ring n next (cmptNext conf q)).map
          fun (procCnt, pidx, q) => (procCnt + 1, pidx, q)

/-- `queue_cmpt_cidx_update`. -/
def queueCmptCidxUpdate (env : C2hEnv) (q : C2hQueue) : ℤ × C2hQueue :=
  (env.queueCmptCidxUpdate q.cidxUpdates.length,
    { q with cidxUpdates := q.cidxUpdates ++ [q.cmptCidxInfo] })

/-- The interrupt moderation of `descq_process_completion_st_c2h`. -/
def moderate (conf : C2hConf) (csPidx procCnt readWeight : ℕ) (q : C2hQueue) : C2hQueue :=
  if conf.intrModeration ∧ q.cmptCidxInfo.trigMode = TRIG_MODE_COMBO then
    let pend := ringIdxDelta csPidx q.cidxCmpt conf.rngszCmpt
    let q := { q with
      pktCnt := pend
      cmptCidxInfo :=
        { q.cmptCidxInfo with irqEn := !decide (readWeight ≠ 0 ∧ pend > readWeight) } }
    if conf.adaptiveRx then descqAdjustC2hCntrTh conf (pend + procCnt) readWeight q else q
  else q

/-- The end of `descq_process_completion_st_c2h` for a call that processed entries; `none`
if the refill never returns. The argument `pidxPend` is the value before the call. -/
def finishProcessing (env : C2hEnv) (conf : C2hConf) (csPidx pidx pidxPend : ℕ) (updCmpl : Bool)
    (q : C2hQueue) : Option C2hQueue :=
  let q := { q with
    pidxCmpt := csPidx, pidx := pidx
    cmptCidxInfo := { q.cmptCidxInfo with wrbCidx := q.cidxCmpt }
    pktCnt := ringIdxDelta csPidx q.cidxCmpt conf.rngszCmpt }
  if q.rx.flq.pidxPend ≠ pidxPend then
    let pend := ringIdxDelta q.rx.flq.pidxPend pidxPend q.rx.flq.size
    (qdmaFlqRefill env.toPageEnv conf.c2hBufsz true pidxPend pend false q.rx).map fun (_, rx) =>
      if updCmpl ∧ !q.qStopWait then
        { q with rx := rx, pidxInfoPidx := ringIdxDecr rx.flq.pidxPend 1 rx.flq.size }
      else { q with rx := rx }
  else some q

/-- `descq_process_completion_st_c2h` on the completion ring `ring` with the status
`csPidx`; `none` if it never returns. -/
def descqProcessCompletionStC2h (env : C2hEnv) (conf : C2hConf) (ring : ℕ → ℕ) (csPidx budget : ℕ)
    (updCmpl : Bool) (q : C2hQueue) : Option (ℤ × C2hQueue) :=
  if q.err then some (-EINVAL, q)
  else
    let pend := ringIdxDelta csPidx q.cidxCmpt conf.rngszCmpt
    if pend = 0 then
      if conf.pollMode then some (-ENODATA, q)
      else
        let (rv, q) := queueCmptCidxUpdate env q
        if rv < 0 then some (-EINVAL, q) else some (-ENODATA, q)
    else
      let pidxPend := q.rx.flq.pidxPend
      let count := if budget = 0 ∨ budget > pend then pend else budget
      match processEntries env conf ring count q.pidx { q with pktCnt := pend } with
      | .error (rv, q) => some (rv, q)
      | .ok (procCnt, pidx, q) =>
        let q := moderate conf csPidx procCnt budget { q with pktCnt := q.pktCnt - procCnt }
        if procCnt ≠ 0 then
          (finishProcessing env conf csPidx pidx pidxPend updCmpl q).map fun q => (0, q)
        else some (0, q)

end OnicDriver.C2h
