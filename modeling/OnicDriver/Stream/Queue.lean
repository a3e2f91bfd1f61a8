import OnicDriver.C2h.Completion
import OnicDriver.Lib.Scatter
import OnicDriver.Netdev.Receive

/-!
# Reading from a streaming C2H queue

A translation of the receive path of a queue without a packet callback:
completion processing leaves the packets in the buffers of the free list, and
`descq_st_c2h_read` copies them into the requests. Memory is addressed as the
device sees it, and an element of a scatter-gather list is the memory it stands
for. The register writes fail on null pointers only.
-/

namespace OnicDriver.Stream

open Lib C2h
open Netdev (readMem)

/-! ## Requests -/

/-- `struct qdma_request` of a read, with its `struct qdma_sgt_req_cb`. -/
structure Request where
  count : ℕ
  sgl : List (List UInt8)
  fpDone : Bool := false
  noMemcpy : Bool := false
  offset : ℕ := 0
  sgOffset : ℕ := 0
  sgIdx : ℕ := 0
  left : ℕ := 0
  deriving DecidableEq, Repr

/-- `memset(cb, 0, QDMA_REQ_OPAQUE_SIZE)`. -/
def Request.clear (req : Request) : Request :=
  { req with offset := 0, sgOffset := 0, sgIdx := 0, left := 0 }

/-- How a read ended: with the return of the call that submitted it, after waiting, with a call
of `fp_done`, as a `qdma_queue_packet_read`, or with a wait that was given up. -/
inductive ReadKind
  | atOnce
  | waited
  | callback
  | packetRead
  | givenUp
  deriving DecidableEq, Repr

/-- A read that ended, with the value that the caller is given. -/
structure Read where
  req : Request
  kind : ReadKind
  rv : ℤ
  deriving DecidableEq, Repr

/-- The default receive path of a queue: its descriptor queue, the requests that wait, and the
reads that ended so far. -/
structure StreamQueue where
  q : C2hQueue
  pendList : List Request := []
  reads : List Read := []

/-! ## `descq_st_c2h_read` -/

/-- Where the device sees the memory at `page_address(fsg->pg) + fsg->offset`. -/
def pageAddress (env : PageEnv) (fsg : SwSg) : ℕ := (env.dmaMapPage fsg.pg).getD 0 + fsg.offset

/-- The result of copying into the elements of a list: the elements, how many of them were
passed, the offset in the next one, and the number of bytes. -/
structure Copied where
  sgl : List (List UInt8)
  j : ℕ
  tsgoff : ℕ
  copied : ℕ
  deriving DecidableEq, Repr

/-- The inner loop: copy `flen` bytes from `faddr` on to the elements. An element that is not
filled up ends the loop, since then nothing is left of the buffer. -/
def copyBuf (noMemcpy : Bool) (mem : ℕ → UInt8) : List (List UInt8) → ℕ → ℕ → ℕ → Copied
  | [], tsgoff, _, _ => { sgl := [], j := 0, tsgoff := tsgoff, copied := 0 }
  | tsg :: sgl, tsgoff, faddr, flen =>
    if flen = 0 then { sgl := tsg :: sgl, j := 0, tsgoff := tsgoff, copied := 0 }
    else
      let copy := min flen (tsg.length - tsgoff)
      let tsg := if noMemcpy then tsg else overwrite tsg tsgoff (readMem mem faddr copy)
      if tsgoff + copy = tsg.length then
        let c := copyBuf noMemcpy mem sgl 0 (faddr + copy) (flen - copy)
        { sgl := tsg :: c.sgl, j := c.j + 1, tsgoff := c.tsgoff, copied := copy + c.copied }
      else { sgl := tsg :: sgl, j := 0, tsgoff := tsgoff + copy, copied := copy }

/-- The result of the outer loop: also the number of buffers read up, and the bytes taken from
the next one. -/
structure ReadOut extends Copied where
  i : ℕ
  foff : ℕ
  deriving DecidableEq, Repr

/-- The outer loop over at most `n` buffers from descriptor `pidx` on. -/
def readBufs (env : PageEnv) (noMemcpy : Bool) (mem : ℕ → UInt8) (rngsz : ℕ) (sdesc : ℕ → SwSg) :
    ℕ → ℕ → List (List UInt8) → ℕ → ReadOut
  | 0, _, sgl, tsgoff => { sgl := sgl, j := 0, tsgoff := tsgoff, copied := 0, i := 0, foff := 0 }
  | n + 1, pidx, sgl, tsgoff =>
    if sgl = [] then { sgl := [], j := 0, tsgoff := tsgoff, copied := 0, i := 0, foff := 0 }
    else
      let fsg := sdesc pidx
      let c := copyBuf noMemcpy mem sgl tsgoff (pageAddress env fsg) fsg.len
      if c.copied = fsg.len then
        let r := readBufs env noMemcpy mem rngsz sdesc n (ringIdxIncr pidx 1 rngsz)
          (c.sgl.drop c.j) c.tsgoff
        { sgl := c.sgl.take c.j ++ r.sgl, j := c.j + r.j, tsgoff := r.tsgoff
          copied := c.copied + r.copied, i := r.i + 1, foff := r.foff }
      else { c with i := 0, foff := c.copied }

/-- `qdma_flq_refill` with `recycle` set, which never fails. -/
def recycle (conf : C2hConf) (idx count : ℕ) (rx : FlqState) : FlqState :=
  (refillEntries conf.c2hBufsz true count idx rx).2

/-- The buffer at `idx` after `foff` bytes were read from it. -/
def advance (flq : Flq) (idx foff : ℕ) : Flq :=
  let fsg := flq.sdesc idx
  let fsg := { fsg with offset := fsg.offset + foff, len := fsg.len - foff }
  { flq with sdesc := Function.update flq.sdesc idx fsg }

/-- `descq_st_c2h_read`. -/
def descqStC2hRead (env : PageEnv) (conf : C2hConf) (mem : ℕ → UInt8) (req : Request)
    (updatePidx refill : Bool) (q : C2hQueue) : ℤ × C2hQueue × Request :=
  let flq := q.rx.flq
  let fsgcnt := ringIdxDelta q.pidx flq.pidxPend flq.size
  if fsgcnt = 0 then (0, q, req)
  else if req.sgIdx ≠ 0 ∧ req.sgl.length ≤ req.sgIdx then (-EINVAL, q, req)
  else
    let r := readBufs env req.noMemcpy mem conf.rngsz flq.sdesc fsgcnt flq.pidxPend
      (req.sgl.drop req.sgIdx) req.sgOffset
    let rx := if refill ∧ r.i ≠ 0 then recycle conf flq.pidxPend r.i q.rx else q.rx
    let pidxPend := ringIdxIncr flq.pidxPend r.i flq.size
    let flq := if r.foff ≠ 0 then advance rx.flq pidxPend r.foff else rx.flq
    (r.copied,
      { q with
        rx := { rx with flq := { flq with
          pidxPend := pidxPend, pktDlen := u32 (flq.pktDlen - r.copied) } }
        pidxInfoPidx := if r.i ≠ 0 ∧ updatePidx then ringIdxDecr pidxPend 1 flq.size
          else q.pidxInfoPidx },
      { req with
        sgl := req.sgl.take req.sgIdx ++ r.sgl, sgIdx := req.sgIdx + r.j, sgOffset := r.tsgoff
        left := u32 (req.left - r.copied) })

/-! ## Completion processing -/

/-- The flags that `rcv_pkt` sets in the descriptors of a packet. -/
def markPacket (conf : C2hConf) (pidx last flNr cidxNext : ℕ) (flq : Flq) : Flq :=
  let info := (List.range flNr).foldl (fun info i =>
    let idx := ringIdxIncr pidx i conf.rngsz
    Function.update info idx { info idx with valid := true, cidx := cidxNext }) flq.sdescInfo
  let info := Function.update info pidx { info pidx with sop := true }
  { flq with sdescInfo := Function.update info last { info last with eop := true } }

/-- `rcv_pkt` without a packet callback, for a packet that starts at descriptor `pidx`: the
result, the descriptor after the packet, and the queue. -/
def rcvPktDflt (conf : C2hConf) (pidx len : ℕ) (q : C2hQueue) : ℤ × ℕ × C2hQueue :=
  let flq := q.rx.flq
  let lLen := (getFlNr len conf.c2hBufsz flq.descPgShift (2 ^ flq.descPgShift - 1)).2
  let flNr := flNr conf flq len
  let last := ringIdxIncr pidx (flNr - 1) conf.rngsz
  let next := ringIdxIncr last 1 conf.rngsz
  let cidxNext := ringIdxIncr q.cidxCmpt 1 conf.rngszCmpt
  let sdesc := { flq.sdesc last with len := if len = 0 then 0 else lLen }
  let flq := { flq with sdesc := Function.update flq.sdesc last sdesc }
  if q.rx.avail < flNr then (-EBUSY, pidx, { q with rx := { q.rx with flq := flq } })
  else
    let flq := markPacket conf pidx last flNr cidxNext flq
    let flq := { flq with
      pktDlen := u32 (flq.pktDlen + len)
      uddCnt := if conf.cmplUddEn then u32 (flq.uddCnt + 1) else flq.uddCnt }
    (0, next, { q with rx := { q.rx with flq := flq, avail := q.rx.avail - flNr } })

/-- `rcv_udd_only` without a packet callback. -/
def rcvUddOnlyDflt (q : C2hQueue) : ℤ × C2hQueue :=
  (0, { q with rx := { q.rx with flq := { q.rx.flq with uddCnt := u32 (q.rx.flq.uddCnt + 1) } } })

/-- The loop of `descq_process_completion_st_c2h` over at most `n` entries, without a packet
callback. -/
def processEntriesDflt (conf : C2hConf) (ring : ℕ → ℕ) :
    ℕ → ℕ → C2hQueue → Except (ℤ × C2hQueue) (ℕ × ℕ × C2hQueue)
  | 0, pidx, q => .ok (0, pidx, q)
  | n + 1, pidx, q =>
    match conf.parse (ring q.descCmptCur) with
    | .error rv => .error (rv, q)
    | .ok cmpl =>
      if descqCmplErrCheck conf cmpl < 0 then
        .error (descqCmplErrCheck conf cmpl, { q with err := true })
      else if cmpl.color ≠ q.color then .ok (0, pidx, q)
      else
        let (rv, next, q) := if cmpl.descUsed then rcvPktDflt conf pidx cmpl.len q
          else if conf.cmplUddEn then ((rcvUddOnlyDflt q).1, pidx, (rcvUddOnlyDflt q).2)
          else (0, pidx, q)
        if rv < 0 then .ok (0, pidx, q)
        else (processEntriesDflt conf ring n next (cmptNext conf q)).map
          fun (procCnt, pidx, q) => (procCnt + 1, pidx, q)

/-- What the caller of a request is given when `qdma_sgt_req_done` ends it. -/
def qdmaSgtReqDone (cb : Request) (error : ℤ) : Read :=
  if cb.fpDone then
    { req := cb, kind := .callback, rv := if error ≠ 0 then error else cb.offset }
  else
    { req := cb, kind := .waited
      rv := if error ≠ 0 then - EIO else u32 (cb.count - cb.left) }

/-- `qdma_c2h_packets_proc_dflt`: the requests that ended, and those that still wait. -/
def qdmaC2hPacketsProcDflt (env : PageEnv) (conf : C2hConf) (mem : ℕ → UInt8) :
    List Request → C2hQueue → List Read × List Request × C2hQueue
  | [], q => ([], [], q)
  | cb :: pend, q =>
    if cb.left = 0 then ([qdmaSgtReqDone cb 0], pend, q)
    else
      let (rv, q, cb) := descqStC2hRead env conf mem cb false false q
      if rv < 0 then
        let r := qdmaC2hPacketsProcDflt env conf mem pend q
        (qdmaSgtReqDone cb rv :: r.1, r.2)
      else if cb.left = 0 then
        let r := qdmaC2hPacketsProcDflt env conf mem pend q
        (qdmaSgtReqDone cb 0 :: r.1, r.2)
      else ([], cb :: pend, q)

/-- `queue_cmpt_cidx_update`. -/
def cmptCidxUpdate (q : C2hQueue) : C2hQueue :=
  { q with cidxUpdates := q.cidxUpdates ++ [q.cmptCidxInfo] }

/-- The end of `descq_process_completion_st_c2h` for a call that processed entries. The argument
`pidxPend` is the value before the call. -/
def finishDflt (env : PageEnv) (conf : C2hConf) (mem : ℕ → UInt8) (csPidx pidx pidxPend : ℕ)
    (updCmpl : Bool) (s : StreamQueue) : StreamQueue :=
  let q := cmptCidxUpdate { s.q with
    pidxCmpt := csPidx, pidx := pidx
    cmptCidxInfo := { s.q.cmptCidxInfo with wrbCidx := s.q.cidxCmpt } }
  let (reads, pendList, q) := qdmaC2hPacketsProcDflt env conf mem s.pendList q
  let q := { q with pktCnt := ringIdxDelta csPidx q.cidxCmpt conf.rngszCmpt }
  let q := if q.rx.flq.pidxPend ≠ pidxPend then
      let pend := ringIdxDelta q.rx.flq.pidxPend pidxPend q.rx.flq.size
      { q with
        rx := recycle conf pidxPend pend q.rx
        pidxInfoPidx := if updCmpl ∧ !q.qStopWait then
          ringIdxDecr q.rx.flq.pidxPend 1 q.rx.flq.size else q.pidxInfoPidx }
    else q
  { q := q, pendList := pendList, reads := s.reads ++ reads }

/-- `descq_process_completion_st_c2h` without a packet callback. -/
def descqProcessCompletionDflt (env : PageEnv) (conf : C2hConf) (mem : ℕ → UInt8) (ring : ℕ → ℕ)
    (csPidx budget : ℕ) (updCmpl : Bool) (s : StreamQueue) : ℤ × StreamQueue :=
  if s.q.err then (-EINVAL, s)
  else
    let pend := ringIdxDelta csPidx s.q.cidxCmpt conf.rngszCmpt
    if pend = 0 then
      if conf.pollMode then (-ENODATA, s) else (-ENODATA, { s with q := cmptCidxUpdate s.q })
    else
      let count := if budget = 0 ∨ budget > pend then pend else budget
      match processEntriesDflt conf ring count s.q.pidx { s.q with pktCnt := pend } with
      | .error (rv, q) => (rv, { s with q := q })
      | .ok (procCnt, pidx, q) =>
        let q := moderate conf csPidx procCnt budget { q with pktCnt := q.pktCnt - procCnt }
        if procCnt ≠ 0 then
          (0, finishDflt env conf mem csPidx pidx s.q.rx.flq.pidxPend updCmpl { s with q := q })
        else (0, { s with q := q })

/-! ## Submitting a request -/

/-- `qdma_request_submit` of a read on an online queue. A request that data is missing for
waits in the list. -/
def qdmaRequestSubmit (env : PageEnv) (conf : C2hConf) (mem : ℕ → UInt8) (req : Request)
    (s : StreamQueue) : StreamQueue :=
  let req := { req.clear with left := req.count }
  if s.q.qStopWait then { s with reads := s.reads ++ [{ req := req, kind := .atOnce, rv := 0 }] }
  else
    let (_, q, req) := descqStC2hRead env conf mem req true true s.q
    if req.left = 0 then
      { s with q := q, reads := s.reads ++ [{ req := req, kind := .atOnce, rv := req.count }] }
    else { s with q := q, pendList := s.pendList ++ [req] }

/-- The part of `struct qdma_cmpl_ctrl` that the processing of completions reads. -/
structure CmplCtrl where
  cntThIdx : ℕ
  triggerMode : ℕ
  cmplEnIntr : Bool
  deriving DecidableEq, Repr

/-- The completion control of `qdma_queue_packet_read`. -/
def setCmplCtrl (cctrl : CmplCtrl) (q : C2hQueue) : C2hQueue :=
  cmptCidxUpdate { q with cmptCidxInfo :=
    { wrbCidx := q.cidxCmpt, irqEn := cctrl.cmplEnIntr, counterIdx := cctrl.cntThIdx
      trigMode := cctrl.triggerMode } }

/-- `qdma_queue_packet_read`. -/
def qdmaQueuePacketRead (env : PageEnv) (conf : C2hConf) (mem : ℕ → UInt8) (req : Request)
    (cctrl : Option CmplCtrl) (s : StreamQueue) : StreamQueue :=
  let q := match cctrl with
    | some cctrl => setCmplCtrl cctrl s.q
    | none => s.q
  let (_, q, req) := descqStC2hRead env conf mem req.clear true true q
  { s with
    q := q
    reads :=
      s.reads ++ [{ req := req, kind := .packetRead, rv := s32 (u32 (req.count - req.left)) }] }

/-- `qdma_request_wait_for_cmpl` whose wait for the request at position `i` of the list ends, by
a time-out or a signal, before the request is done. -/
def giveUp (i : ℕ) (s : StreamQueue) : StreamQueue :=
  match s.pendList[i]? with
  | some cb =>
    if cb.fpDone then s
    else
      { s with
        pendList := s.pendList.eraseIdx i
        reads := s.reads ++ [{ req := cb, kind := .givenUp, rv := - EIO }] }
  | none => s

end OnicDriver.Stream
