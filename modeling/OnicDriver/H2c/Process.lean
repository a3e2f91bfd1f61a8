import OnicDriver.H2c.Queue

/-!
# Processing of requests

A translation of the functions that make descriptors from the requests of the
work list. A request is cut into pieces at the ends of its scatter-gather
elements, at the largest length of a descriptor and at the end of the keyhole
aperture. The loops have no bound of their own; a call that never returns has no
result for any fuel.
-/

namespace OnicDriver.H2c

open Lib Queue

/-! ## Pieces of a request -/

/-- What one descriptor transfers: `len` bytes at the host address `host` and the device address
`ep`, from the element `elem`. -/
structure Piece where
  host : ℕ
  ep : ℕ
  len : ℕ
  elem : ℕ
  deriving DecidableEq, Repr

/-- The device address and the length of a piece of at most `len` bytes, inside the keyhole window
from its first to its last address where there is one. -/
def keyhole (window : Option (ℕ × ℕ)) (ep len : ℕ) : ℕ × ℕ :=
  match window with
  | none => (ep, len)
  | some (base, last) =>
    let ep := if ep > last then base else ep
    (ep, if u64 ((ep : ℤ) + len) > last then u32 ((last : ℤ) - ep + 1) else len)

/-- The inner loop over `tlen` bytes of an element at `src`: at most `room` pieces, and the device
address after them. -/
def cutElement (limit : ℕ) (window : Option (ℕ × ℕ)) (elem : ℕ) :
    ℕ → ℕ → ℕ → ℕ → List Piece × ℕ
  | 0, _, _, ep => ([], ep)
  | room + 1, tlen, src, ep =>
    let (ep, len) := keyhole window ep (min tlen limit)
    let piece : Piece := { host := src, ep := ep, len := len, elem := elem }
    let tlen := u32 ((tlen : ℤ) - len)
    if tlen = 0 then ([piece], u64 ((ep : ℤ) + len))
    else
      let (pieces, ep) :=
        cutElement limit window elem room tlen (u64 ((src : ℤ) + len)) (u64 ((ep : ℤ) + len))
      (piece :: pieces, ep)

/-- The loop over the elements, the first of which begins at `off`. -/
def cutList (limit : ℕ) (window : Option (ℕ × ℕ)) : ℕ → List SwSg → ℕ → ℕ → ℕ → List Piece
  | _, [], _, _, _ => []
  | elem, sg :: sgl, off, room, ep =>
    if room = 0 then []
    else
      let (pieces, ep) :=
        cutElement limit window elem room (u32 ((sg.len : ℤ) - off))
          (u64 ((sg.dmaAddr : ℤ) + off)) ep
      pieces ++ cutList limit window (elem + 1) sgl 0 (room - pieces.length) ep

/-- `data_cnt` after the pieces. -/
def dataCnt (pieces : List Piece) : ℕ := u32 (pieces.map Piece.len).sum

/-- The slot after `pidx`. -/
def nextSlot (rngsz pidx : ℕ) : ℕ := if pidx + 1 = rngsz then 0 else pidx + 1

/-- The descriptors of the pieces are made: the request and the ring move on. -/
def issue (conf : QueueConf) (id : ReqId) (pieces : List Piece) (q : Descq) : Descq :=
  let q := qdmaUpdateRequest q id pieces.length (dataCnt pieces)
  { q with
    pidx := (nextSlot conf.rngsz)^[pieces.length] q.pidx
    avail := q.avail - pieces.length
    owners := q.owners ++ List.replicate pieces.length id
    written := q.written + pieces.length }

/-! ## Memory mapped queues -/

/-- `aperture` of `descq_mm_proc_request`. -/
def QueueConf.aperture (conf : QueueConf) : ℕ :=
  if conf.apertureSize ≠ 0 then conf.apertureSize else QDMA_DESC_BLEN_MAX

/-- The callback, if the queue uses it. -/
def QueueConf.ulExt (conf : QueueConf) : Option (Descq → ReqId → Fill) :=
  if conf.descBypass then conf.fpBypassDescFill else none

/-- The keyhole window of a request. -/
def mmWindow (conf : QueueConf) (req : QdmaRequest) : Option (ℕ × ℕ) :=
  if conf.apertureSize ≠ 0 then some (req.epAddr, u64 ((req.epAddr : ℤ) + conf.aperture - 1))
  else none

/-- The device address from which a request goes on. -/
def mmEpAddr (conf : QueueConf) (req : QdmaRequest) (cb : SgtReqCb) : ℕ :=
  if conf.apertureSize ≠ 0 then u64 ((req.epAddr : ℤ) + (cb.offset &&& (conf.aperture - 1) : ℕ))
  else u64 ((req.epAddr : ℤ) + cb.offset)

/-- The descriptor of a piece. -/
def mmDescOf (conf : QueueConf) (sop eop : Bool) (p : Piece) : MmDesc :=
  let flagLen := p.len ||| 1 <<< S_DESC_F_DV
  let flagLen := if eop then flagLen ||| 1 <<< S_DESC_F_EOP else flagLen
  let flagLen := if sop then flagLen ||| 1 <<< S_DESC_F_SOP else flagLen
  if conf.qType = .c2h then { srcAddr := p.ep, flagLen := flagLen, dstAddr := p.host }
  else { srcAddr := p.host, flagLen := flagLen, dstAddr := p.ep }

/-- The descriptors of the pieces from the slot `pidx` on. -/
def storeMm (conf : QueueConf) : Bool → List Piece → ℕ → (ℕ → MmDesc) → ℕ → MmDesc
  | _, [], _, desc => desc
  | sop, p :: pieces, pidx, desc =>
    storeMm conf false pieces (nextSlot conf.rngsz pidx)
      (Function.update desc pidx (mmDescOf conf sop pieces.isEmpty p))

/-- One pass of the loop of `descq_mm_proc_request` on the first request: the number of descriptors
written, `none` where the loop ends. -/
def mmPass (conf : QueueConf) (id : ReqId) (q : Descq) : Option ℕ × Descq :=
  let req := q.req id
  let epAddr := mmEpAddr conf req (q.cb id)
  let q := if q.avail = 0 then descqPollMmNH2cCmplStatus conf q else q
  if q.avail = 0 then (none, q)
  else
    match conf.ulExt with
    | some fill =>
      let (n, q) := fpBypassDescFill conf fill id q
      (some n, q)
    | none =>
      match qdmaSglFindOffset req (q.cb id) with
      | none => (some 0, qdmaUpdateRequest q id 0 0)
      | some (i, off) =>
        let pieces := cutList conf.aperture (mmWindow conf req) i ((req.sgl.take req.sgcnt).drop i)
          off q.avail epAddr
        if pieces = [] then (none, q)
        else
          (some pieces.length,
            issue conf id pieces { q with mmDesc := storeMm conf true pieces q.pidx q.mmDesc })

/-! ## Streaming queues -/

/-- `pktsz` of `descq_proc_st_h2c_request`. -/
def pktsz (req : QdmaRequest) : ℕ :=
  if req.epAddr ≠ 0 then min (u32 req.epAddr) PAGE_SIZE else PAGE_SIZE

/-- The descriptors of the pieces from the slot `pidx` on. The flags are set on top of those in the
slot, which were cleared before unless the slot is the first of the ring. -/
def storeSt (conf : QueueConf) (sgMax : ℕ) : List Piece → ℕ → (ℕ → H2cDesc) → ℕ → H2cDesc
  | [], _, desc => desc
  | p :: pieces, pidx, desc =>
    let flags := (desc pidx).flags
    let flags := if conf.descBypass ∧ p.elem = 0 then flags ||| S_H2C_DESC_F_SOP else flags
    let flags := if conf.descBypass ∧ p.elem + 1 = sgMax then flags ||| S_H2C_DESC_F_EOP else flags
    let stored : H2cDesc :=
      { cdhFlags := (desc pidx).cdhFlags ||| S_H2C_DESC_F_ZERO_CDH
        pldLen := u16 p.len, len := u16 p.len, flags := flags, srcAddr := p.host }
    let desc := Function.update desc pidx stored
    let pidx := nextSlot conf.rngsz pidx
    storeSt conf sgMax pieces pidx
      (if pidx = 0 then desc
        else Function.update desc pidx { desc pidx with flags := 0, cdhFlags := 0 })

/-- One pass of the loop of `descq_proc_st_h2c_request` on the first request: the number of
descriptors written, `none` where the loop ends. -/
def stPass (conf : QueueConf) (id : ReqId) (q : Descq) : Option ℕ × Descq :=
  let req := q.req id
  let q := if q.avail = 0 then descqPollMmNH2cCmplStatus conf q else q
  if q.avail = 0 then (none, q)
  else
    match conf.ulExt with
    | some fill =>
      let (n, q) := fpBypassDescFill conf fill id q
      (if n = 0 then none else some n, q)
    | none =>
      match qdmaSglFindOffset req (q.cb id) with
      | none => (some 0, qdmaUpdateRequest q id 0 0)
      | some (i, off) =>
        let pieces := cutList (pktsz req) none i ((req.sgl.take req.sgcnt).drop i) off q.avail 0
        let desc := Function.update q.h2cDesc q.pidx
          { q.h2cDesc q.pidx with flags := 0, cdhFlags := 0 }
        let desc := storeSt conf req.sgcnt pieces q.pidx desc
        (if pieces = [] then none else some pieces.length,
          issue conf id pieces { q with h2cDesc := desc })

/-! ## Calls -/

/-- The loop over the work list: the number of descriptors written. -/
def passes (pass : ReqId → Descq → Option ℕ × Descq) : ℕ → ℕ → Descq → Option (ℕ × Descq)
  | fuel, written, q =>
    match q.workList with
    | [] => some (written, q)
    | id :: _ =>
      match fuel with
      | 0 => none
      | fuel + 1 =>
        match pass id q with
        | (none, q) => some (written, q)
        | (some n, q) => passes pass fuel (u32 ((written : ℤ) + n)) q

/-- The end of a call after the loop. `doorbell` is the outcome of its write of the PIDX register,
if it comes to one. -/
def finishRequests (conf : QueueConf) (doorbell : Bool) (written : ℕ) (q : Descq) : ℤ × Descq :=
  if written = 0 then (0, { q with procReqRunning := false })
  else
    let q := { q with pendListEmpty := false, pidxInfoPidx := q.pidx }
    if doorbell then
      let q := descqPollMmNH2cCmplStatus conf { q with posted := q.pidxInfoPidx }
      (0, { q with procReqRunning := false })
    else (-EINVAL, q)

/-- The frame that `descq_mm_proc_request` and `descq_proc_st_h2c_request` share. -/
def procRequest (conf : QueueConf) (pass : ReqId → Descq → Option ℕ × Descq) (fuel : ℕ)
    (doorbell : Bool) (q : Descq) : Option (ℤ × Descq) :=
  if q.qStopWait then some (0, descqMmNH2cCmplStatus conf q)
  else if q.qState ≠ .online then some (0, q)
  else if q.procReqRunning then some (0, q)
  else
    (passes pass fuel 0 (descqPollMmNH2cCmplStatus conf q)).map fun r =>
      finishRequests conf doorbell r.1 r.2

/-- `descq_mm_proc_request`. -/
def descqMmProcRequest (conf : QueueConf) (fuel : ℕ) (doorbell : Bool) (q : Descq) :
    Option (ℤ × Descq) :=
  procRequest conf (mmPass conf) fuel doorbell q

/-- `descq_proc_st_h2c_request`. -/
def descqProcStH2cRequest (conf : QueueConf) (fuel : ℕ) (doorbell : Bool) (q : Descq) :
    Option (ℤ × Descq) :=
  procRequest conf (stPass conf) fuel doorbell q

/-- The loop of `descq_proc_st_h2c_request_qep` over the work list. -/
def qepFill (conf : QueueConf) (fill : Descq → ReqId → Fill) : ℕ → ℕ → Descq → Option (ℕ × Descq)
  | fuel, written, q =>
    if q.workReqPend = 0 ∨ q.avail = 0 then some (written, q)
    else
      match q.workList with
      | [] => some (written, q)
      | id :: _ =>
        match fuel with
        | 0 => none
        | fuel + 1 =>
          let (n, q) := fpBypassDescFill conf fill id q
          if n = 0 then some (written, q)
          else
            let written := u32 ((written : ℤ) + n)
            if written ≥ conf.pidxAcc then some (written, q) else qepFill conf fill fuel written q

/-- The rounds of `descq_proc_st_h2c_request_qep` from `setup_desc` on: whether the call is made
again after the lock was released, and the return value if not. -/
def qepRounds (conf : QueueConf) (fill : Descq → ReqId → Fill) :
    ℕ → Descq → Option (Option ℤ × Descq)
  | 0, _ => none
  | fuel + 1, q =>
    match qepFill conf fill fuel 0 q with
    | none => none
    | some (written, q) =>
      if written = 0 then
        some (if q.workReqPend ≠ 0 ∧ q.avail = conf.rngsz - 1 then none else some 0, q)
      else
        let q := { q with descPend := (q.descPend + written) % 2 ^ 8, pidxInfoPidx := q.pidx }
        match qdmaPidxUpdate conf q false with
        | (ret, q) =>
          if ret < 0 then some (some (-EINVAL), q)
          else if q.workReqPend ≠ 0 ∧ written ≥ conf.pidxAcc then qepRounds conf fill fuel q
          else some (some ret, q)

/-- `descq_proc_st_h2c_request_qep`, once it has the lock. -/
def descqProcStH2cRequestQep (conf : QueueConf) (fill : Descq → ReqId → Fill) :
    ℕ → Descq → Option (ℤ × Descq)
  | 0, _ => none
  | fuel + 1, q =>
    if q.qStopWait then some (0, descqMmNH2cCmplStatus conf q)
    else if q.qState ≠ .online then some (0, q)
    else
      match qepRounds conf fill fuel q with
      | none => none
      | some (some ret, q) => some (ret, q)
      | some (none, q) => (descqProcStH2cRequestQep conf fill fuel q).map fun r => (0, r.2)

/-- `qdma_descq_proc_sgt_request`. -/
def qdmaDescqProcSgtRequest (conf : QueueConf) (fuel : ℕ) (doorbell : Bool) (q : Descq) :
    Option (ℤ × Descq) :=
  if conf.st = false then descqMmProcRequest conf fuel doorbell q
  else if conf.qType = .h2c then
    match conf.ulExt with
    | some fill =>
      if conf.drvMode = .directIntr then descqProcStH2cRequestQep conf fill fuel q
      else descqProcStH2cRequest conf fuel doorbell q
    | none => descqProcStH2cRequest conf fuel doorbell q
  else some (-EINVAL, q)

/-- `qdma_descq_service_cmpl_update`. -/
def qdmaDescqServiceCmplUpdate (conf : QueueConf) (fuel : ℕ) (doorbell : Bool) (q : Descq) :
    Option (ℤ × Descq) :=
  if conf.drvMode = .poll ∨ conf.drvMode = .auto then
    if q.procReqRunning = false then
      (qdmaDescqProcSgtRequest conf fuel doorbell q).map fun r => (0, r.2)
    else some (0, q)
  else
    let q := descqMmNH2cCmplStatus conf q
    if q.workReqPend ≠ 0 ∨ q.descPend ≠ 0 then qdmaDescqProcSgtRequest conf fuel doorbell q
    else some (0, q)

/-- The input of a processing call: its fuel, the outcome of its last write of the PIDX register if
it comes to one, and the scripts of the hardware. -/
structure CallInput where
  fuel : ℕ
  doorbell : Bool := true
  advances : List ℕ := []
  doorbells : List Bool := []

/-- The queue with the scripts of a call. -/
def Descq.scripted (q : Descq) (inp : CallInput) : Descq :=
  { q with advances := inp.advances, doorbells := inp.doorbells }

/-- The queue after a call. One that never returns leaves no state to go on from. -/
def afterCall (q : Descq) : Option (ℤ × Descq) → Descq
  | none => q
  | some r => r.2

end OnicDriver.H2c
