import OnicDriver.Queue.Descq

/-!
# Queues with requests

A translation of the queues whose descriptors are made from requests: memory
mapped queues of both directions, and streaming H2C queues. The hardware
consumes descriptors that were posted to it and writes back how far it is; the
requests whose descriptors it has consumed are done.
-/

namespace OnicDriver.H2c

open Lib Queue

/-- A pointer to a request. -/
abbrev ReqId := ℕ

/-- `struct qdma_sgt_req_cb`, kept in the request. -/
structure SgtReqCb where
  descNr : ℕ := 0
  offset : ℕ := 0
  status : ℤ := 0
  done : Bool := false
  unmapNeeded : Bool := false
  deriving DecidableEq, Repr

/-- `struct qdma_mm_desc`. -/
structure MmDesc where
  srcAddr : ℕ := 0
  flagLen : ℕ := 0
  dstAddr : ℕ := 0
  deriving DecidableEq, Repr

/-- `struct qdma_h2c_desc`. -/
structure H2cDesc where
  cdhFlags : ℕ := 0
  pldLen : ℕ := 0
  len : ℕ := 0
  flags : ℕ := 0
  srcAddr : ℕ := 0
  deriving DecidableEq, Repr

/-- The page mappings of the requests: the addresses of those that exist, and whether one was
undone that did not. -/
structure Dma where
  mapped : List ℕ := []
  fault : Bool := false
  deriving DecidableEq, Repr

/-- `pci_unmap_page`. -/
def Dma.unmap (addr : ℕ) (d : Dma) : Dma :=
  if addr ∈ d.mapped then { d with mapped := d.mapped.erase addr } else { d with fault := true }

/-- The end of a request: a call of `fp_done`, or its waiter is woken. -/
inductive Completion
  | fpDone (id : ReqId) (bytes error : ℤ)
  | woken (id : ReqId) (error : ℤ)
  deriving DecidableEq, Repr

/-- `struct qdma_descq` with the requests, the two kinds of descriptors, the PIDX register and the
page mappings. `advances` are the numbers of descriptors that the hardware consumes before each
later read of its write-back, and `doorbells` the outcomes of the later PIDX writes of completion
processing. `owners` are the requests of the descriptors that are not yet completed, the oldest
first, and `written` counts the descriptors. -/
structure Descq where
  qState : QState := .online
  qStopWait : Bool := false
  procReqRunning : Bool := false
  pendListEmpty : Bool := true
  pidx : ℕ := 0
  cidx : ℕ := 0
  avail : ℕ
  credit : ℕ := 0
  descPend : ℕ := 0
  pidxInfoPidx : ℕ := 0
  posted : ℕ := 0
  workReqPend : ℕ := 0
  workList : List ReqId := []
  pendList : List ReqId := []
  req : ReqId → QdmaRequest := fun _ => {}
  cb : ReqId → SgtReqCb := fun _ => {}
  mmDesc : ℕ → MmDesc := fun _ => {}
  h2cDesc : ℕ → H2cDesc := fun _ => {}
  dma : Dma := {}
  advances : List ℕ := []
  doorbells : List Bool := []
  owners : List ReqId := []
  written : ℕ := 0
  completions : List Completion := []

/-- A request that is put on the work list. -/
structure Submission where
  id : ReqId
  req : QdmaRequest
  cb : SgtReqCb := {}
  deriving DecidableEq, Repr

/-- What one call of the fill callback does: the numbers of descriptors it asks for one after the
other, the requests that are queued meanwhile, and the number of bytes if it reports the
descriptors it got. -/
structure Fill where
  gets : List ℕ
  queued : List Submission := []
  dataCnt : Option ℕ := none
  deriving DecidableEq, Repr

/-- `struct qdma_queue_conf` of a queue that was started. A streaming C2H queue has no descriptors
of its requests, and there are no streaming completion queues. `drvMode` is the mode of the device,
and the callback, client code that sees the queue, decides what to do from its state. -/
structure QueueConf where
  st : Bool
  qType : QType
  rngsz : ℕ
  apertureSize : ℕ := 0
  descBypass : Bool := false
  pidxAcc : ℕ := 0
  drvMode : DrvMode := .directIntr
  fpBypassDescFill : Option (Descq → ReqId → Fill) := none
  rngsz_pos : 0 < rngsz
  rngsz_lt : rngsz < 2 ^ 32
  pidxAcc_lt : pidxAcc < 2 ^ 8
  st_h2c : st = true → qType = .h2c

/-- The queue as `qdma_descq_config_complete` leaves it, brought online. -/
def QueueConf.start (conf : QueueConf) : Descq := { avail := conf.rngsz - 1 }

/-! ## Lists -/

namespace Descq

def setCb (q : Descq) (id : ReqId) (cb : SgtReqCb) : Descq :=
  { q with cb := Function.update q.cb id cb }

def setReq (q : Descq) (id : ReqId) (req : QdmaRequest) : Descq :=
  { q with req := Function.update q.req id req }

/-- `list_del` of a request, whichever list it is on. -/
def listDel (q : Descq) (id : ReqId) : Descq :=
  { q with workList := q.workList.erase id, pendList := q.pendList.erase id }

end Descq

/-- `qdma_work_queue_add`. -/
def qdmaWorkQueueAdd (q : Descq) (id : ReqId) : Descq :=
  { q with workList := q.workList ++ [id], workReqPend := u32 (q.workReqPend + 1) }

/-- A request is put on the work list. -/
def enqueue (q : Descq) (s : Submission) : Descq :=
  qdmaWorkQueueAdd ((q.setReq s.id s.req).setCb s.id s.cb) s.id

/-- `qdma_work_queue_del`. -/
def qdmaWorkQueueDel (q : Descq) (id : ReqId) : Descq :=
  { q.listDel id with workReqPend := u32 (q.workReqPend - 1) }

/-! ## Requests -/

/-- The loop of `qdma_sgl_find_offset` from element `i` on, after `len` bytes. -/
def findOffset (offset : ℕ) : ℕ → ℕ → List SwSg → Option (ℕ × ℕ)
  | _, _, [] => none
  | i, len, sg :: sgl =>
    let len := u32 (len + sg.len)
    if len = offset then if sgl = [] then none else some (i + 1, 0)
    else if offset < len then some (i, u32 (sg.len - (len - offset)))
    else findOffset offset (i + 1) len sgl

/-- `qdma_sgl_find_offset`: the element and the offset into it, `none` for `-EINVAL`. -/
def qdmaSglFindOffset (req : QdmaRequest) (cb : SgtReqCb) : Option (ℕ × ℕ) :=
  if req.count = 0 then some (0, 0) else findOffset cb.offset 0 0 (req.sgl.take req.sgcnt)

/-- `qdma_update_request`. -/
def qdmaUpdateRequest (q : Descq) (id : ReqId) (numDesc dataCnt : ℕ) : Descq :=
  let cb := { q.cb id with
    descNr := (q.cb id).descNr + numDesc, offset := u32 ((q.cb id).offset + dataCnt) }
  let q := q.setCb id cb
  if cb.offset ≥ (q.req id).count then
    let q := qdmaWorkQueueDel q id
    { q with pendList := q.pendList ++ [id] }
  else q

/-- `sgl_unmap`, which stops at the first element without a page. -/
def sglUnmap : List SwSg → Dma → List SwSg × Dma
  | [], d => ([], d)
  | sg :: sgl, d =>
    if sg.pg = 0 then (sg :: sgl, d)
    else if sg.dmaAddr ≠ 0 then
      let (sgl, d) := sglUnmap sgl (d.unmap (u64 (sg.dmaAddr - sg.offset)))
      ({ sg with dmaAddr := 0 } :: sgl, d)
    else
      let (sgl, d) := sglUnmap sgl d
      (sg :: sgl, d)

/-- The elements of the list of a request. -/
def elems (req : QdmaRequest) : List SwSg := req.sgl.take req.sgcnt

/-- The request with other elements of its list. -/
def withElems (req : QdmaRequest) (sgl : List SwSg) : QdmaRequest :=
  { req with sgl := sgl ++ req.sgl.drop req.sgcnt }

/-- `sgl_unmap` of a request. -/
def sglUnmapReq (q : Descq) (id : ReqId) : Descq :=
  let (sgl, dma) := sglUnmap (elems (q.req id)) q.dma
  { q.setReq id (withElems (q.req id) sgl) with dma := dma }

/-- The first part of `qdma_sgt_req_done`: the request is taken off its list and unmapped if that
is needed. -/
def unlinkReq (q : Descq) (id : ReqId) : Descq :=
  let q := q.listDel id
  if (q.cb id).unmapNeeded then sglUnmapReq q id else q

/-- `qdma_sgt_req_done` on a queue with requests. -/
def qdmaSgtReqDone (conf : QueueConf) (q : Descq) (id : ReqId) (error : ℤ) : Descq :=
  let q := unlinkReq q id
  let cb := { q.cb id with unmapNeeded := false, done := true }
  let q :=
    if (q.req id).fpDone then
      let error := if cb.offset ≠ (q.req id).count then -EINVAL else error
      { q.setCb id { cb with status := error } with
        completions := q.completions ++ [Completion.fpDone id cb.offset error] }
    else
      { q.setCb id { cb with status := error } with
        completions := q.completions ++ [Completion.woken id error] }
  { q with pendListEmpty := q.avail == conf.rngsz - 1 }

/-! ## Completion status -/

/-- `queue_pidx_update` of completion processing: whether the register was written. -/
def queuePidxUpdate (q : Descq) : Bool × Descq :=
  match q.doorbells with
  | false :: rest => (false, { q with doorbells := rest })
  | true :: rest => (true, { q with doorbells := rest, posted := q.pidxInfoPidx })
  | [] => (true, { q with posted := q.pidxInfoPidx })

/-- `qdma_pidx_update`. The accumulation limit is subtracted as an unsigned number. -/
def qdmaPidxUpdate (conf : QueueConf) (q : Descq) (force : Bool) : ℤ × Descq :=
  if force = true ∨ q.avail > u32 ((conf.rngsz : ℤ) - 1 - conf.pidxAcc) ∨
      ¬ q.descPend < conf.pidxAcc then
    match queuePidxUpdate q with
    | (true, q) => (0, { q with descPend := 0 })
    | (false, q) => (-EINVAL, q)
  else (0, q)

/-- The hardware consumes some of the descriptors that were posted and writes its index, which is
then read. -/
def readCmplStatus (conf : QueueConf) (q : Descq) : ℕ × Descq :=
  match q.advances with
  | [] => (q.cidx, q)
  | n :: rest =>
    let n := min n (ringIdxDelta q.posted q.cidx conf.rngsz)
    (ringIdxIncr q.cidx n conf.rngsz, { q with advances := rest })

/-- The loop of `descq_mm_n_h2c_cmpl_status` over the pending list: the credits that are
left. -/
def completeRequests (conf : QueueConf) : ℕ → List ReqId → Descq → ℕ × Descq
  | cr, [], q => (cr, q)
  | cr, id :: pend, q =>
    let descNr := (q.cb id).descNr
    if cr ≥ descNr then
      let q := qdmaSgtReqDone conf q id 0
      if cr - descNr = 0 then (0, q) else completeRequests conf (cr - descNr) pend q
    else (0, q.setCb id { q.cb id with descNr := descNr - cr })

/-- `descq_mm_n_h2c_cmpl_status`. -/
def descqMmNH2cCmplStatus (conf : QueueConf) (q : Descq) : Descq :=
  if q.pidx = q.cidx then q
  else
    let (cidxHw, q) := readCmplStatus conf q
    if cidxHw = q.cidx then q
    else
      let cr := if cidxHw < q.cidx then conf.rngsz - q.cidx + cidxHw else cidxHw - q.cidx
      let q := { q with
        cidx := cidxHw, avail := q.avail + cr, credit := q.credit + cr, owners := q.owners.drop cr }
      let (cr, q) := completeRequests conf q.credit q.pendList q
      (qdmaPidxUpdate conf { q with credit := cr } true).2

/-- `descq_poll_mm_n_h2c_cmpl_status`. -/
def descqPollMmNH2cCmplStatus (conf : QueueConf) (q : Descq) : Descq :=
  if conf.drvMode = .poll ∨ conf.drvMode = .auto then
    descqMmNH2cCmplStatus conf { q with procReqRunning := true }
  else q

/-! ## Fill callbacks -/

/-- `qdma_q_desc_get` by the callback for a request: the number of descriptors it gets. -/
def qdmaQDescGet (conf : QueueConf) (id : ReqId) (descCnt : ℕ) (q : Descq) : ℕ × Descq :=
  if descCnt ≥ conf.rngsz then (0, q)
  else
    let q := if q.avail < descCnt then descqMmNH2cCmplStatus conf q else q
    if q.avail < descCnt then (0, q)
    else
      (descCnt,
        { q with
          pidx := ringIdxIncr q.pidx descCnt conf.rngsz
          avail := q.avail - descCnt
          owners := q.owners ++ List.replicate descCnt id
          written := q.written + descCnt })

/-- The descriptors that the callback gets one after the other. -/
def getDescs (conf : QueueConf) (id : ReqId) : List ℕ → Descq → ℕ × Descq
  | [], q => (0, q)
  | n :: gets, q =>
    let (got, q) := qdmaQDescGet conf id n q
    let (rest, q) := getDescs conf id gets q
    (got + rest, q)

/-- A call of `fp_bypass_desc_fill`, which returns the number of descriptors it got. -/
def fpBypassDescFill (conf : QueueConf) (fill : Descq → ReqId → Fill) (id : ReqId) (q : Descq) :
    ℕ × Descq :=
  let f := fill q id
  let (n, q) := getDescs conf id f.gets q
  let q := f.queued.foldl enqueue q
  match f.dataCnt with
  | none => (n, q)
  | some dataCnt => (n, qdmaUpdateRequest q id n dataCnt)

end OnicDriver.H2c
