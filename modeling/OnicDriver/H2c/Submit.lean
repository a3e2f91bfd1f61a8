import OnicDriver.H2c.Control

/-!
# Submission of requests

A translation of `sgl_map` and of the calls that submit requests:
`qdma_request_submit` with the wait for its completion,
`qdma_batch_request_submit`, and `qdma_queue_packet_write` in its two halves, since
it puts the request on the work list before it maps it. The outcomes of
`pci_map_page` are given: a bus address, or an error.
-/

namespace OnicDriver.H2c

open Lib Queue

/-- `DMA_MAPPING_ERROR`. -/
def DMA_MAPPING_ERROR : ℕ := 2 ^ 64 - 1

/-- The loop of `sgl_map`: the number of elements that were mapped, the list, and the mappings. -/
def mapPages : List (Option ℕ) → List SwSg → Dma → ℕ × List SwSg × Dma
  | _, [], d => (0, [], d)
  | some addr :: maps, sg :: sgl, d =>
    let (n, sgl, d) := mapPages maps sgl { d with mapped := addr :: d.mapped }
    (n + 1, { sg with dmaAddr := u64 ((addr : ℤ) + sg.offset) } :: sgl, d)
  | _, sg :: sgl, d => (0, { sg with dmaAddr := DMA_MAPPING_ERROR } :: sgl, d)

/-- `sgl_map`: whether all elements were mapped. On a failure those before it are unmapped. -/
def sglMap (maps : List (Option ℕ)) (sgl : List SwSg) (d : Dma) : Bool × List SwSg × Dma :=
  let (n, sgl, d) := mapPages maps sgl d
  if n = sgl.length then (true, sgl, d)
  else
    let (front, d) := sglUnmap (sgl.take n) d
    (false, front ++ sgl.drop n, d)

/-- `sgl_map` of a request. -/
def sglMapReq (q : Descq) (id : ReqId) (maps : List (Option ℕ)) : Bool × Descq :=
  let (ok, sgl, dma) := sglMap maps (elems (q.req id)) q.dma
  (ok, { q.setReq id (withElems (q.req id) sgl) with dma := dma })

/-- The queue with the callers of `qdma_request_submit` that wait for their requests, and the
packet writes between their two halves. -/
structure Clients where
  q : Descq
  waiting : List ReqId := []
  writing : List ReqId := []

/-- The check of the direction of a request. -/
def badDirection (conf : QueueConf) (req : QdmaRequest) : Bool :=
  (req.write ∧ conf.qType ≠ .h2c) ∨ (req.write = false ∧ conf.qType ≠ .c2h)

/-- `unmap_sgl` of `qdma_request_submit`. -/
def unmapSgl (q : Descq) (id : ReqId) : Descq :=
  if (q.req id).dmaMapped then q else sglUnmapReq q id

/-- The request is mapped unless its client did. -/
def mapForSubmit (q : Descq) (id : ReqId) (maps : List (Option ℕ)) : Bool × Descq :=
  if (q.req id).dmaMapped then (true, q)
  else
    let (ok, q) := sglMapReq q id maps
    if ok then (true, q.setCb id { q.cb id with unmapNeeded := true }) else (false, q)

/-- `qdma_request_submit` up to where it waits. -/
def qdmaRequestSubmit (conf : QueueConf) (id : ReqId) (req : QdmaRequest)
    (maps : List (Option ℕ)) (inp : CallInput) (s : Clients) : ℤ × Clients :=
  let q := s.q.setReq id req
  if conf.qType = .cmpt ∨ badDirection conf req then (-EINVAL, { s with q := q })
  else
    let (ok, q) := mapForSubmit (q.setCb id {}) id maps
    if ok = false then (- EIO, { s with q := unmapSgl q id })
    else if q.qState ≠ .online then (-EINVAL, { s with q := unmapSgl q id })
    else
      let q := qdmaWorkQueueAdd q id
      let q := afterCall (q.scripted inp)
        (qdmaDescqProcSgtRequest conf inp.fuel inp.doorbell (q.scripted inp))
      (0, { s with q := q, waiting := if req.fpDone then s.waiting else s.waiting ++ [id] })

/-- The rest of `qdma_request_submit` from `qdma_request_wait_for_cmpl` on, when the caller was
woken or its time is over. -/
def qdmaRequestWaitForCmpl (id : ReqId) (s : Clients) : ℤ × Clients :=
  let waiting := s.waiting.erase id
  if (s.q.cb id).done = false then
    (- EIO, { s with q := unmapSgl (s.q.listDel id) id, waiting := waiting })
  else if (s.q.cb id).status ≠ 0 then
    (- EIO, { s with q := unmapSgl s.q id, waiting := waiting })
  else ((s.q.cb id).offset, { s with waiting := waiting })

/-- A request of a batch with the outcomes of its mappings. -/
structure BatchItem where
  id : ReqId
  req : QdmaRequest
  maps : List (Option ℕ) := []
  deriving DecidableEq, Repr

/-- The first loop of `qdma_batch_request_submit` on a request. -/
def batchMap (q : Descq) (item : BatchItem) : Descq :=
  let q := (q.setReq item.id item.req).setCb item.id {}
  if item.req.dmaMapped then q
  else
    let (ok, q) := sglMapReq q item.id item.maps
    let q :=
      if ok then q
      else { q with completions := q.completions ++ [Completion.fpDone item.id 0 (- EIO)] }
    q.setCb item.id { q.cb item.id with unmapNeeded := true }

/-- The second loop of `qdma_batch_request_submit` on a request. -/
def batchAdd (q : Descq) (item : BatchItem) : Descq :=
  { q with workList := q.workList ++ [item.id] }

/-- `qdma_batch_request_submit` of the requests `first :: rest`. -/
def qdmaBatchRequestSubmit (conf : QueueConf) (first : BatchItem) (rest : List BatchItem)
    (inp : CallInput) (q : Descq) : ℤ × Descq :=
  if conf.qType = .cmpt ∨ badDirection conf first.req ∨ first.req.fpDone = false then (-EINVAL, q)
  else
    let q := (first :: rest).foldl batchMap q
    if q.qState ≠ .online then (-EINVAL, q)
    else
      let q := (first :: rest).foldl batchAdd q
      (0, afterCall (q.scripted inp)
        (qdmaDescqProcSgtRequest conf inp.fuel inp.doorbell (q.scripted inp)))

/-- `qdma_queue_packet_write` up to `qdma_work_queue_add`. -/
def packetWriteAdd (conf : QueueConf) (sub : Submission) (s : Clients) : ℤ × Clients :=
  if conf.st = false ∨ conf.qType = .c2h then (-EINVAL, s)
  else (0, { s with q := enqueue s.q sub, writing := s.writing ++ [sub.id] })

/-- `qdma_queue_packet_write` from there on. -/
def packetWriteMap (conf : QueueConf) (id : ReqId) (maps : List (Option ℕ)) (inp : CallInput)
    (s : Clients) : ℤ × Clients :=
  let s := { s with writing := s.writing.erase id }
  let (ok, q) := mapForSubmit s.q id maps
  let unmap := fun q : Descq => if (q.cb id).unmapNeeded then sglUnmapReq q id else q
  if ok = false then (- EIO, { s with q := unmap q })
  else if (q.req id).checkQstateDisabled = false ∧ q.qState ≠ .online then
    (-EINVAL, { s with q := unmap q })
  else
    let q' := afterCall (q.scripted inp)
      (qdmaDescqProcSgtRequest conf inp.fuel inp.doorbell (q.scripted inp))
    (s32 (q.req id).count, { s with q := q' })

end OnicDriver.H2c
