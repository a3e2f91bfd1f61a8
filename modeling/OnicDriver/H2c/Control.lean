import OnicDriver.H2c.Ring

/-!
# Stop and start of a queue with requests

A translation of the two halves of `qdma_queue_stop`, between which it waits
for the pending list, and of what `qdma_queue_start` does to the queue.
-/

namespace OnicDriver.H2c

open Lib Queue

/-- `qdma_queue_stop` up to where it waits. -/
def qdmaQueueStopBegin (q : Descq) : ℤ × Descq :=
  if q.qState ≠ .online then (-EINVAL, q) else (0, { q with qStopWait := true })

/-- What the end of `qdma_queue_stop` does to a request on a list. `del` takes it off. -/
def stopRequest (del : Descq → ReqId → Descq) (q : Descq) (id : ReqId) : Descq :=
  let q := q.setCb id { q.cb id with done := true, status := - ENXIO }
  if (q.req id).fpDone then
    let q := del q id
    { q with completions := q.completions ++ [Completion.fpDone id 0 (- ENXIO)] }
  else { q with completions := q.completions ++ [Completion.woken id (- ENXIO)] }

/-- `qdma_queue_stop` from where it waited on. -/
def qdmaQueueStopEnd (q : Descq) : Descq :=
  let q := { q with qState := .enabled, qStopWait := false }
  let q := q.pendList.foldl (stopRequest Descq.listDel) q
  q.workList.foldl (stopRequest qdmaWorkQueueDel) q

/-- `qdma_queue_start`. The rings are new and the hardware is programmed anew; `ok` tells whether
that succeeds. -/
def qdmaQueueStart (conf : QueueConf) (ok : Bool) (q : Descq) : ℤ × Descq :=
  if q.qState ≠ .enabled then (-EINVAL, q)
  else
    let q := { q with
      avail := conf.rngsz - 1, pendListEmpty := true, pidx := 0, cidx := 0, credit := 0
      workReqPend := 0, mmDesc := fun _ => {}, h2cDesc := fun _ => {}, posted := 0, owners := [] }
    if ok then (0, { q with qState := .online }) else (- EIO, q)

end OnicDriver.H2c
