import OnicDriver.Kernel
import Mathlib.Data.Nat.Log
import Mathlib.Logic.Function.Basic

/-!
# The free list of a streaming C2H queue

A translation of the page and buffer management of `qdma_st_c2h.c`. A free
list cuts pages into buffers of one size; `alloc_idx` is the page that
buffers are cut from and `recycle_idx` the oldest page not replaced yet.
Arrays are functions of their index, and a null page is page 0.
-/

namespace OnicDriver.C2h

open Lib

/-- `struct qdma_sw_pg_sg`. -/
structure PgSdesc where
  pgBase : ℕ := 0
  pgDmaBaseAddr : ℕ := 0
  pgOffset : ℕ := 0
  deriving DecidableEq, Repr

/-- `struct qdma_sdesc_info`. -/
structure SdescInfo where
  valid : Bool := false
  sop : Bool := false
  eop : Bool := false
  cidx : ℕ := 0
  deriving DecidableEq, Repr

/-- `struct qdma_flq`, with the bus addresses written to the descriptors. -/
structure Flq where
  size : ℕ
  descBufSize : ℕ
  descPgShift : ℕ
  maxPgOffset : ℕ
  numBufsPerPg : ℕ := 0
  numPages : ℕ := 0
  numPgsMask : ℕ := 0
  allocIdx : ℕ := 0
  recycleIdx : ℕ := 0
  allocFail : ℕ := 0
  mappingErr : ℕ := 0
  pktDlen : ℕ := 0
  uddCnt : ℕ := 0
  pidxPend : ℕ := 0
  pgSdesc : ℕ → PgSdesc := fun _ => {}
  sdesc : ℕ → SwSg := fun _ => { len := 0 }
  sdescInfo : ℕ → SdescInfo := fun _ => {}
  dstAddr : ℕ → ℕ := fun _ => 0

/-- The reference counts of all pages, and the calls of the page allocator so far. -/
structure PageHeap where
  refs : ℕ → ℕ := fun _ => 0
  calls : ℕ := 0

/-- The page allocator, which may look at the reference counts, and the bus addresses of
pages that can be mapped. -/
structure PageEnv where
  allocPages : ℕ → (ℕ → ℕ) → Option ℕ
  dmaMapPage : ℕ → Option ℕ

/-- A queue's free list and descriptor count together with the pages of the system. -/
structure FlqState where
  flq : Flq
  heap : PageHeap := {}
  avail : ℕ := 0

def PageHeap.getPage (h : PageHeap) (pg : ℕ) : PageHeap :=
  { h with refs := Function.update h.refs pg (h.refs pg + 1) }

/-- `n` calls of `put_page`. -/
def PageHeap.putPage (h : PageHeap) (pg n : ℕ) : PageHeap :=
  { h with refs := Function.update h.refs pg (h.refs pg - n) }

def Flq.setPgSdesc (flq : Flq) (slot : ℕ) (p : PgSdesc) : Flq :=
  { flq with pgSdesc := Function.update flq.pgSdesc slot p }

/-! ## Single pages and buffers -/

/-- `flq_free_one`. -/
def flqFreeOne (flq : Flq) (idx : ℕ) : Flq :=
  let sdesc := flq.sdesc idx
  let dstAddr := if sdesc.dmaAddr ≠ 0 then Function.update flq.dstAddr idx 0 else flq.dstAddr
  let sdesc := if sdesc.dmaAddr ≠ 0 then { sdesc with dmaAddr := 0 } else sdesc
  let sdesc := if sdesc.pg ≠ 0 then { sdesc with pg := 0, offset := 0 } else sdesc
  { flq with sdesc := Function.update flq.sdesc idx sdesc, dstAddr := dstAddr }

/-- `flq_fill_one` for the buffer size `c2hBufsz` of the configuration. -/
def flqFillOne (c2hBufsz : ℕ) (flq : Flq) (heap : PageHeap) (idx : ℕ) : ℤ × Flq × PageHeap :=
  if flq.numPages = 0 then (-EINVAL, flq, heap)
  else
    let pgIdx := flq.allocIdx &&& flq.numPgsMask
    let pgSdesc := flq.pgSdesc pgIdx
    if pgIdx ≥ flq.numPages then (-EINVAL, flq, heap)
    else if pgSdesc.pgBase = 0 then (-EINVAL, flq, heap)
    else if pgSdesc.pgOffset + flq.descBufSize > flq.maxPgOffset then (-ENOMEM, flq, heap)
    else
      let sdesc : SwSg :=
        { pg := pgSdesc.pgBase, offset := pgSdesc.pgOffset, len := c2hBufsz
          dmaAddr := pgSdesc.pgDmaBaseAddr + pgSdesc.pgOffset }
      let filled := { pgSdesc with pgOffset := pgSdesc.pgOffset + flq.descBufSize }
      let flq := { flq with
        sdesc := Function.update flq.sdesc idx sdesc
        dstAddr := Function.update flq.dstAddr idx sdesc.dmaAddr
        pgSdesc := Function.update flq.pgSdesc pgIdx filled }
      let allocIdx := if filled.pgOffset + flq.descBufSize > flq.maxPgOffset then
        u32 (flq.allocIdx + 1) else flq.allocIdx
      (0, { flq with allocIdx := allocIdx }, heap.getPage pgSdesc.pgBase)

/-- `flq_fill_page_one`. -/
def flqFillPageOne (env : PageEnv) (flq : Flq) (heap : PageHeap) (slot : ℕ) :
    ℤ × Flq × PageHeap :=
  match env.allocPages heap.calls heap.refs with
  | none => (-ENOMEM, flq, { heap with calls := heap.calls + 1 })
  | some pg =>
    match env.dmaMapPage pg with
    | none => (-EINVAL, flq, { refs := Function.update heap.refs pg 0, calls := heap.calls + 1 })
    | some mapping =>
      (0, flq.setPgSdesc slot { pgBase := pg, pgDmaBaseAddr := mapping, pgOffset := 0 },
        { refs := Function.update heap.refs pg 1, calls := heap.calls + 1 })

/-- `flq_free_page_one`. -/
def flqFreePageOne (flq : Flq) (heap : PageHeap) (slot : ℕ) : Flq × PageHeap :=
  let pgSdesc := flq.pgSdesc slot
  if pgSdesc.pgBase = 0 then (flq, heap)
  else
    (flq.setPgSdesc slot { pgSdesc with pgBase := 0, pgDmaBaseAddr := 0 },
      heap.putPage pgSdesc.pgBase (pgSdesc.pgOffset / 2 ^ flq.descPgShift + 1))

/-! ## Setting up the free list -/

/-- `get_next_powof2` for a positive value. -/
def getNextPowof2 (value : ℕ) : ℕ :=
  let numBits := Nat.log2 value
  let mask := 2 ^ numBits - 1
  (value + mask) / 2 ^ numBits * 2 ^ numBits

/-- The number of pages that `descq_flq_alloc_resource` sets up. -/
def flqNumPages (size numBufsPerPg : ℕ) : ℕ :=
  let numPages := size / numBufsPerPg + if size % numBufsPerPg = 0 then 0 else 1
  let numPages := getNextPowof2 numPages
  if numPages < size then numPages * 2 else numPages

/-- The page loop of `descq_flq_alloc_resource`: the slots from `slot` on. -/
def fillPages (env : PageEnv) : ℕ → ℕ → Flq → PageHeap → ℤ × Flq × PageHeap
  | 0, _, flq, heap => (0, flq, heap)
  | n + 1, slot, flq, heap =>
    match flqFillPageOne env flq heap slot with
    | (rv, flq, heap) => if rv < 0 then (rv, flq, heap) else fillPages env n (slot + 1) flq heap

/-- The descriptor loop of `descq_flq_alloc_resource`: the descriptors from `idx` on. -/
def fillDescs (c2hBufsz : ℕ) : ℕ → ℕ → Flq → PageHeap → ℤ × Flq × PageHeap
  | 0, _, flq, heap => (0, flq, heap)
  | n + 1, idx, flq, heap =>
    match flqFillOne c2hBufsz flq heap idx with
    | (rv, flq, heap) => if rv < 0 then (rv, flq, heap) else fillDescs c2hBufsz n (idx + 1) flq heap

/-- The loop of `descq_flq_free_page_resource`: the slots from `slot` on. -/
def freePages : ℕ → ℕ → Flq → PageHeap → Flq × PageHeap
  | 0, _, flq, heap => (flq, heap)
  | n + 1, slot, flq, heap =>
    match flqFreePageOne flq heap slot with
    | (flq, heap) => freePages n (slot + 1) flq heap

/-- `descq_flq_free_page_resource`, which clears the whole free list. -/
def descqFlqFreePageResource (flq : Flq) (heap : PageHeap) : Flq × PageHeap :=
  ({ size := 0, descBufSize := 0, descPgShift := 0, maxPgOffset := 0 },
    (freePages flq.numPages 0 flq heap).2)

/-- `descq_flq_alloc_resource`. The arguments `pgSdescOk` and `sdescOk` tell whether the
two arrays can be allocated. -/
def descqFlqAllocResource (env : PageEnv) (c2hBufsz : ℕ) (pgSdescOk sdescOk : Bool)
    (flq : Flq) (heap : PageHeap) : ℤ × Flq × PageHeap :=
  let flq := { flq with numBufsPerPg := flq.maxPgOffset / 2 ^ flq.descPgShift }
  if flq.numBufsPerPg = 0 then (-EINVAL, flq, heap)
  else
    let numPages := flqNumPages flq.size flq.numBufsPerPg
    let flq := { flq with numPages := numPages, numPgsMask := numPages - 1 }
    if pgSdescOk = false then (-ENOMEM, flq, heap)
    else match fillPages env flq.numPages 0 { flq with pgSdesc := fun _ => {} } heap with
    | (rv, flq, heap) =>
      if rv < 0 then (rv, descqFlqFreePageResource flq heap)
      else if sdescOk = false then (-ENOMEM, descqFlqFreePageResource flq heap)
      else
        let flq := { flq with
          sdesc := fun _ => { len := 0 }, sdescInfo := fun _ => {}, allocIdx := 0 }
        match fillDescs c2hBufsz flq.size 0 flq heap with
        | (rv, flq, heap) =>
          if rv < 0 then (rv, descqFlqFreePageResource flq heap) else (0, flq, heap)

/-! ## Refilling -/

/-- The first loop of `flq_refill_pages`: give back `left` buffers, oldest page first. The
result is `none` if the loop has not ended after `fuel` rounds. References are dropped
unless they were passed on with the packet. -/
def returnBufs (passedOn recycle : Bool) : ℕ → ℕ → ℕ → Flq → PageHeap →
    Option (ℕ × Flq × PageHeap)
  | fuel, left, nRecycleIndex, flq, heap =>
    if left = 0 then some (nRecycleIndex, flq, heap)
    else match fuel with
    | 0 => none
    | fuel + 1 =>
      let slot := nRecycleIndex &&& flq.numPgsMask
      let pgSdesc := flq.pgSdesc slot
      let freeBufsInPg := min (pgSdesc.pgOffset / 2 ^ flq.descPgShift) left
      let pgOffset := pgSdesc.pgOffset - freeBufsInPg * flq.descBufSize
      let heap := if recycle = false ∧ passedOn = false then
        heap.putPage pgSdesc.pgBase freeBufsInPg else heap
      returnBufs passedOn recycle fuel (left - freeBufsInPg)
        (if pgOffset = 0 then u32 (nRecycleIndex + 1) else nRecycleIndex)
        (flq.setPgSdesc slot { pgSdesc with pgOffset := pgOffset }) heap

/-- The second loop of `flq_refill_pages`: replace the used-up pages behind `alloc_idx`.
The first argument is the distance to `alloc_idx`. -/
def replacePages (env : PageEnv) : ℕ → Flq → PageHeap → Flq × PageHeap
  | 0, flq, heap => (flq, heap)
  | n + 1, flq, heap =>
    let slot := flq.recycleIdx &&& flq.numPgsMask
    let pgSdesc := flq.pgSdesc slot
    if pgSdesc.pgOffset ≠ 0 then (flq, heap)
    else
      let flq := flq.setPgSdesc slot { pgSdesc with pgDmaBaseAddr := 0 }
      match flqFillPageOne env flq (heap.putPage pgSdesc.pgBase 1) slot with
      | (rv, flq, heap) =>
        if rv < 0 then (flq, heap)
        else replacePages env n { flq with recycleIdx := u32 (flq.recycleIdx + 1) } heap

/-- Rounds after which the first loop of `flq_refill_pages` can no longer end: a whole turn
over the pages for each buffer. -/
def refillFuel (flq : Flq) (count : ℕ) : ℕ := count * (flq.numPages + 1)

/-- `flq_refill_pages`; `none` if it never returns. -/
def flqRefillPages (env : PageEnv) (passedOn recycle : Bool) (count : ℕ) (flq : Flq)
    (heap : PageHeap) : Option (Flq × PageHeap) :=
  (returnBufs passedOn recycle (refillFuel flq count) count flq.recycleIdx flq heap).map
    fun (nRecycleIndex, flq, heap) =>
      if recycle then ({ flq with recycleIdx := nRecycleIndex }, heap)
      else replacePages env (u32 (flq.allocIdx - flq.recycleIdx)) flq heap

/-- `sinfo->fbits = 0`. -/
def Flq.clearFlags (flq : Flq) (idx : ℕ) : Flq :=
  let sinfo := { flq.sdescInfo idx with valid := false, sop := false, eop := false }
  { flq with sdescInfo := Function.update flq.sdescInfo idx sinfo }

/-- The loop of `qdma_flq_refill`: the number of entries refilled, and the state. -/
def refillEntries (c2hBufsz : ℕ) (recycle : Bool) : ℕ → ℕ → FlqState → ℕ × FlqState
  | 0, _, st => (0, st)
  | n + 1, idx, st =>
    let idx := if idx = st.flq.size then 0 else idx
    if recycle then
      let sdesc := { st.flq.sdesc idx with len := c2hBufsz }
      let flq := { st.flq with sdesc := Function.update st.flq.sdesc idx sdesc }
      let r := refillEntries c2hBufsz recycle n (idx + 1)
        { st with flq := flq.clearFlags idx, avail := u32 (st.avail + 1) }
      (r.1 + 1, r.2)
    else
      match flqFillOne c2hBufsz (flqFreeOne st.flq idx) st.heap idx with
      | (rv, flq, heap) =>
        if rv < 0 then
          let flq := if rv = -ENOMEM then { flq with allocFail := flq.allocFail + 1 }
            else { flq with mappingErr := flq.mappingErr + 1 }
          (0, { st with flq := flq, heap := heap })
        else
          let r := refillEntries c2hBufsz recycle n (idx + 1)
            { flq := flq.clearFlags idx, heap := heap, avail := u32 (st.avail + 1) }
          (r.1 + 1, r.2)

/-- `qdma_flq_refill`; `none` if it never returns. -/
def qdmaFlqRefill (env : PageEnv) (c2hBufsz : ℕ) (passedOn : Bool) (idx count : ℕ)
    (recycle : Bool) (st : FlqState) : Option (ℕ × FlqState) :=
  if recycle then some (refillEntries c2hBufsz recycle count idx st)
  else (flqRefillPages env passedOn recycle count st.flq st.heap).map fun (flq, heap) =>
    refillEntries c2hBufsz recycle count idx { st with flq := flq, heap := heap }

end OnicDriver.C2h
