import OnicDriver.C2h.Reader
import OnicDriver.Lib.Bits
import OnicDriver.Setup.Config

/-!
# Interrupt aggregation rings

The hardware enters the interrupts of a data vector into the ring of the
vector, in a color that changes with every lap. The driver hands on the
entries of a ring until the color of one is not the color it expects.
-/

namespace OnicDriver.Interrupt

open Lib Setup

/-- The fields of `union qdma_intr_ring` that the driver reads. -/
structure IntrRing where
  coalColor : Bool
  intrType : Bool
  qid : ℕ
  deriving DecidableEq, Repr

/-- The fields of an entry: `struct qdma_intr_ring_cpm` of the Versal hard IP, and
`struct qdma_intr_ring_generic`. -/
def intrRing (ipType : IpType) (word : ℕ) : IntrRing :=
  if ipType = .versalHardIp then
    { coalColor := word.testBit 63, intrType := word.testBit 51, qid := Mask.get ⟨62, 52⟩ word }
  else
    { coalColor := word.testBit 63, intrType := word.testBit 38, qid := Mask.get ⟨62, 39⟩ word }

/-- `struct intr_coal_conf`: the vector and the ring with what the driver knows about it. -/
structure IntrCoalConf where
  vecId : ℕ
  intrRngNumEntries : ℕ
  intrRingBase : ℕ → ℕ
  color : Bool
  swCidx : ℕ
  rngIdx : ℕ

/-- What the handler of an interrupt reads of a queue: whether the client has its own handler, the
CPU if one is assigned, and the index. -/
structure QueueIsr where
  fpDescqIsrTop : Bool := false
  intrWorkCpu : Option ℕ := none
  qidx : ℕ
  deriving DecidableEq, Repr

/-- The range of `struct qdma_dev`. -/
structure QueueRange where
  qbase : ℕ
  qmax : ℕ
  deriving DecidableEq, Repr

/-- `struct xlnx_dma_dev` for the handlers of its data vectors. `msixEntry` are the entries of
`msix`, and `descq` are the queues from the start of the H2C array on. -/
structure IntrDev where
  ipType : IpType
  dvecStartIdx : ℕ
  msixEntry : ℕ → ℕ
  qdev : Option QueueRange
  descq : ℕ → QueueIsr

/-- How a queue learns of its interrupt. -/
inductive Handling
  | isrTop
  | scheduleWorkOn (cpu : ℕ)
  | scheduleWork
  deriving DecidableEq, Repr

/-- An interrupt handed on to the queue at a place. -/
structure Dispatch where
  pos : ℕ
  handling : Handling
  deriving DecidableEq, Repr

/-- A write of the index register: the queue it is written for, the ring and its index. -/
structure CidxWrite where
  qid : ℕ
  rngIdx : ℕ
  swCidx : ℕ
  deriving DecidableEq, Repr

/-- The local variables of a running call of `data_intr_aggregate`. -/
structure IntrCall where
  counter : ℕ
  descq : Option ℕ := none
  numEntriesProcessed : ℕ := 0
  deriving DecidableEq, Repr

/-- The rings of a device, the calls that are running, by their vectors, and what has happened so
far: writes of the index register, and for each ring the entries that the hardware has written and
those that were handed on. -/
structure IntrState where
  intrCoalList : ℕ → IntrCoalConf
  prevDescq : Option ℕ := none
  calls : ℕ → Option IntrCall := fun _ => none
  cidxWrites : List CidxWrite := []
  written : ℕ → List ℕ := fun _ => []
  dispatched : ℕ → List Dispatch := fun _ => []

variable (x : IntrDev)

/-- `qdma_device_get_descq_by_hw_qid`. -/
def qdmaDeviceGetDescqByHwQid (qidxHw : ℕ) (c2h : Bool) : Option ℕ :=
  x.qdev.map fun qdev =>
    let qidxSw := u64 (qidxHw - qdev.qbase)
    if c2h then qdev.qmax + qidxSw else qidxSw

/-- `queue_intr_cidx_update` for the queue at a place. -/
def queueIntrCidxUpdate (s : IntrState) (pos r : ℕ) : IntrState :=
  let conf := s.intrCoalList r
  { s with cidxWrites :=
      s.cidxWrites ++
        [{ qid := (x.descq pos).qidx, rngIdx := conf.rngIdx, swCidx := conf.swCidx }] }

/-- How the interrupt of the queue at a place is handed on. -/
def QueueIsr.handling (q : QueueIsr) : Handling :=
  if q.fpDescqIsrTop then .isrTop
  else
    match q.intrWorkCpu with
    | some cpu => .scheduleWorkOn cpu
    | none => .scheduleWork

/-- `data_intr_aggregate` up to its loop. -/
def aggregateEnter (s : IntrState) (vidx : ℕ) : IntrState :=
  let coalEntry := s.intrCoalList (vidx - x.dvecStartIdx)
  if x.msixEntry vidx ≠ coalEntry.vecId then s
  else { s with calls := Function.update s.calls vidx (some { counter := coalEntry.swCidx }) }

/-- `data_intr_aggregate` once its loop ends. A call that has found no entry writes the index for
the queue of the interrupt before. -/
def aggregateFinish (s : IntrState) (vidx : ℕ) (call : IntrCall) : IntrState :=
  let r := vidx - x.dvecStartIdx
  let s := { s with calls := Function.update s.calls vidx none }
  match call.descq with
  | some pos => queueIntrCidxUpdate x s pos r
  | none =>
    if call.numEntriesProcessed = 0 then
      match s.prevDescq with
      | some pos => queueIntrCidxUpdate x s pos r
      | none => s
    else s

/-- The loop body of `data_intr_aggregate` for an entry of the queue at `pos`. Where the index
wraps it is the color of the first ring that changes. -/
def aggregateEntry (s : IntrState) (vidx : ℕ) (call : IntrCall) (pos : ℕ) : IntrState :=
  let r := vidx - x.dvecStartIdx
  let conf := s.intrCoalList r
  let swCidx := (conf.swCidx + 1) % 2 ^ 16
  let wraps := decide (swCidx = conf.intrRngNumEntries)
  let list := Function.update s.intrCoalList r
    { conf with swCidx := if wraps then 0 else swCidx }
  { s with
    prevDescq := some pos
    dispatched := Function.update s.dispatched r
      (s.dispatched r ++ [{ pos := pos, handling := (x.descq pos).handling }])
    intrCoalList :=
      if wraps then Function.update list 0 { list 0 with color := !(list 0).color } else list
    calls := Function.update s.calls vidx (some
      { counter := if wraps then 0 else call.counter + 1, descq := some pos
        numEntriesProcessed := call.numEntriesProcessed + 1 }) }

/-- One pass of the loop of `data_intr_aggregate`. -/
def aggregatePass (s : IntrState) (vidx : ℕ) : IntrState :=
  match s.calls vidx with
  | none => s
  | some call =>
    let coalEntry := s.intrCoalList (vidx - x.dvecStartIdx)
    let ringEntry := intrRing x.ipType (coalEntry.intrRingBase call.counter)
    if ringEntry.coalColor ≠ coalEntry.color then aggregateFinish x s vidx call
    else
      match qdmaDeviceGetDescqByHwQid x ringEntry.qid ringEntry.intrType with
      | none => { s with calls := Function.update s.calls vidx none }
      | some pos => aggregateEntry x s vidx call pos

/-! ## Runs -/

/-- The hardware writes an entry into a ring, or the handler of a vector is called or goes on. -/
inductive IntrEvent
  | write (r word : ℕ)
  | enter (vidx : ℕ)
  | pass (vidx : ℕ)
  deriving DecidableEq, Repr

/-- The hardware enters a word where it is in the ring, lap by lap. -/
def writeEntry (s : IntrState) (r word : ℕ) : IntrState :=
  let conf := s.intrCoalList r
  let pidx := (s.written r).length % conf.intrRngNumEntries
  let base := Function.update conf.intrRingBase pidx word
  { s with
    intrCoalList := Function.update s.intrCoalList r { conf with intrRingBase := base }
    written := Function.update s.written r (s.written r ++ [word]) }

def intrStep (s : IntrState) : IntrEvent → IntrState
  | .write r word => writeEntry s r word
  | .enter vidx => aggregateEnter x s vidx
  | .pass vidx => aggregatePass x s vidx

/-- The rings that `intr_ring_setup` gives the vectors from `dvecStartIdx` on, with the sizes they
have. -/
def intrStart (size rngIdx : ℕ → ℕ) : IntrState where
  intrCoalList r :=
    { vecId := x.msixEntry (x.dvecStartIdx + r), intrRngNumEntries := size r
      intrRingBase := fun _ => 0, color := true, swCidx := 0, rngIdx := rngIdx r }

/-- An entry names a queue of the function by its type and its hardware number. -/
def IntrDev.Names (word pos : ℕ) : Prop :=
  ∃ qdev, x.qdev = some qdev ∧ ∃ k < qdev.qmax,
    pos = (if (intrRing x.ipType word).intrType then qdev.qmax + k else k) ∧
      (intrRing x.ipType word).qid = qdev.qbase + k

/-- What the hardware and the interrupt handling of the kernel keep to on rings `0` to `n - 1`:
entries are in the color of their lap and name queues of the function, fewer than the ring has are
outstanding, and the calls of one vector follow each other. -/
def EventOk (n : ℕ) (s : IntrState) : IntrEvent → Prop
  | .write r word =>
    r < n ∧ (intrRing x.ipType word).coalColor =
        C2h.lapColor (s.intrCoalList r).intrRngNumEntries (s.written r).length ∧
      (∃ pos, x.Names word pos) ∧
      (s.written r).length + 1 < (s.dispatched r).length + (s.intrCoalList r).intrRngNumEntries
  | .enter vidx => (∃ r < n, vidx = x.dvecStartIdx + r) ∧ s.calls vidx = none
  | .pass vidx => ∃ r < n, vidx = x.dvecStartIdx + r

/-- The entries of a ring handed on so far are the first ones written, each to the queue it names,
and the driver looks for the next one where it is, and takes what is there for new if it was
written. -/
structure InTurn (s : IntrState) (r : ℕ) : Prop where
  le : (s.dispatched r).length ≤ (s.written r).length
  named : List.Forall₂ (fun word d => x.Names word d.pos)
    ((s.written r).take (s.dispatched r).length) (s.dispatched r)
  index : (s.intrCoalList r).swCidx =
    (s.dispatched r).length % (s.intrCoalList r).intrRngNumEntries
  next : ∀ word, (s.written r)[(s.dispatched r).length]? = some word →
    (s.intrCoalList r).intrRingBase (s.intrCoalList r).swCidx = word
  fresh : (intrRing x.ipType
      ((s.intrCoalList r).intrRingBase (s.intrCoalList r).swCidx)).coalColor =
        (s.intrCoalList r).color ↔
      (s.dispatched r).length < (s.written r).length

/-- An entry that is handed on is not the last of its ring, or the ring is the first. -/
def TogglesOwn (s : IntrState) : IntrEvent → Prop
  | .pass vidx =>
    vidx = x.dvecStartIdx ∨ s.calls vidx = none ∨
      (s.intrCoalList (vidx - x.dvecStartIdx)).swCidx + 1 ≠
        (s.intrCoalList (vidx - x.dvecStartIdx)).intrRngNumEntries ∨
      (s.dispatched (vidx - x.dvecStartIdx)).length = (s.written (vidx - x.dvecStartIdx)).length
  | _ => True

end OnicDriver.Interrupt
