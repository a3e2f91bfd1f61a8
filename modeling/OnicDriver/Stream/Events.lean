import OnicDriver.Stream.Queue
import OnicDriver.C2h.ReceiveRuns
import OnicDriver.C2h.Reader

/-!
# Runs of a streaming queue

The hardware writes packets into the buffers it owns, calls process
completions, and reads are submitted, in any order. What the reads were given,
what waiting requests were given so far and what is still in the buffers should
together be the packets that were processed.
-/

namespace OnicDriver.Stream

open Lib C2h
open Netdev (readMem)

/-! ## The hardware -/

/-- Memory with some bytes written from an address on. -/
def writeMem (mem : ℕ → UInt8) (addr : ℕ) (bytes : List UInt8) : ℕ → UInt8 :=
  fun a => if addr ≤ a then (bytes[a - addr]?).getD (mem a) else mem a

/-- The hardware writes the parts of a packet to the descriptors from `idx` on. -/
def dmaWrite (size : ℕ) (dstAddr : ℕ → ℕ) : ℕ → List (List UInt8) → (ℕ → UInt8) → ℕ → UInt8
  | _, [], mem => mem
  | idx, part :: parts, mem =>
    dmaWrite size dstAddr (ringIdxIncr idx 1 size) parts (writeMem mem (dstAddr idx) part)

/-- The queue with its memory and completion ring, where and in which color the hardware writes
next, the next descriptor that it uses, and the packets received so far. -/
structure StreamRun where
  sq : StreamQueue
  mem : ℕ → UInt8 := fun _ => 0
  ring : ℕ → ℕ := fun _ => 0
  csPidx : ℕ := 0
  hwColor : Bool := true
  hwIdx : ℕ := 0
  received : List (List UInt8) := []

inductive StreamEvent
  | receive (payload : List UInt8) (entry : ℕ)
  | process (budget : ℕ) (updCmpl : Bool)
  | submit (req : Request)
  | packetRead (req : Request) (cctrl : Option CmplCtrl)
  | giveUp (i : ℕ)
  deriving DecidableEq, Repr

/-- A queue after `descq_flq_alloc_resource`. -/
def streamStart (env : C2hEnv) (conf : C2hConf) (flqConf : FlqConf) (heap : PageHeap) : StreamRun :=
  let r := descqFlqAllocResource env.toPageEnv conf.c2hBufsz true true flqConf.flq heap
  let q : C2hQueue := { rx := { flq := r.2.1, heap := r.2.2, avail := flqConf.size - 1 } }
  { sq := { q := qdmaDescqConfigComplete conf q } }

/-- One step. The hardware fills buffer by buffer, then writes the completion entry. -/
def streamStep (env : C2hEnv) (conf : C2hConf) (s : StreamRun) : StreamEvent → StreamRun
  | .receive payload entry =>
    let flq := s.sq.q.rx.flq
    let parts := blocksOf conf.c2hBufsz payload
    { s with
      mem := dmaWrite flq.size flq.dstAddr s.hwIdx parts s.mem
      ring := Function.update s.ring (s.csPidx * conf.cmptEntryLen) entry
      csPidx := ringIdxIncr s.csPidx 1 conf.rngszCmpt
      hwColor := if s.csPidx + 1 = conf.rngszCmpt then !s.hwColor else s.hwColor
      hwIdx := ringIdxIncr s.hwIdx parts.length flq.size
      received := s.received ++ [payload] }
  | .process budget updCmpl =>
    { s with sq := (descqProcessCompletionDflt env.toPageEnv conf s.mem s.ring s.csPidx budget
        updCmpl s.sq).2 }
  | .submit req => { s with sq := qdmaRequestSubmit env.toPageEnv conf s.mem req s.sq }
  | .packetRead req cctrl =>
    { s with sq := qdmaQueuePacketRead env.toPageEnv conf s.mem req cctrl s.sq }
  | .giveUp i => { s with sq := giveUp i s.sq }

/-- The number of completion entries that were written and not processed. -/
def StreamRun.pending (conf : C2hConf) (s : StreamRun) : ℕ :=
  ringIdxDelta s.csPidx s.sq.q.cidxCmpt conf.rngszCmpt

/-- The packets whose completion entries were processed. -/
def StreamRun.processed (conf : C2hConf) (s : StreamRun) : List (List UInt8) :=
  s.received.take (s.received.length - s.pending conf)

/-- The number of descriptors that the hardware used and the driver has not given back. -/
def StreamRun.inUse (s : StreamRun) : ℕ :=
  ringIdxDelta s.hwIdx s.sq.q.rx.flq.pidxPend s.sq.q.rx.flq.size

/-- The descriptors of the next packet. -/
def StreamRun.landing (conf : C2hConf) (s : StreamRun) (payload : List UInt8) : List ℕ :=
  (List.range (blocksOf conf.c2hBufsz payload).length).map fun i =>
    ringIdxIncr s.hwIdx i s.sq.q.rx.flq.size

/-- The entry announces a packet of this length. -/
def Announces (conf : C2hConf) (payload : List UInt8) (color : Bool) (entry : ℕ) : Prop :=
  (conf.accepts entry).map (fun cmpl => (cmpl.descUsed, cmpl.len, cmpl.color)) =
    some (true, payload.length, color)

instance (conf : C2hConf) (payload : List UInt8) (color : Bool) (entry : ℕ) :
    Decidable (Announces conf payload color entry) := inferInstanceAs (Decidable (_ = _))

/-- The hardware writes packets for which there is room in both rings, with the number of
descriptors that the driver computes; the elements of a request make up its count. -/
def StreamAllowed (conf : C2hConf) (s : StreamRun) : StreamEvent → Prop
  | .receive payload entry =>
    s.pending conf + 1 < conf.rngszCmpt ∧ Announces conf payload s.hwColor entry ∧
    flNr conf s.sq.q.rx.flq payload.length = (blocksOf conf.c2hBufsz payload).length ∧
    s.inUse + (blocksOf conf.c2hBufsz payload).length < s.sq.q.rx.flq.size
  | .submit req => req.sgl.flatten.length = req.count ∧ req.count < 2 ^ 32
  | .packetRead req _ => req.sgl.flatten.length = req.count ∧ req.count < 2 ^ 32
  | .process .. => True
  | .giveUp _ => True

instance (conf : C2hConf) (s : StreamRun) (e : StreamEvent) : Decidable (StreamAllowed conf s e) :=
  match e with
  | .receive .. => inferInstanceAs (Decidable (_ ∧ _ ∧ _ ∧ _))
  | .submit _ => inferInstanceAs (Decidable (_ ∧ _))
  | .packetRead .. => inferInstanceAs (Decidable (_ ∧ _))
  | .process .. => isTrue trivial
  | .giveUp _ => isTrue trivial

/-- The bytes land where the driver will read them: in buffers that no earlier read moved the
start of. And reads ask for their bytes. -/
def StreamKept (env : C2hEnv) (conf : C2hConf) (s : StreamRun) : StreamEvent → Prop
  | .receive payload _ =>
    payload = [] ∨ ∀ i ∈ s.landing conf payload,
      pageAddress env.toPageEnv (s.sq.q.rx.flq.sdesc i) = s.sq.q.rx.flq.dstAddr i
  | .submit req => req.noMemcpy = false
  | .packetRead req _ => req.noMemcpy = false
  | .process .. => True
  | .giveUp _ => True

instance (env : C2hEnv) (conf : C2hConf) (s : StreamRun) (e : StreamEvent) :
    Decidable (StreamKept env conf s e) :=
  match e with
  | .receive .. => inferInstanceAs (Decidable (_ ∨ _))
  | .submit _ => inferInstanceAs (Decidable (_ = _))
  | .packetRead .. => inferInstanceAs (Decidable (_ = _))
  | .process .. => isTrue trivial
  | .giveUp _ => isTrue trivial

/-! ## What reads return -/

/-- The number of bytes that a request was given. -/
def Request.filled (req : Request) : ℕ := (req.sgl.take req.sgIdx).flatten.length + req.sgOffset

/-- The bytes that a request was given. -/
def Request.got (req : Request) : List UInt8 := req.sgl.flatten.take req.filled

/-- A read reports the number of bytes it was given; one that was given up was given none. -/
def Read.Right (r : Read) : Prop :=
  if r.kind = .givenUp then r.req.got = [] else r.rv = r.req.got.length

instance (r : Read) : Decidable r.Right := by
  unfold Read.Right
  infer_instance

/-- The reads that report the right number: no call of `fp_done` and no `qdma_queue_packet_read`
for any bytes, and no wait that was given up with bytes. -/
def Read.Kept (r : Read) : Prop :=
  match r.kind with
  | .atOnce => True
  | .waited => True
  | .callback => r.req.count = 0
  | .packetRead => r.req.count = 0
  | .givenUp => r.req.got = []

/-- The bytes that were processed and are still in the buffers. -/
def unread (env : PageEnv) (mem : ℕ → UInt8) (q : C2hQueue) : List UInt8 :=
  let flq := q.rx.flq
  (List.range (ringIdxDelta q.pidx flq.pidxPend flq.size)).flatMap fun i =>
    let fsg := flq.sdesc (ringIdxIncr flq.pidxPend i flq.size)
    readMem mem (pageAddress env fsg) fsg.len

/-- The reads, the waiting requests and the buffers hold the processed packets in order; and
nothing is left in the buffers while a request waits. -/
def StreamRun.InOrder (env : C2hEnv) (conf : C2hConf) (s : StreamRun) : Prop :=
  (s.sq.reads.map Read.req ++ s.sq.pendList).flatMap Request.got ++
      unread env.toPageEnv s.mem s.sq.q = (s.processed conf).flatten ∧
    (s.sq.pendList ≠ [] → unread env.toPageEnv s.mem s.sq.q = [])

instance (env : C2hEnv) (conf : C2hConf) (s : StreamRun) : Decidable (s.InOrder env conf) :=
  inferInstanceAs (Decidable (_ ∧ _))

end OnicDriver.Stream
