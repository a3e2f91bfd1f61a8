import OnicDriver.Mailbox.ContextWrite
import OnicDriver.Mailbox.Status
import OnicDriver.Setup.Context

/-!
# Interrupt ring requests

The arrays of an interrupt context message have an element for each data
vector, but the PF loops over as many rings as the message says. Whether it
stays inside the arrays depends on what was sent; the requests of the VF side
of the driver never name more rings than there are elements.
-/

namespace OnicDriver.Setup

open Lib Access Mailbox

/-! ## The loops of the PF -/

/-- An element of `ring_index_list`, of `ictxt` in the message, or of `ictxt` in the response. -/
inductive RingElem
  | ringIndexList (i : ℕ)
  | ictxt (i : ℕ)
  | rspIctxt (i : ℕ)
  deriving DecidableEq, Repr

/-- The index of an element. -/
def RingElem.index : RingElem → ℕ
  | .ringIndexList i => i
  | .ictxt i => i
  | .rspIctxt i => i

/-- What the body of a loop over rings does: it reads or writes an element of an array, or
accesses the hardware. -/
inductive RingStep
  | elem (e : RingElem)
  | access (a : HwAccess)
  deriving DecidableEq, Repr

/-- The elements among the steps. -/
def elems (steps : List RingStep) : List RingElem :=
  steps.filterMap fun
    | .elem e => some e
    | .access _ => none

/-- The hardware accesses among the steps. -/
def accesses (steps : List RingStep) : List HwAccess :=
  steps.filterMap fun
    | .elem _ => none
    | .access a => some a

/-- The body of the loop of an interrupt context request for ring `i`. -/
def ringBody (m : MboxMem) (op : MboxOp) (i : ℕ) : List RingStep :=
  let ringIndex := m.ringIndexList i
  match op with
  | .intrCtxtWrt =>
    [.elem (.ringIndexList i), .access (.intrCtx ringIndex .clear), .elem (.ictxt i),
      .access (.intrCtx ringIndex (.write (m.ictxt i)))]
  | .intrCtxtRd =>
    [.elem (.ringIndexList i), .access (.intrCtx ringIndex .read), .elem (.rspIctxt i)]
  | .intrCtxtClr => [.elem (.ringIndexList i), .access (.intrCtx ringIndex .clear)]
  | .intrCtxtInv => [.elem (.ringIndexList i), .access (.intrCtx ringIndex .invalidate)]
  | _ => []

/-- The loop of the PF over the rings of a message. -/
def ringLoop (m : MboxMem) (op : MboxOp) : List RingStep :=
  (List.range m.numRings).flatMap (ringBody m op)

/-- All elements are in their array. -/
def InBounds (es : List RingElem) : Prop :=
  ∀ e ∈ es, e.index < QDMA_NUM_DATA_VEC_FOR_INTR_CXT

instance (es : List RingElem) : Decidable (InBounds es) :=
  inferInstanceAs (Decidable (∀ e ∈ es, _))

/-! ## The requests of the VF -/

/-- `struct qdma_indirect_intr_ctxt` in memory. -/
instance : CStruct IndirectIntrCtxt where
  members := qdmaIndirectIntrCtxt
  values c :=
    [c.baddr4k, c.vec, c.pidx, c.valid, c.intSt, c.color, c.pageSize, c.at_, c.hostId, c.pasid,
      c.pasidEn, c.funcId]
  ofValues v :=
    { baddr4k := v 0, vec := v 1, pidx := v 2, valid := v 3, intSt := v 4, color := v 5,
      pageSize := v 6, at_ := v 7, hostId := v 8, pasid := v 9, pasidEn := v 10, funcId := v 11 }
  values_ofValues _ := rfl
  ofValues_values _ := rfl

/-- `struct mbox_msg_intr_ctxt` while it is filled in. -/
structure MboxMsgIntrCtxt where
  numRings : ℕ := 0
  ringIndexList : List ℤ := List.replicate QDMA_NUM_DATA_VEC_FOR_INTR_CXT 0
  ictxt : List IndirectIntrCtxt := List.replicate QDMA_NUM_DATA_VEC_FOR_INTR_CXT {}

/-- The fields of `struct intr_coal_conf` that go into a context. -/
structure IntrCoal where
  vecId : ℕ
  intrRingBus : ℕ
  color : ℕ

/-- The device of a VF, with the size of its interrupt rings. -/
structure RingVf where
  xdev : XlnxDmaDev
  intrRngsz : ℕ
  intrCoalList : ℕ → IntrCoal

/-- The context of ring `i` as `make_intr_context` makes it. -/
def RingVf.intrContext (x : RingVf) (i : ℕ) : IndirectIntrCtxt :=
  let entry := x.intrCoalList i
  { valid := 1, vec := entry.vecId, baddr4k := entry.intrRingBus, color := entry.color
    pageSize := x.intrRngsz, funcId := x.xdev.funcId }

/-- A loop that assigns to the first `n` elements of an array. -/
def fill {α : Type} (f : ℕ → α) (n : ℕ) (a : List α) : List α :=
  (List.range n).foldl (fun a i => a.set i (f i)) a

/-- The requests of a VF about its rings: `qdma_intr_context_setup`, `qdma_intr_context_read` and
`intr_context_invalidate`. -/
inductive RingRequest
  | setup
  | read (ringIndex : ℤ)
  | invalidate

/-- The message that a request is composed from. -/
def RingRequest.ictxt (x : RingVf) : RingRequest → MboxMsgIntrCtxt
  | .setup =>
    let n := QDMA_NUM_DATA_VEC_FOR_INTR_CXT
    let msg : MboxMsgIntrCtxt := { numRings := n }
    { msg with
      ringIndexList := fill (fun i => getIntrRingIndex x.xdev (u32 (x.xdev.dvecStartIdx + i))) n
        msg.ringIndexList
      ictxt := fill x.intrContext n msg.ictxt }
  | .read ringIndex =>
    let msg : MboxMsgIntrCtxt := { numRings := 1 }
    { msg with ringIndexList := msg.ringIndexList.set 0 ringIndex }
  | .invalidate =>
    let n := QDMA_NUM_DATA_VEC_FOR_INTR_CXT
    let msg : MboxMsgIntrCtxt := { numRings := n }
    { msg with
      ringIndexList := fill (fun i => getIntrRingIndex x.xdev (u32 (x.xdev.dvecStartIdx + i))) n
        msg.ringIndexList }

/-- The elements that a request assigns to while it is composed, and reads of the response. -/
def RingRequest.elems : RingRequest → List RingElem
  | .setup =>
    (List.range QDMA_NUM_DATA_VEC_FOR_INTR_CXT).map .ringIndexList ++
      (List.range QDMA_NUM_DATA_VEC_FOR_INTR_CXT).map .ictxt
  | .read _ => [.ringIndexList 0, .rspIctxt 0]
  | .invalidate => (List.range QDMA_NUM_DATA_VEC_FOR_INTR_CXT).map .ringIndexList

/-- The operation of a request. -/
def RingRequest.op : RingRequest → MboxOp
  | .setup => .intrCtxtWrt
  | .read _ => .intrCtxtRd
  | .invalidate => .intrCtxtInv

/-- Where `struct mbox_msg_intr_ctxt` lies behind the header. -/
def intrCtxtAt : ℕ := (member [.struct mboxMsgHdr, .struct mboxMsgIntrCtxt] 1).offset

/-- `num_rings` of a message. -/
def intrCtxtNumRings : Field := ⟨intrCtxtAt, (member mboxMsgIntrCtxt 0).size⟩

/-- `qdma_mbox_memcpy` of the message of a request behind the header. -/
def storeIntrCtxt (msg : MboxMsgIntrCtxt) (raw : ByteMem) : ByteMem :=
  (List.range QDMA_NUM_DATA_VEC_FOR_INTR_CXT).foldl
    (fun raw i =>
      CStruct.store (intrCtxtAt + (member mboxMsgIntrCtxt 2).offset +
          i * CStruct.size IndirectIntrCtxt) (msg.ictxt.getD i {})
        (raw.store (intrCtxtAt + (member mboxMsgIntrCtxt 1).offset + 4 * i) 4
          (u32 (msg.ringIndexList.getD i 0))))
    (setMember intrCtxtNumRings msg.numRings raw)

/-- `qdma_mbox_compose_vf_intr_ctxt_write`, `qdma_mbox_compose_vf_intr_ctxt_read` and
`qdma_mbox_compose_vf_intr_ctxt_invalidate`. -/
def RingRequest.compose (x : RingVf) (c : RingRequest) (raw : ByteMem) : ByteMem :=
  storeIntrCtxt (c.ictxt x) <| setMember hdrSrcFuncId x.xdev.funcId <|
    setMember hdrOp c.op.toByte <| qdmaMboxMemset raw 0 qdmaMboxTxrx.size

/-! ## What the PF does with a message -/

section

variable {m : MboxMem} {op : MboxOp} {ops : ℕ → List (CtxtOp IndirectIntrCtxt)}

theorem elems_flatMap (l : List ℕ) (f : ℕ → List RingStep) :
    elems (l.flatMap f) = l.flatMap fun i => elems (f i) :=
  List.filterMap_flatMap ..

theorem accesses_flatMap (l : List ℕ) (f : ℕ → List RingStep) :
    accesses (l.flatMap f) = l.flatMap fun i => accesses (f i) :=
  List.filterMap_flatMap ..

/-- The loop makes the hardware accesses of the handler. -/
theorem accesses_ringLoop (hops : intrCtxtOps m op = some ops) :
    accesses (ringLoop m op) = intrCtxtAccesses m ops := by
  unfold ringLoop intrCtxtAccesses
  rw [accesses_flatMap]
  congr 1
  funext i
  cases op with
  | intrCtxtWrt | intrCtxtRd | intrCtxtClr | intrCtxtInv =>
    cases hops
    rfl
  | _ => cases hops

/-- Each ring of a request touches the elements of its number. -/
theorem index_of_mem_ringBody {i : ℕ} {e : RingElem} (he : e ∈ elems (ringBody m op i)) :
    e.index = i := by
  cases op with
  | intrCtxtWrt | intrCtxtRd =>
    rcases List.mem_cons.mp he with rfl | he
    · rfl
    · rw [List.mem_singleton.mp he]
      rfl
  | intrCtxtClr | intrCtxtInv =>
    rw [List.mem_singleton.mp he]
    rfl
  | _ => cases he

/-- Each ring of an interrupt context request has its index read. -/
theorem ringIndexList_mem_ringBody (hops : intrCtxtOps m op = some ops) (i : ℕ) :
    .ringIndexList i ∈ elems (ringBody m op i) := by
  cases op with
  | intrCtxtWrt | intrCtxtRd | intrCtxtClr | intrCtxtInv => exact List.mem_cons_self
  | _ => cases hops

/-- The loop stays inside the arrays if and only if the message names no more rings than they
have elements. -/
theorem ringLoop_inBounds_iff (hops : intrCtxtOps m op = some ops) :
    InBounds (elems (ringLoop m op)) ↔ m.numRings ≤ QDMA_NUM_DATA_VEC_FOR_INTR_CXT := by
  unfold ringLoop InBounds
  rw [elems_flatMap]
  constructor
  · intro h
    by_contra hlt
    have hmem : QDMA_NUM_DATA_VEC_FOR_INTR_CXT ∈ List.range m.numRings :=
      List.mem_range.mpr (Nat.lt_of_not_le hlt)
    exact absurd (h _ (List.mem_flatMap.mpr
      ⟨_, hmem, ringIndexList_mem_ringBody hops QDMA_NUM_DATA_VEC_FOR_INTR_CXT⟩)) (lt_irrefl _)
  · intro hle e he
    obtain ⟨i, hi, he⟩ := List.mem_flatMap.mp he
    rw [index_of_mem_ringBody he]
    exact lt_of_lt_of_le (List.mem_range.mp hi) hle

end

/-! ## What the PF receives of a request -/

section

variable {x : RingVf} {c : RingRequest} {raw rx : ByteMem}

/-- Where the members of a request lie. -/
theorem intrCtxtMembers : intrCtxtNumRings = ⟨8, 1⟩ ∧
    intrCtxtAt + (member mboxMsgIntrCtxt 1).offset = 12 ∧
    intrCtxtAt + (member mboxMsgIntrCtxt 2).offset = 16 := by
  decide +kernel

/-- The arrays of a message lie behind its number of rings. -/
theorem storeIntrCtxt_of_lt (msg : MboxMsgIntrCtxt) {a : ℕ} (ha : a < 12) :
    storeIntrCtxt msg raw a = setMember intrCtxtNumRings msg.numRings raw a := by
  obtain ⟨-, hlist, hictxt⟩ := intrCtxtMembers
  unfold storeIntrCtxt
  rw [hlist, hictxt]
  change CStruct.store (16 + 0 * _) _ (ByteMem.store _ (12 + 4 * 0) 4 _) a = _
  rw [CStruct.store_of_outside (.inl (by omega)), ByteMem.store_of_outside (.inl (by omega))]

/-- The header of a request and its number of rings. -/
theorem getMember_compose (x : RingVf) (c : RingRequest) (raw : ByteMem) :
    getMember hdrOp (c.compose x raw) = c.op.toByte ∧
      getMember hdrSrcFuncId (c.compose x raw) = x.xdev.funcId ∧
      getMember intrCtxtNumRings (c.compose x raw) = (c.ictxt x).numRings % 256 := by
  obtain ⟨hopAt, hsrcAt, -⟩ := qctxtMembers
  obtain ⟨hringsAt, -⟩ := intrCtxtMembers
  have hbyte (op : MboxOp) : op.toByte < 256 := by cases op <;> decide
  have hfunc := x.xdev.funcId_lt
  have hlow (f : Field) (hf : f.offset + f.size ≤ 12) : getMember f (c.compose x raw) =
      getMember f (setMember intrCtxtNumRings (c.ictxt x).numRings <|
        setMember hdrSrcFuncId x.xdev.funcId <| setMember hdrOp c.op.toByte <|
          qdmaMboxMemset raw 0 qdmaMboxTxrx.size) :=
    ByteMem.load_congr fun a _ ha => storeIntrCtxt_of_lt _ (by omega)
  rw [hopAt, hsrcAt, hringsAt] at *
  refine ⟨?_, ?_, ?_⟩
  · rw [hlow _ (by decide), getMember_setMember_of_disjoint (by decide),
      getMember_setMember_of_disjoint (by decide), getMember_setMember]
    exact Nat.mod_eq_of_lt (hbyte c.op)
  · rw [hlow _ (by decide), getMember_setMember_of_disjoint (by decide), getMember_setMember]
    exact Nat.mod_eq_of_lt (show _ < 256 ^ 2 by omega)
  · rw [hlow _ (by decide), getMember_setMember]
    rfl

/-- The number of rings is a byte of the message. -/
theorem numRings_rawWords (raw : ByteMem) :
    (rawWords raw).numRings = getMember intrCtxtNumRings raw := by
  obtain ⟨hringsAt, -⟩ := intrCtxtMembers
  have hword : (rawWords raw).word 2 = raw.load 8 1 + 256 ^ 1 * raw.load 9 3 := by
    rw [word_rawWords]
    exact raw.load_add 8 1 3
  have hlt := raw.load_lt 8 1
  rw [hringsAt]
  unfold MboxMem.numRings bits getMember
  dsimp only
  omega

/-- The PF receives as many rings as the VF has put into the message. -/
theorem numRings_pfReceives (x : RingVf) (c : RingRequest) (raw rx : ByteMem) :
    (pfReceives x.xdev.funcId (c.compose x raw) rx).numRings = (c.ictxt x).numRings % 256 := by
  obtain ⟨-, hsrc, hrings⟩ := getMember_compose x c raw
  have hlt : intrCtxtNumRings.offset + intrCtxtNumRings.size ≤ rawSize := by decide +kernel
  unfold pfReceives
  rw [numRings_rawWords, ← hrings]
  exact ByteMem.load_congr fun a _ ha => qdmaMboxRcv_pf hsrc (ha.trans_le hlt)

/-- A request names no more rings than there are data vectors. -/
theorem RingRequest.numRings_le (x : RingVf) (c : RingRequest) :
    (c.ictxt x).numRings % 256 ≤ QDMA_NUM_DATA_VEC_FOR_INTR_CXT := by
  cases c <;> exact le_rfl

/-- A request stays inside the arrays while it is composed. -/
theorem RingRequest.elems_inBounds (c : RingRequest) : InBounds c.elems := by
  cases c with
  | setup => decide
  | read ringIndex =>
    change InBounds [.ringIndexList 0, .rspIctxt 0]
    decide
  | invalidate => decide

end

/-- Whatever interrupt context request a message is, the PF stays inside its arrays. -/
def HandledInBounds (m : MboxMem) : Prop :=
  ∀ op, MboxOp.fromByte m.op = some op → InBounds (elems (ringLoop m op))

/-- The requests of a VF stay inside the arrays, when they are composed and when the PF handles
them. -/
def RequestsInBounds : Prop :=
  ∀ (x : RingVf) (c : RingRequest) (raw rx : ByteMem),
    InBounds c.elems ∧ HandledInBounds (pfReceives x.xdev.funcId (c.compose x raw) rx)

theorem requestsInBounds : RequestsInBounds := by
  intro x c raw rx
  refine ⟨c.elems_inBounds, fun op _ => ?_⟩
  have hle : (pfReceives x.xdev.funcId (c.compose x raw) rx).numRings ≤
      QDMA_NUM_DATA_VEC_FOR_INTR_CXT := by
    rw [numRings_pfReceives]
    exact c.numRings_le x
  intro e he
  unfold ringLoop at he
  rw [elems_flatMap] at he
  obtain ⟨i, hi, he⟩ := List.mem_flatMap.mp he
  rw [index_of_mem_ringBody he]
  exact lt_of_lt_of_le (List.mem_range.mp hi) hle

/-- An interrupt context request is handled inside the arrays if and only if it names no more
rings than they have elements, as is the case for all requests of the VF side. -/
theorem intrCtxtRequest_inBounds_iff {m : MboxMem} {op : MboxOp}
    (hop : MboxOp.fromByte m.op = some op) (hintr : (intrCtxtOps m op).isSome) :
    HandledInBounds m ∧ RequestsInBounds ↔ m.numRings ≤ QDMA_NUM_DATA_VEC_FOR_INTR_CXT := by
  obtain ⟨ops, hops⟩ := Option.isSome_iff_exists.mp hintr
  rw [← ringLoop_inBounds_iff hops]
  constructor
  · exact fun h => h.1 op hop
  · intro h
    refine ⟨fun op' hop' => ?_, requestsInBounds⟩
    rw [hop] at hop'
    cases hop'
    exact h

/-- An interrupt context request of operation `op` for `n` rings, all of index 0. -/
def ringMsg (op n : ℕ) : MboxMem := MboxMem.ofWords [op, 0, n]

/-- A request to clear one ring. -/
theorem ringMsg_inBounds : HandledInBounds (ringMsg 14 1) ∧ RequestsInBounds :=
  (@intrCtxtRequest_inBounds_iff _ .intrCtxtClr (by decide) (by decide)).mpr (by decide)

/-- A request to clear eight rings, as many as the message is said to name: the PF reads the
index of the second ring behind the list. -/
theorem ringMsg_not_inBounds : ¬ HandledInBounds (ringMsg 14 8) := by
  intro h
  exact absurd (h .intrCtxtClr (by decide)) (by decide)

end OnicDriver.Setup
