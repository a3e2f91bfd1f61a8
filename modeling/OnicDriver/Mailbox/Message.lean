import OnicDriver.Access.Context
import OnicDriver.Lib.CInt

/-!
# Mailbox messages

A message is read through overlaid structures, and a field of an array may lie
behind the message. A received message is therefore the memory from its first
word on, of which the message itself is the first 32 words.
-/

namespace OnicDriver.Mailbox

open Lib Access

def MBOX_MSG_REG_MAX : ℕ := 32
def MBOX_MSG_OP_RSP_OFFSET : ℕ := 0x80
def QDMA_NUM_DATA_VEC_FOR_INTR_CXT : ℕ := 1

/-- `enum mbox_msg_op`, the requests and notifications. -/
inductive MboxOp
  | vfBye
  | hello
  | fmap
  | csr
  | qreq
  | qnotifyAdd
  | qnotifyDel
  | getQactiveCnt
  | qctxtWrt
  | qctxtRd
  | qctxtClr
  | qctxtInv
  | intrCtxtWrt
  | intrCtxtRd
  | intrCtxtClr
  | intrCtxtInv
  | resetPrepare
  | resetDone
  | regListRead
  | pfBye
  | pfResetVfBye
  deriving DecidableEq, Repr

/-- The opcodes in the order of their numbers. -/
def MboxOp.all : List MboxOp :=
  [.vfBye, .hello, .fmap, .csr, .qreq, .qnotifyAdd, .qnotifyDel, .getQactiveCnt, .qctxtWrt,
    .qctxtRd, .qctxtClr, .qctxtInv, .intrCtxtWrt, .intrCtxtRd, .intrCtxtClr, .intrCtxtInv,
    .resetPrepare, .resetDone, .regListRead, .pfBye, .pfResetVfBye]

/-- The opcode with a number. -/
def MboxOp.fromByte (n : ℕ) : Option MboxOp := MboxOp.all[n]?

/-- `enum mbox_cmpt_ctxt_type`. -/
inductive CmptCtxtType
  | ctxtOnly
  | withMm
  | withSt
  | none
  deriving DecidableEq, Repr

def CmptCtxtType.fromBits : ℕ → CmptCtxtType
  | 0 => .ctxtOnly
  | 1 => .withMm
  | 2 => .withSt
  | _ => .none

/-- A message and the memory behind it. -/
abbrev MboxMem := ℕ → UInt32

/-- A message with the given first words and zeros behind them. -/
def MboxMem.ofWords (words : List ℕ) : MboxMem := fun i => UInt32.ofNat (words.getD i 0)

/-- The `n` bits of a number from bit `lo` on. -/
def bits (w lo n : ℕ) : ℕ := w / 2 ^ lo % 2 ^ n

namespace MboxMem

variable (m : MboxMem)

def word (i : ℕ) : ℕ := (m i).toNat

/-! ## `struct mbox_msg_hdr` -/

def op : ℕ := bits (m.word 0) 0 8
def srcFuncId : ℕ := bits (m.word 0) 16 16
def dstFuncId : ℕ := bits (m.word 1) 0 16

/-! ## `struct mbox_msg_fmap` -/

def fmapQbase : ℤ := s32 (m.word 2)
def fmapQmax : ℕ := m.word 3

/-! ## `struct mbox_msg_q_nitfy` and `struct mbox_msg_qctxt` -/

def qidHw : ℕ := bits (m.word 1) 16 16
def qType : ℕ := m.word 2
def st : Bool := bits (m.word 2) 0 1 = 1
def c2h : Bool := bits (m.word 2) 1 1 = 1
def cmptCtxtType : CmptCtxtType := CmptCtxtType.fromBits (bits (m.word 2) 2 2)

/-! ## `struct mbox_intr_ctxt` -/

def numRings : ℕ := bits (m.word 2) 0 8

/-- `ring_index_list[i]`; the list has one element. -/
def ringIndexList (i : ℕ) : ℕ := m.word (3 + i)

/-- `ictxt[i]`, of eight words each. -/
def ictxt (i : ℕ) : IndirectIntrCtxt :=
  let w k := m.word (4 + 8 * i + k)
  { baddr4k := w 0 + 2 ^ 32 * w 1, vec := bits (w 2) 0 16, pidx := bits (w 2) 16 16
    valid := bits (w 3) 0 8, intSt := bits (w 3) 8 8, color := bits (w 3) 16 8
    pageSize := bits (w 3) 24 8, at_ := bits (w 4) 0 8, hostId := bits (w 4) 8 8, pasid := w 5
    pasidEn := bits (w 6) 0 8, funcId := bits (w 6) 16 16 }

/-! ## `struct mbox_read_reg_list` -/

def groupNum : ℕ := bits (m.word 1) 16 16

end MboxMem

/-- `struct mbox_descq_conf`. -/
structure MboxDescqConf where
  ringBsAddr : ℕ := 0
  cmptRingBsAddr : ℕ := 0
  forcedEn : ℕ := 0
  enBypass : ℕ := 0
  irqArm : ℕ := 0
  wbiIntvlEn : ℕ := 0
  wbiChk : ℕ := 0
  at_ : ℕ := 0
  wbkEn : ℕ := 0
  irqEn : ℕ := 0
  pfchEn : ℕ := 0
  enBypassPrefetch : ℕ := 0
  disOverflowCheck : ℕ := 0
  cmptIntEn : ℕ := 0
  cmptAt : ℕ := 0
  cmptColor : ℕ := 0
  cmptFullUpd : ℕ := 0
  cmplStatEn : ℕ := 0
  descSz : ℕ := 0
  cmptDescSz : ℕ := 0
  triggermode : ℕ := 0
  funcId : ℕ := 0
  cntThres : ℕ := 0
  timerThres : ℕ := 0
  intrId : ℕ := 0
  intrAggr : ℕ := 0
  ringsz : ℕ := 0
  bufsz : ℕ := 0
  cmptRingsz : ℕ := 0
  deriving DecidableEq, Repr

/-- `descq_conf` of a queue context message. -/
def MboxMem.descqConf (m : MboxMem) : MboxDescqConf :=
  let flag i := bits (m.word 8) i 1
  { ringBsAddr := m.word 4 + 2 ^ 32 * m.word 5, cmptRingBsAddr := m.word 6 + 2 ^ 32 * m.word 7
    forcedEn := flag 0, enBypass := flag 1, irqArm := flag 2, wbiIntvlEn := flag 3
    wbiChk := flag 4, at_ := flag 5, wbkEn := flag 6, irqEn := flag 7, pfchEn := flag 8
    enBypassPrefetch := flag 9, disOverflowCheck := flag 10, cmptIntEn := flag 11
    cmptAt := flag 12, cmptColor := flag 13, cmptFullUpd := flag 14, cmplStatEn := flag 15
    descSz := bits (m.word 8) 16 2, cmptDescSz := bits (m.word 8) 18 2
    triggermode := bits (m.word 8) 20 3, funcId := bits (m.word 9) 0 16
    cntThres := bits (m.word 9) 16 8, timerThres := bits (m.word 9) 24 8
    intrId := bits (m.word 10) 0 11, intrAggr := bits (m.word 10) 11 1
    ringsz := bits (m.word 10) 16 16, bufsz := bits (m.word 11) 0 16
    cmptRingsz := bits (m.word 11) 16 16 }

/-- The part of a response behind the header that the handler of the PF fills in. -/
inductive RespBody
  | empty
  | hello (qbase qmax dmaDeviceIndex : ℕ)
  | csr (ringsz : List ℕ) (rest : Option (List ℕ × List ℕ × List ℕ))
  | fmap (qbase : ℤ) (qmax : ℕ)
  | qcnt (h2cQueues c2hQueues cmptQueues : ℕ)
  | intrCtxt (ictxt : List IndirectIntrCtxt)
  | qctxt (descqCtxt : DescqContext)
  | regList (regs : List (ℕ × ℕ))
  deriving DecidableEq, Repr

/-- A response of the PF. A freshly allocated message is all zero. -/
structure RespMsg where
  op : ℕ := 0
  status : ℤ := 0
  srcFuncId : ℕ := 0
  dstFuncId : ℕ := 0
  body : RespBody := .empty
  deriving DecidableEq, Repr

end OnicDriver.Mailbox
