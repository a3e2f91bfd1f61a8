import OnicDriver.Access.ContextLayout
import OnicDriver.Lib.Bits
import OnicDriver.Mailbox.Handler

/-!
# Mailbox messages in memory

The layout of the overlaid message structures, the composition of queue context
requests, and the transfer of messages through the mailbox registers. A message
lies at address 0 of its memory; what is behind it belongs to others.
-/

namespace OnicDriver.Mailbox

open Lib Access Resource CType

/-! ## Layout -/

/-- `struct mbox_msg_hdr`. -/
def mboxMsgHdr : List CType := [u8, u8, u16, u16]

/-- `struct qdma_dev_attributes`; the bit-fields fill two bytes. -/
def qdmaDevAttributes : List CType := [u8, u16, u8, u8, u8]

/-- `struct qdma_csr_info`. -/
def qdmaCsrInfo : List CType := [u16.array 16, u16.array 16, u8.array 16, u8.array 16, u8]

/-- `struct qdma_indirect_intr_ctxt`. -/
def qdmaIndirectIntrCtxt : List CType := [u64, u16, u16, u8, u8, u8, u8, u8, u8, u32, u8, u16]

/-- `struct mbox_msg_intr_ctxt`. -/
def mboxMsgIntrCtxt : List CType :=
  [u8, u32.array QDMA_NUM_DATA_VEC_FOR_INTR_CXT,
    (struct qdmaIndirectIntrCtxt).array QDMA_NUM_DATA_VEC_FOR_INTR_CXT]

/-- `struct mbox_descq_conf`; the bit-fields fill two words and a half one. -/
def mboxDescqConf : List CType := [u64, u64, u32, u32, u16, u16, u16, u16]

/-- `struct mbox_msg_qctxt`; the bit-fields fill one byte. -/
def mboxMsgQctxt : List CType :=
  [struct mboxMsgHdr, u16, u8, union [struct mboxDescqConf, struct DescqContext.parts]]

def QDMA_MAX_REGISTER_DUMP : ℕ := 14

/-- `union qdma_mbox_txrx`. -/
def qdmaMboxTxrx : CType :=
  let hdr := struct mboxMsgHdr
  union
    [hdr, struct [hdr, u32, u32, struct qdmaDevAttributes, u32], struct [hdr, u32, u32],
      struct [hdr, struct mboxMsgIntrCtxt], struct mboxMsgQctxt, struct [hdr, struct qdmaCsrInfo],
      struct [hdr, u32, u32, u32], struct [hdr, u16, u32],
      struct [hdr, u16, u16, (struct [u32, u32]).array QDMA_MAX_REGISTER_DUMP],
      u32.array MBOX_MSG_REG_MAX]

/-- The bytes of `raw[MBOX_MSG_REG_MAX]`. -/
def rawSize : ℕ := 4 * MBOX_MSG_REG_MAX

/-- The message structures do not fit the words of a message. -/
theorem size_qdmaMboxTxrx : qdmaMboxTxrx.size = rawSize + 24 := by decide +kernel

/-- The member of a structure with the given number. -/
def member (ts : List CType) (i : ℕ) : Field := (place 0 ts).getD i ⟨0, 0⟩

def hdrOp : Field := member mboxMsgHdr 0
def hdrStatus : Field := member mboxMsgHdr 1
def hdrSrcFuncId : Field := member mboxMsgHdr 2
def hdrDstFuncId : Field := member mboxMsgHdr 3
def qctxtQidHw : Field := member mboxMsgQctxt 1
def qctxtFlags : Field := member mboxMsgQctxt 2
def qctxtUnion : Field := member mboxMsgQctxt 3

/-- An assignment to a member of the message. -/
def setMember (f : Field) (v : ℕ) (raw : ByteMem) : ByteMem := raw.store f.offset f.size v

/-- The value of a member of the message. -/
def getMember (f : Field) (raw : ByteMem) : ℕ := raw.load f.offset f.size

/-- The members of the array `raw`. -/
def rawFields : List Field := place 0 (List.replicate MBOX_MSG_REG_MAX u32)

/-- The message as words. -/
def rawWords (raw : ByteMem) : MboxMem := fun i => UInt32.ofNat (raw.load (4 * i) 4)

/-! ## Composition -/

def MboxOp.toByte (op : MboxOp) : ℕ := MboxOp.all.idxOf op

def CmptCtxtType.toBits : CmptCtxtType → ℕ
  | .ctxtOnly => 0
  | .withMm => 1
  | .withSt => 2
  | .none => 3

/-- `qdma_mbox_memset`; the size is a byte. -/
def qdmaMboxMemset (raw : ByteMem) (val : UInt8) (size : ℕ) : ByteMem :=
  fun a => if a < size % 256 then val else raw a

/-- The common form of the queue context requests: header, queue and kind of contexts. -/
def composeVfQctxt (op : MboxOp) (funcId qidHw st c2h : ℕ) (cmptCtxtType : CmptCtxtType)
    (raw : ByteMem) : ByteMem :=
  setMember qctxtFlags (st % 2 + 2 * (c2h % 2) + 4 * cmptCtxtType.toBits) <|
    setMember qctxtQidHw qidHw <| setMember hdrSrcFuncId funcId <| setMember hdrOp op.toByte <|
      qdmaMboxMemset raw 0 qdmaMboxTxrx.size

/-- `qdma_mbox_compose_vf_qctxt_read`. -/
def qdmaMboxComposeVfQctxtRead := composeVfQctxt .qctxtRd

/-- `qdma_mbox_compose_vf_qctxt_invalidate`. -/
def qdmaMboxComposeVfQctxtInvalidate := composeVfQctxt .qctxtInv

/-- `qdma_mbox_compose_vf_qctxt_clear`. -/
def qdmaMboxComposeVfQctxtClear := composeVfQctxt .qctxtClr

section

variable (c : MboxDescqConf)

/-- The bit-fields of the first word after the addresses of `struct mbox_descq_conf`. -/
def MboxDescqConf.flagFields : List (Mask × ℕ) :=
  [(⟨0, 0⟩, c.forcedEn), (⟨1, 1⟩, c.enBypass), (⟨2, 2⟩, c.irqArm), (⟨3, 3⟩, c.wbiIntvlEn),
    (⟨4, 4⟩, c.wbiChk), (⟨5, 5⟩, c.at_), (⟨6, 6⟩, c.wbkEn), (⟨7, 7⟩, c.irqEn), (⟨8, 8⟩, c.pfchEn),
    (⟨9, 9⟩, c.enBypassPrefetch), (⟨10, 10⟩, c.disOverflowCheck), (⟨11, 11⟩, c.cmptIntEn),
    (⟨12, 12⟩, c.cmptAt), (⟨13, 13⟩, c.cmptColor), (⟨14, 14⟩, c.cmptFullUpd),
    (⟨15, 15⟩, c.cmplStatEn), (⟨17, 16⟩, c.descSz), (⟨19, 18⟩, c.cmptDescSz),
    (⟨22, 20⟩, c.triggermode)]

/-- The bit-fields of the second word. -/
def MboxDescqConf.funcFields : List (Mask × ℕ) :=
  [(⟨15, 0⟩, c.funcId), (⟨23, 16⟩, c.cntThres), (⟨31, 24⟩, c.timerThres)]

/-- The bit-fields of the half word after that. -/
def MboxDescqConf.intrFields : List (Mask × ℕ) := [(⟨10, 0⟩, c.intrId), (⟨11, 11⟩, c.intrAggr)]

/-- `struct mbox_descq_conf` as the values of its members. -/
def MboxDescqConf.values : List ℕ :=
  [c.ringBsAddr, c.cmptRingBsAddr, pack c.flagFields, pack c.funcFields, pack c.intrFields,
    c.ringsz, c.bufsz, c.cmptRingsz]

/-- Every field of a configuration fits its bit-field. -/
structure MboxDescqConf.Fits : Prop where
  ringBsAddr : c.ringBsAddr < 2 ^ 64
  cmptRingBsAddr : c.cmptRingBsAddr < 2 ^ 64
  flags : AllFit c.flagFields
  func : AllFit c.funcFields
  intr : AllFit c.intrFields
  ringsz : c.ringsz < 2 ^ 16
  bufsz : c.bufsz < 2 ^ 16
  cmptRingsz : c.cmptRingsz < 2 ^ 16

/-- `qdma_mbox_compose_vf_qctxt_write`. -/
def qdmaMboxComposeVfQctxtWrite (funcId qidHw st c2h : ℕ) (cmptCtxtType : CmptCtxtType)
    (raw : ByteMem) : ByteMem :=
  storeAll qctxtUnion.offset (place 0 mboxDescqConf) c.values
    (composeVfQctxt .qctxtWrt funcId qidHw st c2h cmptCtxtType raw)

end

/-! ## Transfer -/

def QDMA_ERR_MBOX_SEND_BUSY : ℤ := 22
def QDMA_ERR_MBOX_NO_MSG_IN : ℤ := 23

/-- `qdma_mbox_send`: the words written to the outgoing registers unless these are busy. -/
def qdmaMboxSend (busy : Bool) (raw : ByteMem) : Except ℤ (List ℕ) :=
  if busy then .error (-QDMA_ERR_MBOX_SEND_BUSY) else .ok (loadAll 0 rawFields raw)

/-- A message in the incoming registers, and the function that the hardware says it is from. -/
structure IncomingMsg where
  fromId : ℕ
  words : List ℕ

/-- `qdma_mbox_rcv`. -/
def qdmaMboxRcv (isVf : Bool) (incoming : Option IncomingMsg) (raw : ByteMem) : ℤ × ByteMem :=
  match incoming with
  | none => (-QDMA_ERR_MBOX_NO_MSG_IN, raw)
  | some msg =>
    let raw := storeAll 0 rawFields msg.words raw
    if msg.words.all (· = 0) then (-QDMA_ERR_MBOX_ALL_ZERO_MSG, raw)
    else if !isVf && msg.fromId ≠ getMember hdrSrcFuncId raw then
      (QDMA_SUCCESS, setMember hdrSrcFuncId msg.fromId raw)
    else (QDMA_SUCCESS, raw)

/-- The words that the PF receives of a message from function `fromId` into the buffer `rx`. -/
def pfReceives (fromId : ℕ) (request rx : ByteMem) : MboxMem :=
  rawWords (qdmaMboxRcv false (some ⟨fromId, loadAll 0 rawFields request⟩) rx).2

/-- The copy of the 32 words of a received message to the message that waits for it. -/
def copyRaw (rcv snd : ByteMem) : ByteMem := fun a => if a < rawSize then rcv a else snd a

/-- `qdma_mbox_vf_response_status`. -/
def qdmaMboxVfResponseStatus (raw : ByteMem) : ℤ := s8 (getMember hdrStatus raw)

/-- `qdma_mbox_vf_context_get`. -/
def qdmaMboxVfContextGet (raw : ByteMem) : ℤ × DescqContext :=
  (qdmaMboxVfResponseStatus raw, DescqContext.load qctxtUnion.offset raw)

/-! ## Facts about transfers -/

/-- Every byte of the message lies in one of its words. -/
theorem exists_rawField {a : ℕ} (ha : a < rawSize) :
    ∃ f ∈ rawFields, 0 + f.offset ≤ a ∧ a < 0 + f.offset + f.size := by
  revert a
  decide

/-- The words of a message carry its bytes. -/
theorem storeAll_rawFields {src dst : ByteMem} {a : ℕ} (ha : a < rawSize) :
    storeAll 0 rawFields (loadAll 0 rawFields src) dst a = src a := by
  obtain ⟨f, hf, hle, hlt⟩ := exists_rawField ha
  exact storeAll_loadAll (place_pairwise 0 _) hf hle hlt

/-- The VF receives the words as they are. -/
theorem qdmaMboxRcv_vf (msg : IncomingMsg) (raw : ByteMem) :
    (qdmaMboxRcv true (some msg) raw).2 = storeAll 0 rawFields msg.words raw := by
  simp only [qdmaMboxRcv, Bool.not_true, Bool.false_and, Bool.false_eq_true, if_false]
  split
  · rfl
  · rfl

/-- Assignments to the header leave the rest of the message alone. -/
theorem setMember_of_outside {f : Field} {v a : ℕ} {raw : ByteMem}
    (h : a < f.offset ∨ f.offset + f.size ≤ a) : setMember f v raw a = raw a :=
  ByteMem.store_of_outside h

/-- A member holds what fits of the value assigned last. -/
theorem getMember_setMember (f : Field) (v : ℕ) (raw : ByteMem) :
    getMember f (setMember f v raw) = v % 256 ^ f.size :=
  ByteMem.load_store _ _ _ _

/-- An assignment to another member does not matter. -/
theorem getMember_setMember_of_disjoint {f g : Field} {v : ℕ} {raw : ByteMem}
    (h : f.offset + f.size ≤ g.offset ∨ g.offset + g.size ≤ f.offset) :
    getMember f (setMember g v raw) = getMember f raw :=
  ByteMem.load_store_of_disjoint h

end OnicDriver.Mailbox
