import OnicDriver.Access.Registers
import OnicDriver.Lib.Bits
import OnicDriver.Lib.CInt
import OnicDriver.Setup.Config

/-!
# Doorbells

The registers by which a queue tells the card its indices. The access layers write them at offsets
and with masks of their own, and one reader of the completion register serves all of them.
-/

namespace OnicDriver.Access

open Lib Setup

def QDMA_PIDX_STEP : ℕ := 0x10
def QDMA_CMPT_CIDX_STEP : ℕ := 0x10
def QDMA_INT_CIDX_STEP : ℕ := 0x10

/-! ## Layouts -/

/-- The doorbells of a function's first queue. -/
structure DoorbellOffsets where
  intCidx : ℕ
  h2cDscPidx : ℕ
  c2hDscPidx : ℕ
  cmptCidx : ℕ
  deriving DecidableEq, Repr

/-- The fields of the doorbells. -/
structure DoorbellMasks where
  intSwCidx : Mask
  intRingIdx : Mask
  descPidx : Mask
  irqEn : Mask
  cmptIrqEn : Mask
  cmptStsDescEn : Mask
  cmptTrgMode : Mask
  cmptTmrCnt : Mask
  cmptCntThresh : Mask
  cmptWrbCidx : Mask
  deriving DecidableEq, Repr

/-- The offsets of `qdma_soft_reg.h`, for a PF and for a VF. -/
def softOffsets (isVf : Bool) : DoorbellOffsets :=
  if isVf then { intCidx := 0x3000, h2cDscPidx := 0x3004, c2hDscPidx := 0x3008, cmptCidx := 0x300C }
  else { intCidx := 0x18000, h2cDscPidx := 0x18004, c2hDscPidx := 0x18008, cmptCidx := 0x1800C }

/-- The masks of `qdma_soft_reg.h`. -/
def softMasks : DoorbellMasks where
  intSwCidx := ⟨15, 0⟩
  intRingIdx := ⟨23, 16⟩
  descPidx := ⟨15, 0⟩
  irqEn := ⟨16, 16⟩
  cmptIrqEn := ⟨28, 28⟩
  cmptStsDescEn := ⟨27, 27⟩
  cmptTrgMode := ⟨26, 24⟩
  cmptTmrCnt := ⟨23, 20⟩
  cmptCntThresh := ⟨19, 16⟩
  cmptWrbCidx := ⟨15, 0⟩

/-- The offsets of `qdma_s80_hard_access.c`, for a PF and for a VF. -/
def s80HardOffsets (isVf : Bool) : DoorbellOffsets :=
  if isVf then { intCidx := 0x3000, h2cDscPidx := 0x3004, c2hDscPidx := 0x3008, cmptCidx := 0x300C }
  else { intCidx := 0x6400, h2cDscPidx := 0x6404, c2hDscPidx := 0x6408, cmptCidx := 0x640C }

/-- The masks of `qdma_s80_hard_access.c`. -/
def s80HardMasks : DoorbellMasks where
  intSwCidx := ⟨15, 0⟩
  intRingIdx := ⟨23, 16⟩
  descPidx := ⟨15, 0⟩
  irqEn := ⟨16, 16⟩
  cmptIrqEn := ⟨28, 28⟩
  cmptStsDescEn := ⟨27, 27⟩
  cmptTrgMode := ⟨26, 24⟩
  cmptTmrCnt := ⟨23, 20⟩
  cmptCntThresh := ⟨19, 16⟩
  cmptWrbCidx := ⟨15, 0⟩

/-! ## Reading and writing -/

/-- `struct qdma_q_pidx_reg_info`. -/
structure QPidxRegInfo where
  pidx : ℕ
  irqEn : ℕ
  deriving DecidableEq, Repr

/-- `struct qdma_intr_cidx_reg_info`. -/
structure IntrCidxRegInfo where
  swCidx : ℕ
  rngIdx : ℕ
  deriving DecidableEq, Repr

/-- `struct qdma_q_cmpt_cidx_reg_info`. -/
structure QCmptCidxRegInfo where
  wrbCidx : ℕ
  counterIdx : ℕ
  timerIdx : ℕ
  trigMode : ℕ
  wrbEn : ℕ
  irqEn : ℕ
  deriving DecidableEq, Repr

/-- The fields of the completion register. -/
def cmptFields (m : DoorbellMasks) (info : QCmptCidxRegInfo) : List (Mask × ℕ) :=
  [(m.cmptWrbCidx, info.wrbCidx), (m.cmptCntThresh, info.counterIdx),
   (m.cmptTmrCnt, info.timerIdx), (m.cmptTrgMode, info.trigMode),
   (m.cmptStsDescEn, info.wrbEn), (m.cmptIrqEn, info.irqEn)]

section

variable (offsets : Bool → DoorbellOffsets) (masks : DoorbellMasks)

/-- The producer index of a queue is written. -/
def pidxUpdate (isVf : Bool) (qid : ℕ) (isC2h : Bool) (info : QPidxRegInfo) (regs : Regs) :
    ℤ × Regs :=
  let regAddr := if isC2h then (offsets isVf).c2hDscPidx else (offsets isVf).h2cDscPidx
  (0, qdmaRegWrite regs (u32 (regAddr + qid * QDMA_PIDX_STEP))
    (pack [(masks.descPidx, info.pidx), (masks.irqEn, info.irqEn)]))

/-- The consumer index of a completion ring is written with its setting. -/
def cmptCidxUpdate (isVf : Bool) (qid : ℕ) (info : QCmptCidxRegInfo) (regs : Regs) : ℤ × Regs :=
  (0, qdmaRegWrite regs (u32 ((offsets isVf).cmptCidx + qid * QDMA_CMPT_CIDX_STEP))
    (pack (cmptFields masks info)))

/-- The consumer index of an interrupt ring is written. -/
def intrCidxUpdate (isVf : Bool) (qid : ℕ) (info : IntrCidxRegInfo) (regs : Regs) : ℤ × Regs :=
  (0, qdmaRegWrite regs (u32 ((offsets isVf).intCidx + qid * QDMA_INT_CIDX_STEP))
    (pack [(masks.intSwCidx, info.swCidx), (masks.intRingIdx, info.rngIdx)]))

end

/-- `qdma_queue_pidx_update`. -/
def qdmaQueuePidxUpdate := pidxUpdate softOffsets softMasks

/-- `qdma_queue_cmpt_cidx_update`. -/
def qdmaQueueCmptCidxUpdate := cmptCidxUpdate softOffsets softMasks

/-- `qdma_queue_intr_cidx_update`. -/
def qdmaQueueIntrCidxUpdate := intrCidxUpdate softOffsets softMasks

/-- `qdma_s80_hard_queue_pidx_update`. -/
def qdmaS80HardQueuePidxUpdate := pidxUpdate s80HardOffsets s80HardMasks

/-- `qdma_s80_hard_queue_cmpt_cidx_update`. -/
def qdmaS80HardQueueCmptCidxUpdate := cmptCidxUpdate s80HardOffsets s80HardMasks

/-- `qdma_s80_hard_queue_intr_cidx_update`. -/
def qdmaS80HardQueueIntrCidxUpdate := intrCidxUpdate s80HardOffsets s80HardMasks

/-- `qdma_queue_cmpt_cidx_read`. -/
def qdmaQueueCmptCidxRead (isVf : Bool) (qid : ℕ) (regs : Regs) : ℤ × QCmptCidxRegInfo :=
  let regVal := regs (u32 ((softOffsets isVf).cmptCidx + qid * QDMA_CMPT_CIDX_STEP))
  (0,
    { wrbCidx := trunc 16 (softMasks.cmptWrbCidx.get regVal)
      counterIdx := trunc 8 (softMasks.cmptCntThresh.get regVal)
      wrbEn := trunc 8 (softMasks.cmptStsDescEn.get regVal)
      irqEn := trunc 8 (softMasks.cmptIrqEn.get regVal)
      timerIdx := trunc 8 (softMasks.cmptTmrCnt.get regVal)
      trigMode := trunc 8 (softMasks.cmptTrgMode.get regVal) })

/-- The entries of `struct qdma_hw_access` for the doorbells. -/
structure DoorbellAccess where
  qdmaQueuePidxUpdate : Bool → ℕ → Bool → QPidxRegInfo → Regs → ℤ × Regs
  qdmaQueueCmptCidxRead : Bool → ℕ → Regs → ℤ × QCmptCidxRegInfo
  qdmaQueueCmptCidxUpdate : Bool → ℕ → QCmptCidxRegInfo → Regs → ℤ × Regs
  qdmaQueueIntrCidxUpdate : Bool → ℕ → IntrCidxRegInfo → Regs → ℤ × Regs

/-- What `qdma_hw_access_init` enters for the doorbells: the functions of the soft core, three of
which a hard core replaces. -/
def qdmaHwAccessInit (ipType : IpType) : DoorbellAccess :=
  let hwAccess : DoorbellAccess :=
    { qdmaQueuePidxUpdate, qdmaQueueCmptCidxRead, qdmaQueueCmptCidxUpdate, qdmaQueueIntrCidxUpdate }
  if ipType = .versalHardIp then
    { hwAccess with
      qdmaQueuePidxUpdate := qdmaS80HardQueuePidxUpdate
      qdmaQueueCmptCidxUpdate := qdmaS80HardQueueCmptCidxUpdate
      qdmaQueueIntrCidxUpdate := qdmaS80HardQueueIntrCidxUpdate }
  else hwAccess

/-! ## The setting of a completion queue -/

/-- `struct qdma_cmpl_ctrl`. -/
structure QdmaCmplCtrl where
  cntThIdx : ℕ
  timerIdx : ℕ
  triggerMode : ℕ
  enStatDesc : ℕ
  cmplEnIntr : ℕ
  deriving DecidableEq, Repr

/-- The setting of a queue, in its configuration and as it goes to the card. -/
structure CmplDescq where
  qidx : ℕ
  cmplTrigMode : ℕ
  cmplTimerIdx : ℕ
  cmplCntThIdx : ℕ
  cmplEnIntr : ℕ
  cmplStatEn : ℕ
  cidxCmpt : ℕ
  cmptCidxInfo : QCmptCidxRegInfo
  deriving DecidableEq, Repr

/-- `qdma_queue_cmpl_ctrl` of a queue of an open device, where the card takes 16 bits of the index
of the queue. -/
def qdmaQueueCmplCtrl (hw : DoorbellAccess) (isVf : Bool) (q : CmplDescq) (cctrl : QdmaCmplCtrl)
    (set : Bool) (regs : Regs) : ℤ × CmplDescq × QdmaCmplCtrl × Regs :=
  if set then
    let q := { q with
      cmplTrigMode := trunc 3 cctrl.triggerMode
      cmplTimerIdx := trunc 4 cctrl.timerIdx
      cmplCntThIdx := trunc 4 cctrl.cntThIdx
      cmplEnIntr := trunc 1 cctrl.cmplEnIntr
      cmplStatEn := trunc 1 cctrl.enStatDesc
      cmptCidxInfo :=
        { trigMode := trunc 3 cctrl.triggerMode
          timerIdx := trunc 4 cctrl.timerIdx
          counterIdx := trunc 4 cctrl.cntThIdx
          irqEn := trunc 1 cctrl.cmplEnIntr
          wrbEn := trunc 1 cctrl.enStatDesc
          wrbCidx := u16 q.cidxCmpt } }
    let (rv, regs) := hw.qdmaQueueCmptCidxUpdate isVf (u16 q.qidx) q.cmptCidxInfo regs
    if rv < 0 then (rv, q, cctrl, regs) else (0, q, cctrl, regs)
  else
    let (rv, info) := hw.qdmaQueueCmptCidxRead isVf (u16 q.qidx) regs
    let q := { q with cmptCidxInfo := info }
    if rv < 0 then (rv, q, cctrl, regs)
    else
      let q := { q with
        cmplTrigMode := trunc 3 info.trigMode
        cmplTimerIdx := trunc 4 info.timerIdx
        cmplCntThIdx := trunc 4 info.counterIdx
        cmplStatEn := trunc 1 info.wrbEn
        cmplEnIntr := trunc 1 info.irqEn }
      (0, q,
        { triggerMode := q.cmplTrigMode
          timerIdx := q.cmplTimerIdx
          cntThIdx := q.cmplCntThIdx
          enStatDesc := q.cmplStatEn
          cmplEnIntr := q.cmplEnIntr }, regs)

/-! ## Round trips -/

/-- A setting whose fields fit their widths. -/
def QCmptCidxRegInfo.Fits (info : QCmptCidxRegInfo) : Prop := AllFit (cmptFields softMasks info)

/-- The bit fields of a setting. -/
def QdmaCmplCtrl.Fits (cctrl : QdmaCmplCtrl) : Prop :=
  cctrl.cntThIdx < 2 ^ 4 ∧ cctrl.timerIdx < 2 ^ 4 ∧ cctrl.triggerMode < 2 ^ 3 ∧
    cctrl.enStatDesc < 2 ∧ cctrl.cmplEnIntr < 2

/-- What `qdma_queue_cmpl_ctrl` sends to the card for a queue. -/
def QdmaCmplCtrl.regInfo (cctrl : QdmaCmplCtrl) (q : CmplDescq) : QCmptCidxRegInfo where
  wrbCidx := u16 q.cidxCmpt
  counterIdx := cctrl.cntThIdx
  timerIdx := cctrl.timerIdx
  trigMode := cctrl.triggerMode
  wrbEn := cctrl.enStatDesc
  irqEn := cctrl.cmplEnIntr

/-- A setting that was written is read. -/
def SettingReadsBack (hw : DoorbellAccess) (isVf : Bool) (qid : ℕ) (info : QCmptCidxRegInfo)
    (regs : Regs) : Prop :=
  hw.qdmaQueueCmptCidxRead isVf qid (hw.qdmaQueueCmptCidxUpdate isVf qid info regs).2 = (0, info)

/-- A setting that was set is got, and the queue stays as it was set. -/
def GetsBack (hw : DoorbellAccess) (isVf : Bool) (q : CmplDescq) (cctrl old : QdmaCmplCtrl)
    (regs : Regs) : Prop :=
  let (rv, q, _, regs) := qdmaQueueCmplCtrl hw isVf q cctrl true regs
  rv = 0 ∧ qdmaQueueCmplCtrl hw isVf q old false regs = (0, q, cctrl, regs)

/-- When the reader sees what the writer wrote: except on a PF of a hard core, where it sees what
the register of the soft core held before. -/
def SameRegister (ipType : IpType) (isVf : Bool) (qid : ℕ) (info : QCmptCidxRegInfo)
    (regs : Regs) : Prop :=
  ipType ≠ .versalHardIp ∨ isVf = true ∨ qdmaQueueCmptCidxRead isVf qid regs = (0, info)

section RoundTrip

variable {ipType : IpType} {isVf : Bool} {qid : ℕ} {info : QCmptCidxRegInfo} {regs : Regs}

theorem laidOut_cmptFields (info : QCmptCidxRegInfo) : LaidOut (cmptFields softMasks info) := by
  constructor
  · change [softMasks.cmptWrbCidx, softMasks.cmptCntThresh, softMasks.cmptTmrCnt,
      softMasks.cmptTrgMode, softMasks.cmptStsDescEn, softMasks.cmptIrqEn].Pairwise Mask.Apart
    decide
  · change ∀ m ∈ [softMasks.cmptWrbCidx, softMasks.cmptCntThresh, softMasks.cmptTmrCnt,
      softMasks.cmptTrgMode, softMasks.cmptStsDescEn, softMasks.cmptIrqEn], m.hi < 32
    decide

/-- The reader finds a setting in a register that holds it. -/
theorem read_of_pack (hfits : info.Fits)
    (hreg : regs (u32 ((softOffsets isVf).cmptCidx + qid * QDMA_CMPT_CIDX_STEP)) =
      pack (cmptFields softMasks info)) :
    qdmaQueueCmptCidxRead isVf qid regs = (0, info) := by
  have hget : ∀ f ∈ cmptFields softMasks info,
      f.1.get (pack (cmptFields softMasks info)) = f.2 := fun f hf =>
    get_pack (laidOut_cmptFields info) hf (hfits f hf)
  unfold cmptFields at hget hreg
  simp only [List.mem_cons, List.not_mem_nil, or_false, forall_eq_or_imp, forall_eq] at hget
  obtain ⟨hwrb, hcnt, htmr, htrg, hsts, hirq⟩ := hget
  unfold qdmaQueueCmptCidxRead
  dsimp only
  rw [hreg, trunc_get (by decide), trunc_get (by decide), trunc_get (by decide),
    trunc_get (by decide), trunc_get (by decide), trunc_get (by decide), hwrb, hcnt, htmr, htrg,
    hsts, hirq]

/-- A register of one queue is not the register of another one, and it does not wrap. -/
theorem u32_doorbell {base : ℕ} (hbase : base < 2 ^ 20) (hqid : qid < 2 ^ 16) :
    u32 (base + qid * (0x10 : ℕ)) = base + qid * 0x10 := by
  unfold u32
  omega

/-- What a PF of a hard core writes is not what the reader reads. -/
theorem read_s80Hard_pf (hqid : qid < 2 ^ 16) :
    qdmaQueueCmptCidxRead false qid (qdmaS80HardQueueCmptCidxUpdate false qid info regs).2 =
      qdmaQueueCmptCidxRead false qid regs := by
  have hne : u32 ((softOffsets false).cmptCidx + qid * QDMA_CMPT_CIDX_STEP) ≠
      u32 ((s80HardOffsets false).cmptCidx + qid * QDMA_CMPT_CIDX_STEP) := by
    rw [QDMA_CMPT_CIDX_STEP, u32_doorbell (by decide) hqid, u32_doorbell (by decide) hqid]
    intro heq
    exact absurd (Nat.add_right_cancel heq) (by decide)
  unfold qdmaQueueCmptCidxRead qdmaS80HardQueueCmptCidxUpdate cmptCidxUpdate qdmaRegWrite
  dsimp only
  rw [Function.update_of_ne hne]

theorem read_soft (hfits : info.Fits) :
    qdmaQueueCmptCidxRead isVf qid (qdmaQueueCmptCidxUpdate isVf qid info regs).2 = (0, info) :=
  read_of_pack hfits (Function.update_self _ _ _)

/-- A written setting is read exactly where the reader sees what the writer wrote. -/
theorem settingReadsBack_iff (hqid : qid < 2 ^ 16) (hfits : info.Fits) :
    SettingReadsBack (qdmaHwAccessInit ipType) isVf qid info regs ↔
      SameRegister ipType isVf qid info regs := by
  unfold SettingReadsBack SameRegister qdmaHwAccessInit
  split_ifs with hhard
  · rw [or_iff_right (not_not_intro hhard)]
    cases isVf with
    | true => exact iff_of_true (read_soft hfits) (Or.inl rfl)
    | false =>
      rw [or_iff_right Bool.false_ne_true]
      dsimp only
      rw [read_s80Hard_pf hqid]
  · exact iff_of_true (read_soft hfits) (Or.inl hhard)

/-- A queue with a setting. -/
def CmplDescq.withCtrl (q : CmplDescq) (cctrl : QdmaCmplCtrl) : CmplDescq :=
  { q with
    cmplTrigMode := cctrl.triggerMode
    cmplTimerIdx := cctrl.timerIdx
    cmplCntThIdx := cctrl.cntThIdx
    cmplEnIntr := cctrl.cmplEnIntr
    cmplStatEn := cctrl.enStatDesc
    cmptCidxInfo := cctrl.regInfo q }

section Ctrl

variable {hw : DoorbellAccess} {q : CmplDescq} {cctrl old : QdmaCmplCtrl}

theorem qdmaQueueCmplCtrl_set (hfits : cctrl.Fits)
    (hupdate : ∀ qid info regs, (hw.qdmaQueueCmptCidxUpdate isVf qid info regs).1 = 0) :
    qdmaQueueCmplCtrl hw isVf q cctrl true regs =
      (0, q.withCtrl cctrl, cctrl,
        (hw.qdmaQueueCmptCidxUpdate isVf (u16 q.qidx) (cctrl.regInfo q) regs).2) := by
  obtain ⟨hcnt, htimer, htrig, hstat, hintr⟩ := hfits
  unfold qdmaQueueCmplCtrl
  rw [if_pos rfl, trunc_of_lt hcnt, trunc_of_lt htimer, trunc_of_lt htrig, trunc_of_lt hintr,
    trunc_of_lt hstat]
  dsimp only
  rw [hupdate, if_neg (by decide)]
  rfl

theorem qdmaQueueCmplCtrl_get {info : QCmptCidxRegInfo} (old : QdmaCmplCtrl)
    (hread : hw.qdmaQueueCmptCidxRead isVf (u16 q.qidx) regs = (0, info)) :
    qdmaQueueCmplCtrl hw isVf q old false regs =
      (0, { q with
          cmptCidxInfo := info
          cmplTrigMode := trunc 3 info.trigMode
          cmplTimerIdx := trunc 4 info.timerIdx
          cmplCntThIdx := trunc 4 info.counterIdx
          cmplStatEn := trunc 1 info.wrbEn
          cmplEnIntr := trunc 1 info.irqEn },
        { triggerMode := trunc 3 info.trigMode
          timerIdx := trunc 4 info.timerIdx
          cntThIdx := trunc 4 info.counterIdx
          enStatDesc := trunc 1 info.wrbEn
          cmplEnIntr := trunc 1 info.irqEn }, regs) := by
  unfold qdmaQueueCmplCtrl
  rw [if_neg Bool.false_ne_true, hread]
  rfl

/-- A setting is got back exactly where it is read back. -/
theorem getsBack_iff (hfits : cctrl.Fits)
    (hupdate : ∀ qid info regs, (hw.qdmaQueueCmptCidxUpdate isVf qid info regs).1 = 0)
    (hread : ∀ qid regs, (hw.qdmaQueueCmptCidxRead isVf qid regs).1 = 0) :
    GetsBack hw isVf q cctrl old regs ↔
      SettingReadsBack hw isVf (u16 q.qidx) (cctrl.regInfo q) regs := by
  obtain ⟨hcnt, htimer, htrig, hstat, hintr⟩ := id hfits
  unfold GetsBack SettingReadsBack
  rw [qdmaQueueCmplCtrl_set hfits hupdate]
  dsimp only
  generalize (hw.qdmaQueueCmptCidxUpdate isVf (u16 q.qidx) (cctrl.regInfo q) regs).2 = regs'
  rw [and_iff_right rfl]
  constructor
  · intro hget
    have hinfo : hw.qdmaQueueCmptCidxRead isVf (u16 q.qidx) regs' =
        (0, (hw.qdmaQueueCmptCidxRead isVf (u16 q.qidx) regs').2) := Prod.ext (hread _ _) rfl
    have hgot := (qdmaQueueCmplCtrl_get (q := q.withCtrl cctrl) old hinfo).symm.trans hget
    have hsame := congrArg (fun r => r.2.1.cmptCidxInfo) hgot
    rw [hinfo]
    exact congrArg (Prod.mk 0) hsame
  · intro hback
    rw [qdmaQueueCmplCtrl_get (q := q.withCtrl cctrl) old hback]
    unfold QdmaCmplCtrl.regInfo CmplDescq.withCtrl
    dsimp only
    rw [trunc_of_lt hcnt, trunc_of_lt htimer, trunc_of_lt htrig, trunc_of_lt hintr,
      trunc_of_lt hstat]
    rfl

end Ctrl

end RoundTrip

/-! ## Addresses -/

/-- A write to a doorbell. -/
inductive DoorbellWrite
  | pidx (isC2h : Bool) (info : QPidxRegInfo)
  | cmptCidx (info : QCmptCidxRegInfo)
  | intrCidx (info : IntrCidxRegInfo)
  deriving DecidableEq, Repr

/-- The kinds of doorbells. -/
inductive DoorbellKind
  | pidxH2c
  | pidxC2h
  | cmptCidx
  | intrCidx
  deriving DecidableEq, Repr

def DoorbellWrite.kind : DoorbellWrite → DoorbellKind
  | .pidx isC2h _ => if isC2h then .pidxC2h else .pidxH2c
  | .cmptCidx _ => .cmptCidx
  | .intrCidx _ => .intrCidx

/-- The registers after a write to a doorbell of a queue. -/
def DoorbellWrite.perform (hw : DoorbellAccess) (isVf : Bool) (qid : ℕ) (regs : Regs) :
    DoorbellWrite → Regs
  | .pidx isC2h info => (hw.qdmaQueuePidxUpdate isVf qid isC2h info regs).2
  | .cmptCidx info => (hw.qdmaQueueCmptCidxUpdate isVf qid info regs).2
  | .intrCidx info => (hw.qdmaQueueIntrCidxUpdate isVf qid info regs).2

/-- The offset of a doorbell of the first queue. -/
def DoorbellOffsets.base (o : DoorbellOffsets) : DoorbellKind → ℕ
  | .pidxH2c => o.h2cDscPidx
  | .pidxC2h => o.c2hDscPidx
  | .cmptCidx => o.cmptCidx
  | .intrCidx => o.intCidx

/-- The offsets of a core. -/
def ipOffsets (ipType : IpType) : Bool → DoorbellOffsets :=
  if ipType = .versalHardIp then s80HardOffsets else softOffsets

/-- Two doorbells of a function that are not those of one queue and one kind: each write goes to one
register, and these are different. -/
def Separate (hw : DoorbellAccess) (isVf : Bool) (qid qid' : ℕ) (w w' : DoorbellWrite) : Prop :=
  ∃ a v a' v', (∀ regs, w.perform hw isVf qid regs = qdmaRegWrite regs a v) ∧
    (∀ regs, w'.perform hw isVf qid' regs = qdmaRegWrite regs a' v') ∧ a ≠ a'

section Addresses

variable {ipType : IpType} {isVf : Bool} {qid qid' : ℕ} {w w' : DoorbellWrite}

/-- A write to a doorbell goes to one register. -/
theorem perform_eq (ipType : IpType) (isVf : Bool) (w : DoorbellWrite) (hqid : qid < 2 ^ 16) :
    ∃ v, ∀ regs, w.perform (qdmaHwAccessInit ipType) isVf qid regs =
      qdmaRegWrite regs ((ipOffsets ipType isVf).base w.kind + qid * 0x10) v := by
  have hsmall : ∀ k, (ipOffsets ipType isVf).base k < 2 ^ 20 := by
    intro k
    unfold ipOffsets
    split_ifs <;> cases isVf <;> cases k <;> decide
  rw [← u32_doorbell (hsmall _) hqid]
  unfold qdmaHwAccessInit ipOffsets
  cases w with
  | pidx isC2h info => cases isC2h <;> split_ifs <;> exact ⟨_, fun _ => rfl⟩
  | cmptCidx info => split_ifs <;> exact ⟨_, fun _ => rfl⟩
  | intrCidx info => split_ifs <;> exact ⟨_, fun _ => rfl⟩

/-- The doorbells of the first queue lie in different words of one block. -/
theorem base_mod (ipType : IpType) (isVf : Bool) (k k' : DoorbellKind)
    (h : (ipOffsets ipType isVf).base k % 0x10 = (ipOffsets ipType isVf).base k' % 0x10) :
    k = k' := by
  revert h
  unfold ipOffsets
  split_ifs <;> cases isVf <;> cases k <;> cases k' <;> decide

theorem separate (hqid : qid < 2 ^ 16) (hqid' : qid' < 2 ^ 16)
    (hne : (qid, w.kind) ≠ (qid', w'.kind)) :
    Separate (qdmaHwAccessInit ipType) isVf qid qid' w w' := by
  obtain ⟨v, hv⟩ := perform_eq ipType isVf w hqid
  obtain ⟨v', hv'⟩ := perform_eq ipType isVf w' hqid'
  refine ⟨_, v, _, v', hv, hv', fun heq => hne ?_⟩
  have hkind := base_mod ipType isVf w.kind w'.kind (by omega)
  rw [hkind] at heq ⊢
  have hsame : qid = qid' := by omega
  rw [hsame]

end Addresses

/-- A setting that is written to the completion doorbell of a queue is read from it, and one that is
set for a queue is got back, exactly on the functions where reader and writer use the same register,
or where the register of the reader holds the setting already. The doorbells of a function are
separate in any case. -/
theorem doorbell_iff (ipType : IpType) (isVf : Bool) {qid : ℕ} (hqid : qid < 2 ^ 16)
    {info : QCmptCidxRegInfo} (hinfo : info.Fits) (q : CmplDescq) {cctrl : QdmaCmplCtrl}
    (hcctrl : cctrl.Fits) (old : QdmaCmplCtrl) (regs : Regs) :
    let hw := qdmaHwAccessInit ipType
    (SettingReadsBack hw isVf qid info regs ↔ SameRegister ipType isVf qid info regs) ∧
      (GetsBack hw isVf q cctrl old regs ↔
        SameRegister ipType isVf (u16 q.qidx) (cctrl.regInfo q) regs) ∧
      ∀ qid' < 2 ^ 16, ∀ w w' : DoorbellWrite, (qid, w.kind) ≠ (qid', w'.kind) →
        Separate hw isVf qid qid' w w' := by
  intro hw
  have hupdate : ∀ qid info regs, (hw.qdmaQueueCmptCidxUpdate isVf qid info regs).1 = 0 := by
    intro qid info regs
    change ((qdmaHwAccessInit ipType).qdmaQueueCmptCidxUpdate isVf qid info regs).1 = 0
    unfold qdmaHwAccessInit
    split_ifs <;> rfl
  have hread : ∀ qid regs, (hw.qdmaQueueCmptCidxRead isVf qid regs).1 = 0 := by
    intro qid regs
    change ((qdmaHwAccessInit ipType).qdmaQueueCmptCidxRead isVf qid regs).1 = 0
    unfold qdmaHwAccessInit
    split_ifs <;> rfl
  have hu16 : ∀ x : ℤ, u16 x < 2 ^ 16 := by
    intro x
    unfold u16
    omega
  have hregInfo : (cctrl.regInfo q).Fits := by
    obtain ⟨hcnt, htimer, htrig, hstat, hintr⟩ := hcctrl
    have hwrb := hu16 q.cidxCmpt
    unfold QCmptCidxRegInfo.Fits AllFit cmptFields QdmaCmplCtrl.regInfo
    simp only [List.forall_mem_cons, List.not_mem_nil, false_imp_iff, implies_true, and_true]
    exact ⟨hwrb, hcnt, htimer, htrig, hstat, hintr⟩
  refine ⟨settingReadsBack_iff hqid hinfo, ?_, fun qid' hqid' w w' hne => separate hqid hqid' hne⟩
  exact (getsBack_iff hcctrl hupdate hread).trans (settingReadsBack_iff (hu16 _) hregInfo)

/-- A setting with every field. -/
def fullSetting : QCmptCidxRegInfo where
  wrbCidx := 5
  counterIdx := 3
  timerIdx := 9
  trigMode := 1
  wrbEn := 1
  irqEn := 1

def fullCtrl : QdmaCmplCtrl where
  cntThIdx := 3
  timerIdx := 9
  triggerMode := 1
  enStatDesc := 1
  cmplEnIntr := 1

def seventhQueue : CmplDescq where
  qidx := 7
  cmplTrigMode := 0
  cmplTimerIdx := 0
  cmplCntThIdx := 0
  cmplEnIntr := 0
  cmplStatEn := 0
  cidxCmpt := 5
  cmptCidxInfo := ⟨0, 0, 0, 0, 0, 0⟩

theorem eqdma_pf_readsBack :
    SettingReadsBack (qdmaHwAccessInit .eqdmaSoftIp) false 7 fullSetting (fun _ => 0) ∧
      GetsBack (qdmaHwAccessInit .eqdmaSoftIp) false seventhQueue fullCtrl fullCtrl fun _ => 0 := by
  have hinfo : fullSetting.Fits := by
    unfold QCmptCidxRegInfo.Fits
    decide
  have hcctrl : fullCtrl.Fits := by
    unfold QdmaCmplCtrl.Fits
    decide
  have hiff := doorbell_iff .eqdmaSoftIp false (show 7 < 2 ^ 16 by decide) hinfo seventhQueue
    hcctrl fullCtrl fun _ => 0
  exact ⟨hiff.1.mpr (Or.inl (by decide)), hiff.2.1.mpr (Or.inl (by decide))⟩

/-- On a PF of a hard core the reader finds the register of the soft core. -/
theorem s80Hard_pf_not_readsBack :
    ¬ SettingReadsBack (qdmaHwAccessInit .versalHardIp) false 7 fullSetting fun _ => 0 := by
  unfold SettingReadsBack
  decide +kernel

end OnicDriver.Access
