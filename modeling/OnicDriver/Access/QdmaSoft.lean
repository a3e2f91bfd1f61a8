import OnicDriver.Access.QdmaSoftReg
import OnicDriver.Access.Indirect

/-!
# Contexts of the QDMA soft core

The functions of `qdma_soft_access.c` that encode function maps and contexts into
indirect data words and decode them. A read leaves the fields that the soft core
does not have as they are in the structure it is given.
-/

namespace OnicDriver.Access.QdmaSoft

open Lib

/-! ## Function map -/

/-- The words of `qdma_fmap_write`. -/
def fmapWords (config : FmapCfg) : List (List (Mask × ℕ)) :=
  [[(QDMA_FMAP_CTXT_W0_QID_MASK, config.qbase)],
   [(QDMA_FMAP_CTXT_W1_QID_MAX_MASK, config.qmax)]]

/-- `qdma_fmap_write`. -/
def qdmaFmapWrite (funcId : ℕ) (config : FmapCfg) (mem : IndCtxtMem) : ℤ × IndCtxtMem :=
  (0, indirectRegWrite QDMA_IND_CTXT_DATA_NUM_REGS .fmap funcId ((fmapWords config).map pack) mem)

/-- The map in the words that `qdma_fmap_read` has read. -/
def fmapOfWords (w : ℕ → ℕ) : FmapCfg where
  qbase := trunc 16 (QDMA_FMAP_CTXT_W0_QID_MASK.get (w 0))
  qmax := trunc 16 (QDMA_FMAP_CTXT_W1_QID_MAX_MASK.get (w 1))

/-- `qdma_fmap_read`. -/
def qdmaFmapRead (funcId : ℕ) (mem : IndCtxtMem) : FmapCfg :=
  fmapOfWords (indirectRegRead .fmap funcId QDMA_FMAP_NUM_WORDS mem)

/-- The fields fit the widths of their register fields. -/
def FmapFits (config : FmapCfg) : Prop := ∀ word ∈ fmapWords config, AllFit word

theorem fmapWords_laidOut (config : FmapCfg) : ∀ word ∈ fmapWords config, LaidOut word := by
  simp only [fmapWords, LaidOut, List.forall_mem_cons, List.map]
  decide

/-- Everything is found. -/
theorem fmapOfWords_eq {config : FmapCfg} {w : ℕ → ℕ} (hw : Holds w (fmapWords config)) :
    fmapOfWords w = config := by
  obtain ⟨-, h0⟩ := hw 0 _ rfl
  obtain ⟨-, h1⟩ := hw 1 _ rfl
  simp only [List.map_cons, List.map_nil, List.cons.injEq, and_true] at h0 h1
  unfold fmapOfWords
  simp (disch := decide) only [trunc_get]
  rw [h0, h1]

/-! ## Software context -/

/-- The words of `qdma_sw_context_write`. The base address takes whole words. -/
def swW0 (ctxt : DescqSwCtxt) : List (Mask × ℕ) :=
  [(QDMA_SW_CTXT_W0_PIDX, ctxt.pidx),
   (QDMA_SW_CTXT_W0_IRQ_ARM_MASK, ctxt.irqArm),
   (QDMA_SW_CTXT_W0_FUNC_ID_MASK, ctxt.fncId)]

def swW1 (ctxt : DescqSwCtxt) : List (Mask × ℕ) :=
  [(QDMA_SW_CTXT_W1_QEN_MASK, ctxt.qen),
   (QDMA_SW_CTXT_W1_FCRD_EN_MASK, ctxt.frcdEn),
   (QDMA_SW_CTXT_W1_WBI_CHK_MASK, ctxt.wbiChk),
   (QDMA_SW_CTXT_W1_WB_INT_EN_MASK, ctxt.wbiIntvlEn),
   (QDMA_SW_CTXT_W1_AT_MASK, ctxt.at_),
   (QDMA_SW_CTXT_W1_FETCH_MAX_MASK, ctxt.fetchMax),
   (QDMA_SW_CTXT_W1_RNG_SZ_MASK, ctxt.rngszIdx),
   (QDMA_SW_CTXT_W1_DSC_SZ_MASK, ctxt.descSz),
   (QDMA_SW_CTXT_W1_BYP_MASK, ctxt.bypass),
   (QDMA_SW_CTXT_W1_MM_CHN_MASK, ctxt.mmChn),
   (QDMA_SW_CTXT_W1_WBK_EN_MASK, ctxt.wbkEn),
   (QDMA_SW_CTXT_W1_IRQ_EN_MASK, ctxt.irqEn),
   (QDMA_SW_CTXT_W1_PORT_ID_MASK, ctxt.portId),
   (QDMA_SW_CTXT_W1_IRQ_NO_LAST_MASK, ctxt.irqNoLast),
   (QDMA_SW_CTXT_W1_ERR_MASK, ctxt.err),
   (QDMA_SW_CTXT_W1_ERR_WB_SENT_MASK, ctxt.errWbSent),
   (QDMA_SW_CTXT_W1_IRQ_REQ_MASK, ctxt.irqReq),
   (QDMA_SW_CTXT_W1_MRKR_DIS_MASK, ctxt.mrkrDis),
   (QDMA_SW_CTXT_W1_IS_MM_MASK, ctxt.isMm)]

def swW2 (ctxt : DescqSwCtxt) : List (Mask × ℕ) :=
  [(QDMA_SW_CTXT_W2_DSC_L_MASK, ctxt.ringBsAddr &&& 0xffffffff)]

def swW3 (ctxt : DescqSwCtxt) : List (Mask × ℕ) :=
  [(QDMA_SW_CTXT_W3_DSC_H_MASK, (ctxt.ringBsAddr >>> 32) &&& 0xffffffff)]

def swW4 (ctxt : DescqSwCtxt) : List (Mask × ℕ) :=
  [(QDMA_SW_CTXT_W4_VEC_MASK, ctxt.vec),
   (QDMA_SW_CTXT_W4_INTR_AGGR_MASK, ctxt.intrAggr)]

/-- All words. -/
def swWords (ctxt : DescqSwCtxt) : List (List (Mask × ℕ)) :=
  [swW0 ctxt, swW1 ctxt, swW2 ctxt, swW3 ctxt, swW4 ctxt]

/-- `qdma_sw_context_write`. -/
def qdmaSwContextWrite (c2h : Bool) (hwQid : ℕ) (ctxt : DescqSwCtxt) (mem : IndCtxtMem) :
    ℤ × IndCtxtMem :=
  (0, indirectRegWrite QDMA_IND_CTXT_DATA_NUM_REGS (swSel c2h) hwQid ((swWords ctxt).map pack) mem)

/-- The context `out` with what is in the words that `qdma_sw_context_read` has read. -/
def swOfWords (w : ℕ → ℕ) (out : DescqSwCtxt) : DescqSwCtxt :=
  { out with
    pidx := trunc 16 (QDMA_SW_CTXT_W0_PIDX.get (w 0))
    irqArm := trunc 8 (QDMA_SW_CTXT_W0_IRQ_ARM_MASK.get (w 0))
    fncId := trunc 8 (QDMA_SW_CTXT_W0_FUNC_ID_MASK.get (w 0))
    qen := trunc 8 (QDMA_SW_CTXT_W1_QEN_MASK.get (w 1))
    frcdEn := trunc 8 (QDMA_SW_CTXT_W1_FCRD_EN_MASK.get (w 1))
    wbiChk := trunc 8 (QDMA_SW_CTXT_W1_WBI_CHK_MASK.get (w 1))
    wbiIntvlEn := trunc 8 (QDMA_SW_CTXT_W1_WB_INT_EN_MASK.get (w 1))
    at_ := trunc 8 (QDMA_SW_CTXT_W1_AT_MASK.get (w 1))
    fetchMax := trunc 8 (QDMA_SW_CTXT_W1_FETCH_MAX_MASK.get (w 1))
    rngszIdx := trunc 8 (QDMA_SW_CTXT_W1_RNG_SZ_MASK.get (w 1))
    descSz := trunc 8 (QDMA_SW_CTXT_W1_DSC_SZ_MASK.get (w 1))
    bypass := trunc 8 (QDMA_SW_CTXT_W1_BYP_MASK.get (w 1))
    mmChn := trunc 8 (QDMA_SW_CTXT_W1_MM_CHN_MASK.get (w 1))
    wbkEn := trunc 8 (QDMA_SW_CTXT_W1_WBK_EN_MASK.get (w 1))
    irqEn := trunc 8 (QDMA_SW_CTXT_W1_IRQ_EN_MASK.get (w 1))
    portId := trunc 8 (QDMA_SW_CTXT_W1_PORT_ID_MASK.get (w 1))
    irqNoLast := trunc 8 (QDMA_SW_CTXT_W1_IRQ_NO_LAST_MASK.get (w 1))
    err := trunc 8 (QDMA_SW_CTXT_W1_ERR_MASK.get (w 1))
    errWbSent := trunc 8 (QDMA_SW_CTXT_W1_ERR_WB_SENT_MASK.get (w 1))
    irqReq := trunc 8 (QDMA_SW_CTXT_W1_IRQ_REQ_MASK.get (w 1))
    mrkrDis := trunc 8 (QDMA_SW_CTXT_W1_MRKR_DIS_MASK.get (w 1))
    isMm := trunc 8 (QDMA_SW_CTXT_W1_IS_MM_MASK.get (w 1))
    ringBsAddr := (w 3 <<< 32) % 2 ^ 64 ||| w 2
    vec := trunc 16 (QDMA_SW_CTXT_W4_VEC_MASK.get (w 4))
    intrAggr := trunc 8 (QDMA_SW_CTXT_W4_INTR_AGGR_MASK.get (w 4)) }

/-- `qdma_sw_context_read`. -/
def qdmaSwContextRead (c2h : Bool) (hwQid : ℕ) (mem : IndCtxtMem) (out : DescqSwCtxt) :
    DescqSwCtxt :=
  swOfWords (indirectRegRead (swSel c2h) hwQid QDMA_SW_CONTEXT_NUM_WORDS mem) out

/-- The fields of the soft core from `ctxt`, the others from `out`. -/
def swStored (ctxt out : DescqSwCtxt) : DescqSwCtxt :=
  { ctxt with
    pasidEn := out.pasidEn, disIntrOnVf := out.disIntrOnVf, virtioEn := out.virtioEn
    packBypOut := out.packBypOut, irqByp := out.irqByp, hostId := out.hostId
    pasid := out.pasid, virtioDscBase := out.virtioDscBase }

/-- The fields fit the widths of their register fields. -/
structure SwFits (ctxt : DescqSwCtxt) : Prop where
  fields : ∀ word ∈ swWords ctxt, AllFit word
  ringBsAddr : ctxt.ringBsAddr < 2 ^ 64

theorem swWords_laidOut (ctxt : DescqSwCtxt) : ∀ word ∈ swWords ctxt, LaidOut word := by
  simp only [swWords, LaidOut, swW0, swW1, swW2, swW3, swW4, List.forall_mem_cons, List.map]
  decide

/-- Everything stored is found. -/
theorem swOfWords_eq {ctxt : DescqSwCtxt} (h : SwFits ctxt) {w : ℕ → ℕ}
    (hw : Holds w (swWords ctxt)) (out : DescqSwCtxt) : swOfWords w out = swStored ctxt out := by
  obtain ⟨-, h0⟩ := hw 0 _ rfl
  obtain ⟨-, h1⟩ := hw 1 _ rfl
  obtain ⟨h2, -⟩ := hw 2 _ rfl
  obtain ⟨h3, -⟩ := hw 3 _ rfl
  obtain ⟨-, h4⟩ := hw 4 _ rfl
  simp only [swW0, swW1, swW4, List.map_cons, List.map_nil, List.cons.injEq, and_true] at h0 h1 h4
  have hring : (w 3 <<< 32) % 2 ^ 64 ||| w 2 = ctxt.ringBsAddr := by
    rw [h2, h3]
    exact join_packed_halves h.ringBsAddr
  unfold swOfWords swStored
  simp (disch := decide) only [trunc_get]
  simp only [h0, h1, h4, hring]

/-! ## Prefetch context -/

/-- The words of `qdma_pfetch_context_write`. -/
def pfetchW0 (ctxt : DescqPrefetchCtxt) : List (Mask × ℕ) :=
  [(QDMA_PFTCH_CTXT_W0_BYPASS_MASK, ctxt.bypass),
   (QDMA_PFTCH_CTXT_W0_BUF_SIZE_IDX_MASK, ctxt.bufszIdx),
   (QDMA_PFTCH_CTXT_W0_PORT_ID_MASK, ctxt.portId),
   (QDMA_PFTCH_CTXT_W0_ERR_MASK, ctxt.err),
   (QDMA_PFTCH_CTXT_W0_PFETCH_EN_MASK, ctxt.pfchEn),
   (QDMA_PFTCH_CTXT_W0_Q_IN_PFETCH_MASK, ctxt.pfch),
   (QDMA_PFTCH_CTXT_W0_SW_CRDT_L_MASK, QDMA_PFTCH_CTXT_SW_CRDT_GET_L_MASK.get ctxt.swCrdt)]

def pfetchW1 (ctxt : DescqPrefetchCtxt) : List (Mask × ℕ) :=
  [(QDMA_PFTCH_CTXT_W1_SW_CRDT_H_MASK, QDMA_PFTCH_CTXT_SW_CRDT_GET_H_MASK.get ctxt.swCrdt),
   (QDMA_PFTCH_CTXT_W1_VALID_MASK, ctxt.valid)]

/-- All words. -/
def pfetchWords (ctxt : DescqPrefetchCtxt) : List (List (Mask × ℕ)) :=
  [pfetchW0 ctxt, pfetchW1 ctxt]

/-- `qdma_pfetch_context_write`. -/
def qdmaPfetchContextWrite (hwQid : ℕ) (ctxt : DescqPrefetchCtxt) (mem : IndCtxtMem) :
    ℤ × IndCtxtMem :=
  (0, indirectRegWrite QDMA_IND_CTXT_DATA_NUM_REGS .pftch hwQid ((pfetchWords ctxt).map pack) mem)

/-- The context `out` with what is in the words that `qdma_pfetch_context_read` has read. -/
def pfetchOfWords (w : ℕ → ℕ) (out : DescqPrefetchCtxt) : DescqPrefetchCtxt :=
  let swCrdtL := QDMA_PFTCH_CTXT_W0_SW_CRDT_L_MASK.get (w 0)
  let swCrdtH := QDMA_PFTCH_CTXT_W1_SW_CRDT_H_MASK.get (w 1)
  { out with
    bypass := trunc 8 (QDMA_PFTCH_CTXT_W0_BYPASS_MASK.get (w 0))
    bufszIdx := trunc 8 (QDMA_PFTCH_CTXT_W0_BUF_SIZE_IDX_MASK.get (w 0))
    portId := trunc 8 (QDMA_PFTCH_CTXT_W0_PORT_ID_MASK.get (w 0))
    err := trunc 8 (QDMA_PFTCH_CTXT_W0_ERR_MASK.get (w 0))
    pfchEn := trunc 8 (QDMA_PFTCH_CTXT_W0_PFETCH_EN_MASK.get (w 0))
    pfch := trunc 8 (QDMA_PFTCH_CTXT_W0_Q_IN_PFETCH_MASK.get (w 0))
    valid := trunc 8 (QDMA_PFTCH_CTXT_W1_VALID_MASK.get (w 1))
    swCrdt := trunc 16 (QDMA_PFTCH_CTXT_SW_CRDT_GET_L_MASK.set 32 swCrdtL |||
      QDMA_PFTCH_CTXT_SW_CRDT_GET_H_MASK.set 32 swCrdtH) }

/-- `qdma_pfetch_context_read`. -/
def qdmaPfetchContextRead (hwQid : ℕ) (mem : IndCtxtMem) (out : DescqPrefetchCtxt) :
    DescqPrefetchCtxt :=
  pfetchOfWords (indirectRegRead .pftch hwQid QDMA_PFETCH_CONTEXT_NUM_WORDS mem) out

/-- The fields of the soft core from `ctxt`, the others from `out`. -/
def pfetchStored (ctxt out : DescqPrefetchCtxt) : DescqPrefetchCtxt :=
  { ctxt with varDesc := out.varDesc, numPftch := out.numPftch }

/-- The fields fit the widths of their register fields. -/
structure PfetchFits (ctxt : DescqPrefetchCtxt) : Prop where
  fields : ∀ word ∈ pfetchWords ctxt, AllFit word
  swCrdt : ctxt.swCrdt < 2 ^ 16

theorem pfetchWords_laidOut (ctxt : DescqPrefetchCtxt) :
    ∀ word ∈ pfetchWords ctxt, LaidOut word := by
  simp only [pfetchWords, LaidOut, pfetchW0, pfetchW1, List.forall_mem_cons, List.map]
  decide

/-- Everything stored is found. -/
theorem pfetchOfWords_eq {ctxt : DescqPrefetchCtxt} (h : PfetchFits ctxt) {w : ℕ → ℕ}
    (hw : Holds w (pfetchWords ctxt)) (out : DescqPrefetchCtxt) :
    pfetchOfWords w out = pfetchStored ctxt out := by
  obtain ⟨-, h0⟩ := hw 0 _ rfl
  obtain ⟨-, h1⟩ := hw 1 _ rfl
  simp only [pfetchW0, pfetchW1, List.map_cons, List.map_nil, List.cons.injEq, and_true] at h0 h1
  unfold pfetchOfWords pfetchStored
  simp (disch := decide) only [trunc_get]
  simp only [h0, h1, swCrdt_join h.swCrdt, trunc_of_lt h.swCrdt]

/-! ## Completion context -/

/-- The words of `qdma_cmpt_context_write`. -/
def cmptW0 (ctxt : DescqCmptCtxt) : List (Mask × ℕ) :=
  [(QDMA_COMPL_CTXT_W0_EN_STAT_DESC_MASK, ctxt.enStatDesc),
   (QDMA_COMPL_CTXT_W0_EN_INT_MASK, ctxt.enInt),
   (QDMA_COMPL_CTXT_W0_TRIG_MODE_MASK, ctxt.trigMode),
   (QDMA_COMPL_CTXT_W0_FNC_ID_MASK, ctxt.fncId),
   (QDMA_COMPL_CTXT_W0_COUNTER_IDX_MASK, ctxt.counterIdx),
   (QDMA_COMPL_CTXT_W0_TIMER_IDX_MASK, ctxt.timerIdx),
   (QDMA_COMPL_CTXT_W0_INT_ST_MASK, ctxt.inSt),
   (QDMA_COMPL_CTXT_W0_COLOR_MASK, ctxt.color),
   (QDMA_COMPL_CTXT_W0_RING_SZ_MASK, ctxt.ringszIdx)]

def cmptW1 (ctxt : DescqCmptCtxt) : List (Mask × ℕ) :=
  [(QDMA_COMPL_CTXT_W1_BADDR_64_L_MASK, QDMA_COMPL_CTXT_BADDR_GET_L_MASK.get ctxt.bsAddr)]

def cmptW2 (ctxt : DescqCmptCtxt) : List (Mask × ℕ) :=
  [(QDMA_COMPL_CTXT_W2_BADDR_64_H_MASK, QDMA_COMPL_CTXT_BADDR_GET_H_MASK.get ctxt.bsAddr),
   (QDMA_COMPL_CTXT_W2_DESC_SIZE_MASK, ctxt.descSz),
   (QDMA_COMPL_CTXT_W2_PIDX_L_MASK, QDMA_COMPL_CTXT_PIDX_GET_L_MASK.get ctxt.pidx)]

def cmptW3 (ctxt : DescqCmptCtxt) : List (Mask × ℕ) :=
  [(QDMA_COMPL_CTXT_W3_PIDX_H_MASK, QDMA_COMPL_CTXT_PIDX_GET_H_MASK.get ctxt.pidx),
   (QDMA_COMPL_CTXT_W3_CIDX_MASK, ctxt.cidx),
   (QDMA_COMPL_CTXT_W3_VALID_MASK, ctxt.valid),
   (QDMA_COMPL_CTXT_W3_ERR_MASK, ctxt.err),
   (QDMA_COMPL_CTXT_W3_USR_TRG_PND_MASK, ctxt.userTrigPend)]

def cmptW4 (ctxt : DescqCmptCtxt) : List (Mask × ℕ) :=
  [(QDMA_COMPL_CTXT_W4_TMR_RUN_MASK, ctxt.timerRunning),
   (QDMA_COMPL_CTXT_W4_FULL_UPDT_MASK, ctxt.fullUpd),
   (QDMA_COMPL_CTXT_W4_OVF_CHK_DIS_MASK, ctxt.ovfChkDis),
   (QDMA_COMPL_CTXT_W4_AT_MASK, ctxt.at_),
   (QDMA_COMPL_CTXT_W4_INTR_VEC_MASK, ctxt.vec),
   (QDMA_COMPL_CTXT_W4_INTR_AGGR_MASK, ctxt.intAggr)]

/-- All words. -/
def cmptWords (ctxt : DescqCmptCtxt) : List (List (Mask × ℕ)) :=
  [cmptW0 ctxt, cmptW1 ctxt, cmptW2 ctxt, cmptW3 ctxt, cmptW4 ctxt]

/-- `qdma_cmpt_context_write`. -/
def qdmaCmptContextWrite (hwQid : ℕ) (ctxt : DescqCmptCtxt) (mem : IndCtxtMem) :
    ℤ × IndCtxtMem :=
  if ctxt.trigMode > QDMA_CMPT_UPDATE_TRIG_MODE_TMR_CNTR then (-QDMA_ERR_INV_PARAM, mem)
  else (0, indirectRegWrite QDMA_IND_CTXT_DATA_NUM_REGS .cmpt hwQid
    ((cmptWords ctxt).map pack) mem)

/-- The context `out` with what is in the words that `qdma_cmpt_context_read` has read. -/
def cmptOfWords (w : ℕ → ℕ) (out : DescqCmptCtxt) : DescqCmptCtxt :=
  let baddrL := QDMA_COMPL_CTXT_W1_BADDR_64_L_MASK.get (w 1)
  let baddrH := QDMA_COMPL_CTXT_W2_BADDR_64_H_MASK.get (w 2)
  let pidxL := QDMA_COMPL_CTXT_W2_PIDX_L_MASK.get (w 2)
  let pidxH := QDMA_COMPL_CTXT_W3_PIDX_H_MASK.get (w 3)
  { out with
    enStatDesc := trunc 8 (QDMA_COMPL_CTXT_W0_EN_STAT_DESC_MASK.get (w 0))
    enInt := trunc 8 (QDMA_COMPL_CTXT_W0_EN_INT_MASK.get (w 0))
    trigMode := trunc 8 (QDMA_COMPL_CTXT_W0_TRIG_MODE_MASK.get (w 0))
    fncId := trunc 8 (QDMA_COMPL_CTXT_W0_FNC_ID_MASK.get (w 0))
    counterIdx := trunc 8 (QDMA_COMPL_CTXT_W0_COUNTER_IDX_MASK.get (w 0))
    timerIdx := trunc 8 (QDMA_COMPL_CTXT_W0_TIMER_IDX_MASK.get (w 0))
    inSt := trunc 8 (QDMA_COMPL_CTXT_W0_INT_ST_MASK.get (w 0))
    color := trunc 8 (QDMA_COMPL_CTXT_W0_COLOR_MASK.get (w 0))
    ringszIdx := trunc 8 (QDMA_COMPL_CTXT_W0_RING_SZ_MASK.get (w 0))
    descSz := trunc 8 (QDMA_COMPL_CTXT_W2_DESC_SIZE_MASK.get (w 2))
    cidx := trunc 16 (QDMA_COMPL_CTXT_W3_CIDX_MASK.get (w 3))
    valid := trunc 8 (QDMA_COMPL_CTXT_W3_VALID_MASK.get (w 3))
    err := trunc 8 (QDMA_COMPL_CTXT_W3_ERR_MASK.get (w 3))
    userTrigPend := trunc 8 (QDMA_COMPL_CTXT_W3_USR_TRG_PND_MASK.get (w 3))
    timerRunning := trunc 8 (QDMA_COMPL_CTXT_W4_TMR_RUN_MASK.get (w 4))
    fullUpd := trunc 8 (QDMA_COMPL_CTXT_W4_FULL_UPDT_MASK.get (w 4))
    ovfChkDis := trunc 8 (QDMA_COMPL_CTXT_W4_OVF_CHK_DIS_MASK.get (w 4))
    at_ := trunc 8 (QDMA_COMPL_CTXT_W4_AT_MASK.get (w 4))
    vec := trunc 16 (QDMA_COMPL_CTXT_W4_INTR_VEC_MASK.get (w 4))
    intAggr := trunc 8 (QDMA_COMPL_CTXT_W4_INTR_AGGR_MASK.get (w 4))
    bsAddr := QDMA_COMPL_CTXT_BADDR_GET_L_MASK.set 64 baddrL |||
      QDMA_COMPL_CTXT_BADDR_GET_H_MASK.set 64 baddrH
    pidx := trunc 16 (QDMA_COMPL_CTXT_PIDX_GET_L_MASK.set 32 pidxL |||
      QDMA_COMPL_CTXT_PIDX_GET_H_MASK.set 32 pidxH) }

/-- `qdma_cmpt_context_read`. -/
def qdmaCmptContextRead (hwQid : ℕ) (mem : IndCtxtMem) (out : DescqCmptCtxt) : DescqCmptCtxt :=
  cmptOfWords (indirectRegRead .cmpt hwQid QDMA_CMPT_CONTEXT_NUM_WORDS mem) out

/-- The fields of the soft core from `ctxt`, the others from `out`. -/
def cmptStored (ctxt out : DescqCmptCtxt) : DescqCmptCtxt :=
  { ctxt with
    disIntrOnVf := out.disIntrOnVf, vio := out.vio, dirC2h := out.dirC2h, hostId := out.hostId
    pasid := out.pasid, pasidEn := out.pasidEn, vioEop := out.vioEop, shCmpt := out.shCmpt }

/-- The fields fit the widths of their register fields. The base address is aligned to 4 KiB. -/
structure CmptFits (ctxt : DescqCmptCtxt) : Prop where
  fields : ∀ word ∈ cmptWords ctxt, AllFit word
  bsAddr : ctxt.bsAddr < 2 ^ 64
  aligned : 2 ^ 12 ∣ ctxt.bsAddr
  pidx : ctxt.pidx < 2 ^ 16

theorem cmptWords_laidOut (ctxt : DescqCmptCtxt) : ∀ word ∈ cmptWords ctxt, LaidOut word := by
  simp only [cmptWords, LaidOut, cmptW0, cmptW1, cmptW2, cmptW3, cmptW4, List.forall_mem_cons,
    List.map]
  decide

theorem bsAddr_join {v : ℕ} (h : v < 2 ^ 64) (haligned : 2 ^ 12 ∣ v) :
    QDMA_COMPL_CTXT_BADDR_GET_L_MASK.set 64 (QDMA_COMPL_CTXT_BADDR_GET_L_MASK.get v) |||
      QDMA_COMPL_CTXT_BADDR_GET_H_MASK.set 64 (QDMA_COMPL_CTXT_BADDR_GET_H_MASK.get v) = v := by
  rw [Mask.set_get (by decide), Mask.set_get (by decide), ← Nat.and_or_distrib_left]
  exact Mask.and_val (m := ⟨63, 12⟩) h haligned

/-- Everything stored is found. -/
theorem cmptOfWords_eq {ctxt : DescqCmptCtxt} (h : CmptFits ctxt) {w : ℕ → ℕ}
    (hw : Holds w (cmptWords ctxt)) (out : DescqCmptCtxt) :
    cmptOfWords w out = cmptStored ctxt out := by
  obtain ⟨-, h0⟩ := hw 0 _ rfl
  obtain ⟨-, h1⟩ := hw 1 _ rfl
  obtain ⟨-, h2⟩ := hw 2 _ rfl
  obtain ⟨-, h3⟩ := hw 3 _ rfl
  obtain ⟨-, h4⟩ := hw 4 _ rfl
  simp only [cmptW0, cmptW1, cmptW2, cmptW3, cmptW4, List.map_cons, List.map_nil,
    List.cons.injEq, and_true] at h0 h1 h2 h3 h4
  unfold cmptOfWords cmptStored
  simp (disch := decide) only [trunc_get]
  simp only [h0, h1, h2, h3, h4, bsAddr_join h.bsAddr h.aligned, cmptPidx_join h.pidx,
    trunc_of_lt h.pidx]

/-! ## Indirect interrupt context -/

/-- The words of `qdma_indirect_intr_context_write`. -/
def intrW0 (ctxt : IndirectIntrCtxt) : List (Mask × ℕ) :=
  [(QDMA_INTR_CTXT_W0_VALID_MASK, ctxt.valid),
   (QDMA_INTR_CTXT_W0_VEC_ID_MASK, ctxt.vec),
   (QDMA_INTR_CTXT_W0_INT_ST_MASK, ctxt.intSt),
   (QDMA_INTR_CTXT_W0_COLOR_MASK, ctxt.color),
   (QDMA_INTR_CTXT_W0_BADDR_64_MASK, QDMA_INTR_CTXT_BADDR_GET_L_MASK.get ctxt.baddr4k)]

def intrW1 (ctxt : IndirectIntrCtxt) : List (Mask × ℕ) :=
  [(QDMA_INTR_CTXT_W1_BADDR_64_MASK, QDMA_INTR_CTXT_BADDR_GET_M_MASK.get ctxt.baddr4k)]

def intrW2 (ctxt : IndirectIntrCtxt) : List (Mask × ℕ) :=
  [(QDMA_INTR_CTXT_W2_BADDR_64_MASK, QDMA_INTR_CTXT_BADDR_GET_H_MASK.get ctxt.baddr4k),
   (QDMA_INTR_CTXT_W2_PAGE_SIZE_MASK, ctxt.pageSize),
   (QDMA_INTR_CTXT_W2_PIDX_MASK, ctxt.pidx),
   (QDMA_INTR_CTXT_W2_AT_MASK, ctxt.at_)]

/-- All words. -/
def intrWords (ctxt : IndirectIntrCtxt) : List (List (Mask × ℕ)) :=
  [intrW0 ctxt, intrW1 ctxt, intrW2 ctxt]

/-- `qdma_indirect_intr_context_write`. -/
def qdmaIndirectIntrContextWrite (ringIndex : ℕ) (ctxt : IndirectIntrCtxt) (mem : IndCtxtMem) :
    ℤ × IndCtxtMem :=
  (0, indirectRegWrite QDMA_IND_CTXT_DATA_NUM_REGS .intCoal ringIndex
    ((intrWords ctxt).map pack) mem)

/-- The context `out` with what is in the words that `qdma_indirect_intr_context_read` has
read. -/
def intrOfWords (w : ℕ → ℕ) (out : IndirectIntrCtxt) : IndirectIntrCtxt :=
  let baddrL := QDMA_INTR_CTXT_W0_BADDR_64_MASK.get (w 0)
  let baddrM := QDMA_INTR_CTXT_W1_BADDR_64_MASK.get (w 1)
  let baddrH := QDMA_INTR_CTXT_W2_BADDR_64_MASK.get (w 2)
  { out with
    valid := trunc 8 (QDMA_INTR_CTXT_W0_VALID_MASK.get (w 0))
    vec := trunc 16 (QDMA_INTR_CTXT_W0_VEC_ID_MASK.get (w 0))
    intSt := trunc 8 (QDMA_INTR_CTXT_W0_INT_ST_MASK.get (w 0))
    color := trunc 8 (QDMA_INTR_CTXT_W0_COLOR_MASK.get (w 0))
    pageSize := trunc 8 (QDMA_INTR_CTXT_W2_PAGE_SIZE_MASK.get (w 2))
    pidx := trunc 16 (QDMA_INTR_CTXT_W2_PIDX_MASK.get (w 2))
    at_ := trunc 8 (QDMA_INTR_CTXT_W2_AT_MASK.get (w 2))
    baddr4k := QDMA_INTR_CTXT_BADDR_GET_L_MASK.set 64 baddrL |||
      QDMA_INTR_CTXT_BADDR_GET_M_MASK.set 64 baddrM |||
      QDMA_INTR_CTXT_BADDR_GET_H_MASK.set 64 baddrH }

/-- `qdma_indirect_intr_context_read`. -/
def qdmaIndirectIntrContextRead (ringIndex : ℕ) (mem : IndCtxtMem) (out : IndirectIntrCtxt) :
    IndirectIntrCtxt :=
  intrOfWords (indirectRegRead .intCoal ringIndex QDMA_IND_INTR_CONTEXT_NUM_WORDS mem) out

/-- The fields of the soft core from `ctxt`, the others from `out`. -/
def intrStored (ctxt out : IndirectIntrCtxt) : IndirectIntrCtxt :=
  { ctxt with
    hostId := out.hostId, pasid := out.pasid, pasidEn := out.pasidEn, funcId := out.funcId }

/-- The fields fit the widths of their register fields. The base address is aligned to 4 KiB. -/
structure IntrFits (ctxt : IndirectIntrCtxt) : Prop where
  fields : ∀ word ∈ intrWords ctxt, AllFit word
  baddr4k : ctxt.baddr4k < 2 ^ 64
  aligned : 2 ^ 12 ∣ ctxt.baddr4k

theorem intrWords_laidOut (ctxt : IndirectIntrCtxt) : ∀ word ∈ intrWords ctxt, LaidOut word := by
  simp only [intrWords, LaidOut, intrW0, intrW1, intrW2, List.forall_mem_cons, List.map]
  decide

/-- Everything stored is found. -/
theorem intrOfWords_eq {ctxt : IndirectIntrCtxt} (h : IntrFits ctxt) {w : ℕ → ℕ}
    (hw : Holds w (intrWords ctxt)) (out : IndirectIntrCtxt) :
    intrOfWords w out = intrStored ctxt out := by
  obtain ⟨-, h0⟩ := hw 0 _ rfl
  obtain ⟨-, h1⟩ := hw 1 _ rfl
  obtain ⟨-, h2⟩ := hw 2 _ rfl
  simp only [intrW0, intrW1, intrW2, List.map_cons, List.map_nil, List.cons.injEq,
    and_true] at h0 h1 h2
  unfold intrOfWords intrStored
  simp (disch := decide) only [trunc_get]
  simp only [h0, h1, h2, intrBaddr_join h.baddr4k h.aligned]

/-! ## Round trips -/

/-- A context that can be written. -/
inductive Ctxt
  | fmap (config : FmapCfg)
  | sw (c2h : Bool) (ctxt : DescqSwCtxt)
  | pfetch (ctxt : DescqPrefetchCtxt)
  | cmpt (ctxt : DescqCmptCtxt)
  | intr (ctxt : IndirectIntrCtxt)
  deriving DecidableEq

namespace Ctxt

/-- The words of the context. -/
def words : Ctxt → List (List (Mask × ℕ))
  | fmap config => fmapWords config
  | sw _ ctxt => swWords ctxt
  | pfetch ctxt => pfetchWords ctxt
  | cmpt ctxt => cmptWords ctxt
  | intr ctxt => intrWords ctxt

/-- Every field fits its register field. -/
def Fits : Ctxt → Prop
  | fmap config => FmapFits config
  | sw _ ctxt => SwFits ctxt
  | pfetch ctxt => PfetchFits ctxt
  | cmpt ctxt => CmptFits ctxt
  | intr ctxt => IntrFits ctxt

/-- The matching write. -/
def write (hwQid : ℕ) (mem : IndCtxtMem) : Ctxt → ℤ × IndCtxtMem
  | fmap config => qdmaFmapWrite hwQid config mem
  | sw c2h ctxt => qdmaSwContextWrite c2h hwQid ctxt mem
  | pfetch ctxt => qdmaPfetchContextWrite hwQid ctxt mem
  | cmpt ctxt => qdmaCmptContextWrite hwQid ctxt mem
  | intr ctxt => qdmaIndirectIntrContextWrite hwQid ctxt mem

/-- The matching read finds the fields that the soft core has. -/
def ReadsBack (hwQid : ℕ) (mem : IndCtxtMem) : Ctxt → Prop
  | fmap config => qdmaFmapRead hwQid mem = config
  | sw c2h ctxt => ∀ out, qdmaSwContextRead c2h hwQid mem out = swStored ctxt out
  | pfetch ctxt => ∀ out, qdmaPfetchContextRead hwQid mem out = pfetchStored ctxt out
  | cmpt ctxt => ∀ out, qdmaCmptContextRead hwQid mem out = cmptStored ctxt out
  | intr ctxt => ∀ out, qdmaIndirectIntrContextRead hwQid mem out = intrStored ctxt out

/-- The trigger mode is one of the enumeration. -/
def TrigModeOk : Ctxt → Prop
  | cmpt ctxt => ctxt.trigMode ≤ QDMA_CMPT_UPDATE_TRIG_MODE_TMR_CNTR
  | _ => True

instance (k : Ctxt) : Decidable k.TrigModeOk :=
  match k with
  | fmap _ | sw _ _ | pfetch _ | intr _ => isTrue trivial
  | cmpt ctxt => inferInstanceAs (Decidable (ctxt.trigMode ≤ _))

/-- The context is written and read back as it was. With another trigger mode it is refused
before anything is written. -/
def RoundTrips (hwQid : ℕ) (mem : IndCtxtMem) (k : Ctxt) : Prop :=
  if k.TrigModeOk then (k.write hwQid mem).1 = 0 ∧ k.ReadsBack hwQid (k.write hwQid mem).2
  else k.write hwQid mem = (-QDMA_ERR_INV_PARAM, mem)

theorem words_laidOut (k : Ctxt) : ∀ word ∈ k.words, LaidOut word := by
  cases k with
  | fmap config => exact fmapWords_laidOut config
  | sw c2h ctxt => exact swWords_laidOut ctxt
  | pfetch ctxt => exact pfetchWords_laidOut ctxt
  | cmpt ctxt => exact cmptWords_laidOut ctxt
  | intr ctxt => exact intrWords_laidOut ctxt

theorem roundTrips {k : Ctxt} (h : k.Fits) (hwQid : ℕ) (mem : IndCtxtMem) :
    k.RoundTrips hwQid mem := by
  cases k with
  | fmap config =>
    exact ⟨rfl, fmapOfWords_eq (holds_read (fmapWords_laidOut config) h le_rfl (by decide))⟩
  | sw c2h ctxt =>
    exact ⟨rfl, swOfWords_eq h (holds_read (swWords_laidOut ctxt) h.fields le_rfl (by decide))⟩
  | pfetch ctxt =>
    exact ⟨rfl, pfetchOfWords_eq h
      (holds_read (pfetchWords_laidOut ctxt) h.fields le_rfl (by decide))⟩
  | cmpt ctxt =>
    unfold RoundTrips
    split
    · next htrig =>
      have hwrite : (cmpt ctxt).write hwQid mem = (0, indirectRegWrite
          QDMA_IND_CTXT_DATA_NUM_REGS .cmpt hwQid ((cmptWords ctxt).map pack) mem) :=
        if_neg (not_lt.mpr htrig)
      rw [hwrite]
      exact ⟨rfl, cmptOfWords_eq h
        (holds_read (cmptWords_laidOut ctxt) h.fields le_rfl (by decide))⟩
    · next htrig => exact if_pos (not_le.mp htrig)
  | intr ctxt =>
    exact ⟨rfl, intrOfWords_eq h
      (holds_read (intrWords_laidOut ctxt) h.fields le_rfl (by decide))⟩

end Ctxt

/-- Every context whose fields fit is read back as it was written, or refused for its trigger
mode. No field touches the bits of another one. -/
theorem qdmaSoft_roundTrips (k : Ctxt) (hwQid : ℕ) (mem : IndCtxtMem) (h : k.Fits) :
    k.RoundTrips hwQid mem ∧ ∀ word ∈ k.words, FieldsApart word :=
  ⟨Ctxt.roundTrips h hwQid mem, fun word hword => (k.words_laidOut word hword).fieldsApart⟩

/-- A completion context at an address of 4 KiB with the last trigger mode. -/
theorem qdmaSoft_roundTrips_cmpt :
    (Ctxt.cmpt { trigMode := 5, bsAddr := 4096 }).RoundTrips 5 (fun _ _ _ => 0) ∧
      ∀ word ∈ (Ctxt.cmpt { trigMode := 5, bsAddr := 4096 }).words, FieldsApart word :=
  qdmaSoft_roundTrips _ 5 _ ⟨by decide, by decide, by decide, by decide⟩

/-- A trigger mode of 6 fits the 3 bits of its field, but the context is not written. -/
theorem qdmaSoft_trigMode_refused :
    (Ctxt.cmpt { trigMode := 6 }).Fits ∧
      ¬ (Ctxt.cmpt { trigMode := 6 }).ReadsBack 5
        ((Ctxt.cmpt { trigMode := 6 }).write 5 fun _ _ _ => 0).2 := by
  refine ⟨⟨by decide, by decide, by decide, by decide⟩, fun h => ?_⟩
  have htrig := congrArg DescqCmptCtxt.trigMode (h {})
  exact absurd htrig (by decide)

end OnicDriver.Access.QdmaSoft
