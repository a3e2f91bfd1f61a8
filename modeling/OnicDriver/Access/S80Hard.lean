import OnicDriver.Access.S80HardReg
import OnicDriver.Access.Indirect

/-!
# Contexts of the S80 hard IP

The functions of `qdma_s80_hard_access.c` that encode contexts into indirect data
words and decode them. The interrupt vectors of the two directions of a queue share
one word. A read leaves the fields that the hard IP does not have as they are in the
structure it is given.
-/

namespace OnicDriver.Access.S80Hard

open Lib

/-! ## Vectors of a queue -/

/-- The fields of a direction in the word of the vectors. -/
def qid2vecFields (c2h : Bool) (ctxt : Qid2vec) : List (Mask × ℕ) :=
  if c2h then
    [(C2H_QID2VEC_MAP_C2H_VECTOR_MASK, ctxt.c2hVector),
     (C2H_QID2VEC_MAP_C2H_EN_COAL_MASK, ctxt.c2hEnCoal)]
  else
    [(QDMA_S80_HARD_QID2VEC_H2C_VECTOR, ctxt.h2cVector),
     (QDMA_S80_HARD_QID2VEC_H2C_COAL_EN, ctxt.h2cEnCoal)]

/-- The bits of the other direction that a write keeps. -/
def qid2vecKept (c2h : Bool) : ℕ :=
  if c2h then QDMA_S80_HARD_QID2VEC_H2C_VECTOR.val ||| QDMA_S80_HARD_QID2VEC_H2C_COAL_EN.val
  else C2H_QID2VEC_MAP_C2H_VECTOR_MASK.val ||| C2H_QID2VEC_MAP_C2H_EN_COAL_MASK.val

/-- `qdma_s80_hard_qid2vec_write`. -/
def qdmaS80HardQid2vecWrite (c2h : Bool) (hwQid : ℕ) (ctxt : Qid2vec) (mem : IndCtxtMem) :
    ℤ × IndCtxtMem :=
  let qid2vec := indirectRegRead .fmap hwQid 1 mem 0
  let qid2vec := qid2vec &&& qid2vecKept c2h ||| pack (qid2vecFields c2h ctxt)
  (0, indirectRegWrite QDMA_S80_HARD_IND_CTXT_DATA_NUM_REGS .fmap hwQid [qid2vec] mem)

/-- `qdma_s80_hard_qid2vec_read`. -/
def qdmaS80HardQid2vecRead (c2h : Bool) (hwQid : ℕ) (mem : IndCtxtMem) (out : Qid2vec) :
    Qid2vec :=
  let w := indirectRegRead .fmap hwQid QDMA_S80_HARD_QID2VEC_CONTEXT_NUM_WORDS mem
  if c2h then
    { out with
      c2hVector := trunc 8 (C2H_QID2VEC_MAP_C2H_VECTOR_MASK.get (w 0))
      c2hEnCoal := trunc 8 (C2H_QID2VEC_MAP_C2H_EN_COAL_MASK.get (w 0)) }
  else
    { out with
      h2cVector := trunc 8 (QDMA_S80_HARD_QID2VEC_H2C_VECTOR.get (w 0))
      h2cEnCoal := trunc 8 (QDMA_S80_HARD_QID2VEC_H2C_COAL_EN.get (w 0)) }

/-- The vector of a direction from `ctxt`, the other one from `out`. -/
def qid2vecStored (c2h : Bool) (ctxt out : Qid2vec) : Qid2vec :=
  if c2h then { out with c2hVector := ctxt.c2hVector, c2hEnCoal := ctxt.c2hEnCoal }
  else { out with h2cVector := ctxt.h2cVector, h2cEnCoal := ctxt.h2cEnCoal }

theorem qid2vecFields_laidOut (c2h : Bool) (ctxt : Qid2vec) :
    LaidOut (qid2vecFields c2h ctxt) := by
  cases c2h <;>
    simp only [qid2vecFields, LaidOut, List.map, reduceIte, Bool.false_eq_true] <;> decide

/-! ## Software context -/

/-- The words of `qdma_s80_hard_sw_context_write`. The base address takes whole words. -/
def swW0 (ctxt : DescqSwCtxt) : List (Mask × ℕ) :=
  [(SW_IND_CTXT_DATA_W0_PIDX_MASK, ctxt.pidx),
   (SW_IND_CTXT_DATA_W0_IRQ_ARM_MASK, ctxt.irqArm)]

def swW1 (ctxt : DescqSwCtxt) : List (Mask × ℕ) :=
  [(SW_IND_CTXT_DATA_W1_QEN_MASK, ctxt.qen),
   (SW_IND_CTXT_DATA_W1_FCRD_EN_MASK, ctxt.frcdEn),
   (SW_IND_CTXT_DATA_W1_WBI_CHK_MASK, ctxt.wbiChk),
   (SW_IND_CTXT_DATA_W1_WBI_INTVL_EN_MASK, ctxt.wbiIntvlEn),
   (SW_IND_CTXT_DATA_W1_FNC_ID_MASK, ctxt.fncId),
   (SW_IND_CTXT_DATA_W1_RNG_SZ_MASK, ctxt.rngszIdx),
   (SW_IND_CTXT_DATA_W1_DSC_SZ_MASK, ctxt.descSz),
   (SW_IND_CTXT_DATA_W1_BYPASS_MASK, ctxt.bypass),
   (SW_IND_CTXT_DATA_W1_MM_CHN_MASK, ctxt.mmChn),
   (SW_IND_CTXT_DATA_W1_WBK_EN_MASK, ctxt.wbkEn),
   (SW_IND_CTXT_DATA_W1_IRQ_EN_MASK, ctxt.irqEn),
   (SW_IND_CTXT_DATA_W1_PORT_ID_MASK, ctxt.portId),
   (SW_IND_CTXT_DATA_W1_IRQ_NO_LAST_MASK, ctxt.irqNoLast),
   (SW_IND_CTXT_DATA_W1_ERR_MASK, ctxt.err),
   (SW_IND_CTXT_DATA_W1_ERR_WB_SENT_MASK, ctxt.errWbSent),
   (SW_IND_CTXT_DATA_W1_IRQ_REQ_MASK, ctxt.irqReq),
   (SW_IND_CTXT_DATA_W1_MRKR_DIS_MASK, ctxt.mrkrDis),
   (SW_IND_CTXT_DATA_W1_IS_MM_MASK, ctxt.isMm)]

def swW2 (ctxt : DescqSwCtxt) : List (Mask × ℕ) :=
  [(SW_IND_CTXT_DATA_W2_DSC_BASE_L_MASK, ctxt.ringBsAddr &&& 0xffffffff)]

def swW3 (ctxt : DescqSwCtxt) : List (Mask × ℕ) :=
  [(SW_IND_CTXT_DATA_W3_DSC_BASE_H_MASK, (ctxt.ringBsAddr >>> 32) &&& 0xffffffff)]

/-- All words. -/
def swWords (ctxt : DescqSwCtxt) : List (List (Mask × ℕ)) :=
  [swW0 ctxt, swW1 ctxt, swW2 ctxt, swW3 ctxt]

/-- The check of `qdma_s80_hard_sw_context_write`. -/
def SwOk (ctxt : DescqSwCtxt) : Prop :=
  ¬ (ctxt.descSz > QDMA_DESC_SIZE_64B ∨ ctxt.rngszIdx ≥ QDMA_NUM_RING_SIZES)

instance (ctxt : DescqSwCtxt) : Decidable (SwOk ctxt) := inferInstanceAs (Decidable (¬ _))

/-- `qdma_s80_hard_sw_context_write`. -/
def qdmaS80HardSwContextWrite (c2h : Bool) (hwQid : ℕ) (ctxt : DescqSwCtxt) (mem : IndCtxtMem) :
    ℤ × IndCtxtMem :=
  if SwOk ctxt then
    (0, indirectRegWrite QDMA_S80_HARD_IND_CTXT_DATA_NUM_REGS (swSel c2h) hwQid
      ((swWords ctxt).map pack) mem)
  else (-QDMA_ERR_INV_PARAM, mem)

/-- The context `out` with what is in the words of the software context. -/
def swOfWords (w : ℕ → ℕ) (out : DescqSwCtxt) : DescqSwCtxt :=
  { out with
    pidx := trunc 16 (SW_IND_CTXT_DATA_W0_PIDX_MASK.get (w 0))
    irqArm := trunc 8 (SW_IND_CTXT_DATA_W0_IRQ_ARM_MASK.get (w 0))
    qen := trunc 8 (SW_IND_CTXT_DATA_W1_QEN_MASK.get (w 1))
    frcdEn := trunc 8 (SW_IND_CTXT_DATA_W1_FCRD_EN_MASK.get (w 1))
    wbiChk := trunc 8 (SW_IND_CTXT_DATA_W1_WBI_CHK_MASK.get (w 1))
    wbiIntvlEn := trunc 8 (SW_IND_CTXT_DATA_W1_WBI_INTVL_EN_MASK.get (w 1))
    fncId := trunc 8 (SW_IND_CTXT_DATA_W1_FNC_ID_MASK.get (w 1))
    rngszIdx := trunc 8 (SW_IND_CTXT_DATA_W1_RNG_SZ_MASK.get (w 1))
    descSz := trunc 8 (SW_IND_CTXT_DATA_W1_DSC_SZ_MASK.get (w 1))
    bypass := trunc 8 (SW_IND_CTXT_DATA_W1_BYPASS_MASK.get (w 1))
    mmChn := trunc 8 (SW_IND_CTXT_DATA_W1_MM_CHN_MASK.get (w 1))
    wbkEn := trunc 8 (SW_IND_CTXT_DATA_W1_WBK_EN_MASK.get (w 1))
    irqEn := trunc 8 (SW_IND_CTXT_DATA_W1_IRQ_EN_MASK.get (w 1))
    portId := trunc 8 (SW_IND_CTXT_DATA_W1_PORT_ID_MASK.get (w 1))
    irqNoLast := trunc 8 (SW_IND_CTXT_DATA_W1_IRQ_NO_LAST_MASK.get (w 1))
    err := trunc 8 (SW_IND_CTXT_DATA_W1_ERR_MASK.get (w 1))
    errWbSent := trunc 8 (SW_IND_CTXT_DATA_W1_ERR_WB_SENT_MASK.get (w 1))
    irqReq := trunc 8 (SW_IND_CTXT_DATA_W1_IRQ_REQ_MASK.get (w 1))
    mrkrDis := trunc 8 (SW_IND_CTXT_DATA_W1_MRKR_DIS_MASK.get (w 1))
    isMm := trunc 8 (SW_IND_CTXT_DATA_W1_IS_MM_MASK.get (w 1))
    ringBsAddr := (w 3 <<< 32) % 2 ^ 64 ||| w 2 }

/-- The vector of a direction put into a software context. -/
def withVector (c2h : Bool) (qid2vec : Qid2vec) (ctxt : DescqSwCtxt) : DescqSwCtxt :=
  if c2h then { ctxt with vec := qid2vec.c2hVector, intrAggr := qid2vec.c2hEnCoal }
  else { ctxt with vec := qid2vec.h2cVector, intrAggr := qid2vec.h2cEnCoal }

/-- `qdma_s80_hard_sw_context_read`. -/
def qdmaS80HardSwContextRead (c2h : Bool) (hwQid : ℕ) (mem : IndCtxtMem) (out : DescqSwCtxt) :
    DescqSwCtxt :=
  let w := indirectRegRead (swSel c2h) hwQid QDMA_S80_HARD_SW_CONTEXT_NUM_WORDS mem
  withVector c2h (qdmaS80HardQid2vecRead c2h hwQid mem {}) (swOfWords w out)

/-- The fields of the hard IP from `ctxt`, the others from `out`. -/
def swStored (ctxt out : DescqSwCtxt) : DescqSwCtxt :=
  { ctxt with
    vec := out.vec, intrAggr := out.intrAggr, at_ := out.at_, fetchMax := out.fetchMax
    pasidEn := out.pasidEn, disIntrOnVf := out.disIntrOnVf, virtioEn := out.virtioEn
    packBypOut := out.packBypOut, irqByp := out.irqByp, hostId := out.hostId
    pasid := out.pasid, virtioDscBase := out.virtioDscBase }

/-- The fields fit the widths of their register fields. -/
structure SwFits (ctxt : DescqSwCtxt) : Prop where
  fields : ∀ word ∈ swWords ctxt, AllFit word
  ringBsAddr : ctxt.ringBsAddr < 2 ^ 64

theorem swWords_laidOut (ctxt : DescqSwCtxt) : ∀ word ∈ swWords ctxt, LaidOut word := by
  simp only [swWords, LaidOut, swW0, swW1, swW2, swW3, List.forall_mem_cons, List.map]
  decide

/-- Everything stored is found. -/
theorem swOfWords_eq {ctxt : DescqSwCtxt} (h : SwFits ctxt) {w : ℕ → ℕ}
    (hw : Holds w (swWords ctxt)) (out : DescqSwCtxt) : swOfWords w out = swStored ctxt out := by
  obtain ⟨-, h0⟩ := hw 0 _ rfl
  obtain ⟨-, h1⟩ := hw 1 _ rfl
  obtain ⟨h2, -⟩ := hw 2 _ rfl
  obtain ⟨h3, -⟩ := hw 3 _ rfl
  simp only [swW0, swW1, List.map_cons, List.map_nil, List.cons.injEq, and_true] at h0 h1
  have hring : (w 3 <<< 32) % 2 ^ 64 ||| w 2 = ctxt.ringBsAddr := by
    rw [h2, h3]
    exact join_packed_halves h.ringBsAddr
  unfold swOfWords swStored
  simp (disch := decide) only [trunc_get]
  simp only [h0, h1, hring]

/-! ## Prefetch context -/

/-- The words of `qdma_s80_hard_pfetch_context_write`. -/
def pfetchW0 (ctxt : DescqPrefetchCtxt) : List (Mask × ℕ) :=
  [(PREFETCH_CTXT_DATA_W0_BYPASS_MASK, ctxt.bypass),
   (PREFETCH_CTXT_DATA_W0_BUF_SIZE_IDX_MASK, ctxt.bufszIdx),
   (PREFETCH_CTXT_DATA_W0_PORT_ID_MASK, ctxt.portId),
   (PREFETCH_CTXT_DATA_W0_ERR_MASK, ctxt.err),
   (PREFETCH_CTXT_DATA_W0_PFCH_EN_MASK, ctxt.pfchEn),
   (PREFETCH_CTXT_DATA_W0_PFCH_MASK, ctxt.pfch),
   (PREFETCH_CTXT_DATA_W0_SW_CRDT_L_MASK, QDMA_PFTCH_CTXT_SW_CRDT_GET_L_MASK.get ctxt.swCrdt)]

def pfetchW1 (ctxt : DescqPrefetchCtxt) : List (Mask × ℕ) :=
  [(PREFETCH_CTXT_DATA_W1_SW_CRDT_H_MASK, QDMA_PFTCH_CTXT_SW_CRDT_GET_H_MASK.get ctxt.swCrdt),
   (PREFETCH_CTXT_DATA_W1_VALID_MASK, ctxt.valid)]

/-- All words. -/
def pfetchWords (ctxt : DescqPrefetchCtxt) : List (List (Mask × ℕ)) :=
  [pfetchW0 ctxt, pfetchW1 ctxt]

/-- `qdma_s80_hard_pfetch_context_write`. -/
def qdmaS80HardPfetchContextWrite (hwQid : ℕ) (ctxt : DescqPrefetchCtxt) (mem : IndCtxtMem) :
    ℤ × IndCtxtMem :=
  (0, indirectRegWrite QDMA_S80_HARD_IND_CTXT_DATA_NUM_REGS .pftch hwQid
    ((pfetchWords ctxt).map pack) mem)

/-- The context `out` with what is in the words of the prefetch context. -/
def pfetchOfWords (w : ℕ → ℕ) (out : DescqPrefetchCtxt) : DescqPrefetchCtxt :=
  let swCrdtL := PREFETCH_CTXT_DATA_W0_SW_CRDT_L_MASK.get (w 0)
  let swCrdtH := PREFETCH_CTXT_DATA_W1_SW_CRDT_H_MASK.get (w 1)
  { out with
    bypass := trunc 8 (PREFETCH_CTXT_DATA_W0_BYPASS_MASK.get (w 0))
    bufszIdx := trunc 8 (PREFETCH_CTXT_DATA_W0_BUF_SIZE_IDX_MASK.get (w 0))
    portId := trunc 8 (PREFETCH_CTXT_DATA_W0_PORT_ID_MASK.get (w 0))
    err := trunc 8 (PREFETCH_CTXT_DATA_W0_ERR_MASK.get (w 0))
    pfchEn := trunc 8 (PREFETCH_CTXT_DATA_W0_PFCH_EN_MASK.get (w 0))
    pfch := trunc 8 (PREFETCH_CTXT_DATA_W0_PFCH_MASK.get (w 0))
    valid := trunc 8 (PREFETCH_CTXT_DATA_W1_VALID_MASK.get (w 1))
    swCrdt := trunc 16 (QDMA_PFTCH_CTXT_SW_CRDT_GET_L_MASK.set 32 swCrdtL |||
      QDMA_PFTCH_CTXT_SW_CRDT_GET_H_MASK.set 32 swCrdtH) }

/-- `qdma_s80_hard_pfetch_context_read`. -/
def qdmaS80HardPfetchContextRead (hwQid : ℕ) (mem : IndCtxtMem) (out : DescqPrefetchCtxt) :
    DescqPrefetchCtxt :=
  pfetchOfWords (indirectRegRead .pftch hwQid QDMA_S80_HARD_PFETCH_CONTEXT_NUM_WORDS mem) out

/-- The fields of the hard IP from `ctxt`, the others from `out`. -/
def pfetchStored (ctxt out : DescqPrefetchCtxt) : DescqPrefetchCtxt :=
  { ctxt with varDesc := out.varDesc, numPftch := out.numPftch }

/-- The fields fit the widths of their register fields. -/
structure PfetchFits (ctxt : DescqPrefetchCtxt) : Prop where
  fields : ∀ word ∈ pfetchWords ctxt, AllFit word
  swCrdt : ctxt.swCrdt < 2 ^ 16

theorem pfetchWords_laidOut (ctxt : DescqPrefetchCtxt) :
    ∀ word ∈ pfetchWords ctxt, LaidOut word := by
  simp only [pfetchWords, LaidOut, pfetchW0, pfetchW1, List.forall_mem_cons, List.map]
  decide

/-- Everything stored is found. -/
theorem pfetchOfWords_eq {ctxt : DescqPrefetchCtxt} (h : PfetchFits ctxt) {w : ℕ → ℕ}
    (hw : Holds w (pfetchWords ctxt)) (out : DescqPrefetchCtxt) :
    pfetchOfWords w out = pfetchStored ctxt out := by
  obtain ⟨-, h0⟩ := hw 0 _ rfl
  obtain ⟨-, h1⟩ := hw 1 _ rfl
  simp only [pfetchW0, pfetchW1, List.map_cons, List.map_nil, List.cons.injEq, and_true] at h0 h1
  unfold pfetchOfWords pfetchStored
  simp (disch := decide) only [trunc_get]
  simp only [h0, h1, swCrdt_join h.swCrdt, trunc_of_lt h.swCrdt]

/-! ## Completion context -/

/-- The words of `qdma_s80_hard_cmpt_context_write`. -/
def cmptW0 (ctxt : DescqCmptCtxt) : List (Mask × ℕ) :=
  [(CMPL_CTXT_DATA_W0_EN_STAT_DESC_MASK, ctxt.enStatDesc),
   (CMPL_CTXT_DATA_W0_EN_INT_MASK, ctxt.enInt),
   (CMPL_CTXT_DATA_W0_TRIG_MODE_MASK, ctxt.trigMode),
   (CMPL_CTXT_DATA_W0_FNC_ID_MASK, ctxt.fncId),
   (CMPL_CTXT_DATA_W0_CNTER_IDX_MASK, ctxt.counterIdx),
   (CMPL_CTXT_DATA_W0_TIMER_IDX_MASK, ctxt.timerIdx),
   (CMPL_CTXT_DATA_W0_INT_ST_MASK, ctxt.inSt),
   (CMPL_CTXT_DATA_W0_COLOR_MASK, ctxt.color),
   (CMPL_CTXT_DATA_W0_QSIZE_IDX_MASK, ctxt.ringszIdx),
   (CMPL_CTXT_DATA_W0_BADDR_64_L_MASK, QDMA_S80_HARD_COMPL_CTXT_BADDR_GET_L_MASK.get ctxt.bsAddr)]

def cmptW1 (ctxt : DescqCmptCtxt) : List (Mask × ℕ) :=
  [(CMPL_CTXT_DATA_W1_BADDR_64_M_MASK, QDMA_S80_HARD_COMPL_CTXT_BADDR_GET_M_MASK.get ctxt.bsAddr)]

def cmptW2 (ctxt : DescqCmptCtxt) : List (Mask × ℕ) :=
  [(CMPL_CTXT_DATA_W2_BADDR_64_H_MASK, QDMA_S80_HARD_COMPL_CTXT_BADDR_GET_H_MASK.get ctxt.bsAddr),
   (CMPL_CTXT_DATA_W2_DESC_SIZE_MASK, ctxt.descSz),
   (CMPL_CTXT_DATA_W2_PIDX_L_MASK, QDMA_S80_HARD_COMPL_CTXT_PIDX_GET_L_MASK.get ctxt.pidx)]

def cmptW3 (ctxt : DescqCmptCtxt) : List (Mask × ℕ) :=
  [(CMPL_CTXT_DATA_W3_PIDX_H_MASK, QDMA_S80_HARD_COMPL_CTXT_PIDX_GET_H_MASK.get ctxt.pidx),
   (CMPL_CTXT_DATA_W3_CIDX_MASK, ctxt.cidx),
   (CMPL_CTXT_DATA_W3_VALID_MASK, ctxt.valid),
   (CMPL_CTXT_DATA_W3_ERR_MASK, ctxt.err),
   (CMPL_CTXT_DATA_W3_USER_TRIG_PEND_MASK, ctxt.userTrigPend),
   (CMPL_CTXT_DATA_W3_TIMER_RUNNING_MASK, ctxt.timerRunning),
   (CMPL_CTXT_DATA_W3_FULL_UPD_MASK, ctxt.fullUpd)]

/-- All words. -/
def cmptWords (ctxt : DescqCmptCtxt) : List (List (Mask × ℕ)) :=
  [cmptW0 ctxt, cmptW1 ctxt, cmptW2 ctxt, cmptW3 ctxt]

/-- The check of `qdma_s80_hard_cmpt_context_write`. -/
def CmptOk (ctxt : DescqCmptCtxt) : Prop :=
  ¬ (ctxt.descSz > QDMA_DESC_SIZE_32B ∨ ctxt.ringszIdx ≥ QDMA_NUM_RING_SIZES ∨
    ctxt.counterIdx ≥ QDMA_NUM_C2H_COUNTERS ∨ ctxt.timerIdx ≥ QDMA_NUM_C2H_TIMERS ∨
    ctxt.trigMode > QDMA_CMPT_UPDATE_TRIG_MODE_TMR_CNTR)

instance (ctxt : DescqCmptCtxt) : Decidable (CmptOk ctxt) := inferInstanceAs (Decidable (¬ _))

/-- `qdma_s80_hard_cmpt_context_write`. -/
def qdmaS80HardCmptContextWrite (hwQid : ℕ) (ctxt : DescqCmptCtxt) (mem : IndCtxtMem) :
    ℤ × IndCtxtMem :=
  if CmptOk ctxt then
    (0, indirectRegWrite QDMA_S80_HARD_IND_CTXT_DATA_NUM_REGS .cmpt hwQid
      ((cmptWords ctxt).map pack) mem)
  else (-QDMA_ERR_INV_PARAM, mem)

/-- The context `out` with what is in the words of the completion context. -/
def cmptOfWords (w : ℕ → ℕ) (out : DescqCmptCtxt) : DescqCmptCtxt :=
  let baddrL := CMPL_CTXT_DATA_W0_BADDR_64_L_MASK.get (w 0)
  let baddrM := CMPL_CTXT_DATA_W1_BADDR_64_M_MASK.get (w 1)
  let baddrH := CMPL_CTXT_DATA_W2_BADDR_64_H_MASK.get (w 2)
  let pidxL := CMPL_CTXT_DATA_W2_PIDX_L_MASK.get (w 2)
  let pidxH := CMPL_CTXT_DATA_W3_PIDX_H_MASK.get (w 3)
  { out with
    enStatDesc := trunc 8 (CMPL_CTXT_DATA_W0_EN_STAT_DESC_MASK.get (w 0))
    enInt := trunc 8 (CMPL_CTXT_DATA_W0_EN_INT_MASK.get (w 0))
    trigMode := trunc 8 (CMPL_CTXT_DATA_W0_TRIG_MODE_MASK.get (w 0))
    fncId := trunc 8 (CMPL_CTXT_DATA_W0_FNC_ID_MASK.get (w 0))
    counterIdx := trunc 8 (CMPL_CTXT_DATA_W0_CNTER_IDX_MASK.get (w 0))
    timerIdx := trunc 8 (CMPL_CTXT_DATA_W0_TIMER_IDX_MASK.get (w 0))
    inSt := trunc 8 (CMPL_CTXT_DATA_W0_INT_ST_MASK.get (w 0))
    color := trunc 8 (CMPL_CTXT_DATA_W0_COLOR_MASK.get (w 0))
    ringszIdx := trunc 8 (CMPL_CTXT_DATA_W0_QSIZE_IDX_MASK.get (w 0))
    descSz := trunc 8 (CMPL_CTXT_DATA_W2_DESC_SIZE_MASK.get (w 2))
    cidx := trunc 16 (CMPL_CTXT_DATA_W3_CIDX_MASK.get (w 3))
    valid := trunc 8 (CMPL_CTXT_DATA_W3_VALID_MASK.get (w 3))
    err := trunc 8 (CMPL_CTXT_DATA_W3_ERR_MASK.get (w 3))
    userTrigPend := trunc 8 (CMPL_CTXT_DATA_W3_USER_TRIG_PEND_MASK.get (w 3))
    timerRunning := trunc 8 (CMPL_CTXT_DATA_W3_TIMER_RUNNING_MASK.get (w 3))
    fullUpd := trunc 8 (CMPL_CTXT_DATA_W3_FULL_UPD_MASK.get (w 3))
    bsAddr := QDMA_S80_HARD_COMPL_CTXT_BADDR_GET_L_MASK.set 64 baddrL |||
      QDMA_S80_HARD_COMPL_CTXT_BADDR_GET_M_MASK.set 64 baddrM |||
      QDMA_S80_HARD_COMPL_CTXT_BADDR_GET_H_MASK.set 64 baddrH
    pidx := trunc 16 (QDMA_S80_HARD_COMPL_CTXT_PIDX_GET_L_MASK.set 32 pidxL |||
      QDMA_S80_HARD_COMPL_CTXT_PIDX_GET_H_MASK.set 32 pidxH) }

/-- `qdma_s80_hard_cmpt_context_read`. -/
def qdmaS80HardCmptContextRead (hwQid : ℕ) (mem : IndCtxtMem) (out : DescqCmptCtxt) :
    DescqCmptCtxt :=
  cmptOfWords (indirectRegRead .cmpt hwQid QDMA_S80_HARD_CMPT_CONTEXT_NUM_WORDS mem) out

/-- The fields of the hard IP from `ctxt`, the others from `out`. -/
def cmptStored (ctxt out : DescqCmptCtxt) : DescqCmptCtxt :=
  { ctxt with
    vec := out.vec, ovfChkDis := out.ovfChkDis, at_ := out.at_, intAggr := out.intAggr
    disIntrOnVf := out.disIntrOnVf, vio := out.vio, dirC2h := out.dirC2h, hostId := out.hostId
    pasid := out.pasid, pasidEn := out.pasidEn, vioEop := out.vioEop, shCmpt := out.shCmpt }

/-- The fields fit the widths of their register fields. The base address is aligned to 64
bytes. -/
structure CmptFits (ctxt : DescqCmptCtxt) : Prop where
  fields : ∀ word ∈ cmptWords ctxt, AllFit word
  bsAddr : ctxt.bsAddr < 2 ^ 64
  aligned : 2 ^ 6 ∣ ctxt.bsAddr
  pidx : ctxt.pidx < 2 ^ 16

theorem cmptWords_laidOut (ctxt : DescqCmptCtxt) : ∀ word ∈ cmptWords ctxt, LaidOut word := by
  simp only [cmptWords, LaidOut, cmptW0, cmptW1, cmptW2, cmptW3, List.forall_mem_cons, List.map]
  decide

theorem bsAddr_join {v : ℕ} (h : v < 2 ^ 64) (haligned : 2 ^ 6 ∣ v) :
    QDMA_S80_HARD_COMPL_CTXT_BADDR_GET_L_MASK.set 64
        (QDMA_S80_HARD_COMPL_CTXT_BADDR_GET_L_MASK.get v) |||
      QDMA_S80_HARD_COMPL_CTXT_BADDR_GET_M_MASK.set 64
        (QDMA_S80_HARD_COMPL_CTXT_BADDR_GET_M_MASK.get v) |||
      QDMA_S80_HARD_COMPL_CTXT_BADDR_GET_H_MASK.set 64
        (QDMA_S80_HARD_COMPL_CTXT_BADDR_GET_H_MASK.get v) = v := by
  rw [Mask.set_get (by decide), Mask.set_get (by decide), Mask.set_get (by decide),
    ← Nat.and_or_distrib_left, ← Nat.and_or_distrib_left]
  exact Mask.and_val (m := ⟨63, 6⟩) h haligned

theorem pidx_join {v : ℕ} (h : v < 2 ^ 16) :
    QDMA_S80_HARD_COMPL_CTXT_PIDX_GET_L_MASK.set 32
        (QDMA_S80_HARD_COMPL_CTXT_PIDX_GET_L_MASK.get v) |||
      QDMA_S80_HARD_COMPL_CTXT_PIDX_GET_H_MASK.set 32
        (QDMA_S80_HARD_COMPL_CTXT_PIDX_GET_H_MASK.get v) = v := by
  rw [Mask.set_get (by decide), Mask.set_get (by decide), ← Nat.and_or_distrib_left]
  exact Mask.and_val (m := ⟨15, 0⟩) h (one_dvd _)

/-- Everything stored is found. -/
theorem cmptOfWords_eq {ctxt : DescqCmptCtxt} (h : CmptFits ctxt) {w : ℕ → ℕ}
    (hw : Holds w (cmptWords ctxt)) (out : DescqCmptCtxt) :
    cmptOfWords w out = cmptStored ctxt out := by
  obtain ⟨-, h0⟩ := hw 0 _ rfl
  obtain ⟨-, h1⟩ := hw 1 _ rfl
  obtain ⟨-, h2⟩ := hw 2 _ rfl
  obtain ⟨-, h3⟩ := hw 3 _ rfl
  simp only [cmptW0, cmptW1, cmptW2, cmptW3, List.map_cons, List.map_nil, List.cons.injEq,
    and_true] at h0 h1 h2 h3
  unfold cmptOfWords cmptStored
  simp (disch := decide) only [trunc_get]
  simp only [h0, h1, h2, h3, bsAddr_join h.bsAddr h.aligned, pidx_join h.pidx,
    trunc_of_lt h.pidx]

/-! ## Indirect interrupt context -/

/-- The words of `qdma_s80_hard_indirect_intr_context_write`. -/
def intrW0 (ctxt : IndirectIntrCtxt) : List (Mask × ℕ) :=
  [(INTR_CTXT_DATA_W0_VALID_MASK, ctxt.valid),
   (INTR_CTXT_DATA_W0_VEC_MASK, ctxt.vec),
   (INTR_CTXT_DATA_W0_INT_ST_MASK, ctxt.intSt),
   (INTR_CTXT_DATA_W0_COLOR_MASK, ctxt.color),
   (INTR_CTXT_DATA_W0_BADDR_4K_L_MASK, QDMA_S80_HARD_INTR_CTXT_BADDR_GET_L_MASK.get ctxt.baddr4k)]

def intrW1 (ctxt : IndirectIntrCtxt) : List (Mask × ℕ) :=
  [(INTR_CTXT_DATA_W1_BADDR_4K_H_MASK, QDMA_S80_HARD_INTR_CTXT_BADDR_GET_H_MASK.get ctxt.baddr4k),
   (INTR_CTXT_DATA_W1_PAGE_SIZE_MASK, ctxt.pageSize)]

def intrW2 (ctxt : IndirectIntrCtxt) : List (Mask × ℕ) :=
  [(INTR_CTXT_DATA_W2_PIDX_MASK, ctxt.pidx)]

/-- All words. -/
def intrWords (ctxt : IndirectIntrCtxt) : List (List (Mask × ℕ)) :=
  [intrW0 ctxt, intrW1 ctxt, intrW2 ctxt]

/-- The check of `qdma_s80_hard_indirect_intr_context_write`. -/
def IntrOk (ctxt : IndirectIntrCtxt) : Prop :=
  ¬ ctxt.pageSize > QDMA_INDIRECT_INTR_RING_SIZE_32KB

instance (ctxt : IndirectIntrCtxt) : Decidable (IntrOk ctxt) := inferInstanceAs (Decidable (¬ _))

/-- `qdma_s80_hard_indirect_intr_context_write`. -/
def qdmaS80HardIndirectIntrContextWrite (ringIndex : ℕ) (ctxt : IndirectIntrCtxt)
    (mem : IndCtxtMem) : ℤ × IndCtxtMem :=
  if IntrOk ctxt then
    (0, indirectRegWrite QDMA_S80_HARD_IND_CTXT_DATA_NUM_REGS .intCoal ringIndex
      ((intrWords ctxt).map pack) mem)
  else (-QDMA_ERR_INV_PARAM, mem)

/-- The context `out` with what is in the words of the interrupt context. -/
def intrOfWords (w : ℕ → ℕ) (out : IndirectIntrCtxt) : IndirectIntrCtxt :=
  let baddrL := INTR_CTXT_DATA_W0_BADDR_4K_L_MASK.get (w 0)
  let baddrH := INTR_CTXT_DATA_W1_BADDR_4K_H_MASK.get (w 1)
  { out with
    valid := trunc 8 (INTR_CTXT_DATA_W0_VALID_MASK.get (w 0))
    vec := trunc 16 (INTR_CTXT_DATA_W0_VEC_MASK.get (w 0))
    intSt := trunc 8 (INTR_CTXT_DATA_W0_INT_ST_MASK.get (w 0))
    color := trunc 8 (INTR_CTXT_DATA_W0_COLOR_MASK.get (w 0))
    pageSize := trunc 8 (INTR_CTXT_DATA_W1_PAGE_SIZE_MASK.get (w 1))
    pidx := trunc 16 (INTR_CTXT_DATA_W2_PIDX_MASK.get (w 2))
    baddr4k := QDMA_S80_HARD_INTR_CTXT_BADDR_GET_L_MASK.set 64 baddrL |||
      QDMA_S80_HARD_INTR_CTXT_BADDR_GET_H_MASK.set 64 baddrH }

/-- `qdma_s80_hard_indirect_intr_context_read`. -/
def qdmaS80HardIndirectIntrContextRead (ringIndex : ℕ) (mem : IndCtxtMem)
    (out : IndirectIntrCtxt) : IndirectIntrCtxt :=
  intrOfWords (indirectRegRead .intCoal ringIndex QDMA_S80_HARD_IND_INTR_CONTEXT_NUM_WORDS mem) out

/-- The fields of the hard IP from `ctxt`, the others from `out`. -/
def intrStored (ctxt out : IndirectIntrCtxt) : IndirectIntrCtxt :=
  { ctxt with
    at_ := out.at_, hostId := out.hostId, pasid := out.pasid, pasidEn := out.pasidEn
    funcId := out.funcId }

/-- The fields fit the widths of their register fields. The base address is aligned to 4 KiB. -/
structure IntrFits (ctxt : IndirectIntrCtxt) : Prop where
  fields : ∀ word ∈ intrWords ctxt, AllFit word
  baddr4k : ctxt.baddr4k < 2 ^ 64
  aligned : 2 ^ 12 ∣ ctxt.baddr4k

theorem intrWords_laidOut (ctxt : IndirectIntrCtxt) : ∀ word ∈ intrWords ctxt, LaidOut word := by
  simp only [intrWords, LaidOut, intrW0, intrW1, intrW2, List.forall_mem_cons, List.map]
  decide

theorem baddr4k_join {v : ℕ} (h : v < 2 ^ 64) (haligned : 2 ^ 12 ∣ v) :
    QDMA_S80_HARD_INTR_CTXT_BADDR_GET_L_MASK.set 64
        (QDMA_S80_HARD_INTR_CTXT_BADDR_GET_L_MASK.get v) |||
      QDMA_S80_HARD_INTR_CTXT_BADDR_GET_H_MASK.set 64
        (QDMA_S80_HARD_INTR_CTXT_BADDR_GET_H_MASK.get v) = v := by
  rw [Mask.set_get (by decide), Mask.set_get (by decide), ← Nat.and_or_distrib_left]
  exact Mask.and_val (m := ⟨63, 12⟩) h haligned

/-- Everything stored is found. -/
theorem intrOfWords_eq {ctxt : IndirectIntrCtxt} (h : IntrFits ctxt) {w : ℕ → ℕ}
    (hw : Holds w (intrWords ctxt)) (out : IndirectIntrCtxt) :
    intrOfWords w out = intrStored ctxt out := by
  obtain ⟨-, h0⟩ := hw 0 _ rfl
  obtain ⟨-, h1⟩ := hw 1 _ rfl
  obtain ⟨-, h2⟩ := hw 2 _ rfl
  simp only [intrW0, intrW1, intrW2, List.map_cons, List.map_nil, List.cons.injEq,
    and_true] at h0 h1 h2
  unfold intrOfWords intrStored
  simp (disch := decide) only [trunc_get]
  simp only [h0, h1, h2, baddr4k_join h.baddr4k h.aligned]

end OnicDriver.Access.S80Hard
