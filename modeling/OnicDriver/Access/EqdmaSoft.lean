import OnicDriver.Access.EqdmaSoftReg
import OnicDriver.Access.Indirect

/-!
# Contexts of the EQDMA soft core

The functions of `eqdma_soft_access.c` that encode the contexts of a queue into
indirect data words and decode them, and the contexts that survive both.
-/

namespace OnicDriver.Access.EqdmaSoft

open Lib

/-! ## Software context -/

/-- The words of `eqdma_sw_context_write`. The base address takes whole words. -/
def swW0 (ctxt : DescqSwCtxt) : List (Mask × ℕ) :=
  [(SW_IND_CTXT_DATA_W0_PIDX_MASK, ctxt.pidx),
   (SW_IND_CTXT_DATA_W0_IRQ_ARM_MASK, ctxt.irqArm),
   (SW_IND_CTXT_DATA_W0_FNC_MASK, ctxt.fncId)]

def swW1 (ctxt : DescqSwCtxt) : List (Mask × ℕ) :=
  [(SW_IND_CTXT_DATA_W1_QEN_MASK, ctxt.qen),
   (SW_IND_CTXT_DATA_W1_FCRD_EN_MASK, ctxt.frcdEn),
   (SW_IND_CTXT_DATA_W1_WBI_CHK_MASK, ctxt.wbiChk),
   (SW_IND_CTXT_DATA_W1_WBI_INTVL_EN_MASK, ctxt.wbiIntvlEn),
   (SW_IND_CTXT_DATA_W1_AT_MASK, ctxt.at_),
   (SW_IND_CTXT_DATA_W1_FETCH_MAX_MASK, ctxt.fetchMax),
   (SW_IND_CTXT_DATA_W1_RNG_SZ_MASK, ctxt.rngszIdx),
   (SW_IND_CTXT_DATA_W1_DSC_SZ_MASK, ctxt.descSz),
   (SW_IND_CTXT_DATA_W1_BYPASS_MASK, ctxt.bypass),
   (SW_IND_CTXT_DATA_W1_MM_CHN_MASK, ctxt.mmChn),
   (SW_IND_CTXT_DATA_W1_WBK_EN_MASK, ctxt.wbkEn),
   (SW_IND_CTXT_DATA_W1_IRQ_EN_MASK, ctxt.irqEn),
   (SW_IND_CTXT_DATA_W1_PORT_ID_MASK, ctxt.portId),
   (SW_IND_CTXT_DATA_W1_IRQ_NO_LAST_MASK, ctxt.irqNoLast),
   (SW_IND_CTXT_DATA_W1_ERR_MASK, ctxt.err),
   (SW_IND_CTXT_DATA_W1_ERR_WB_SENT_MASK, ctxt.errWbSent),
   (SW_IND_CTXT_DATA_W1_IRQ_REQ_MASK, ctxt.irqReq),
   (SW_IND_CTXT_DATA_W1_MRKR_DIS_MASK, ctxt.mrkrDis),
   (SW_IND_CTXT_DATA_W1_IS_MM_MASK, ctxt.isMm)]

def swW2 (ctxt : DescqSwCtxt) : List (Mask × ℕ) :=
  [(SW_IND_CTXT_DATA_W2_DSC_BASE_L_MASK, ctxt.ringBsAddr &&& 0xffffffff)]

def swW3 (ctxt : DescqSwCtxt) : List (Mask × ℕ) :=
  [(SW_IND_CTXT_DATA_W3_DSC_BASE_H_MASK, (ctxt.ringBsAddr >>> 32) &&& 0xffffffff)]

def swW4 (ctxt : DescqSwCtxt) : List (Mask × ℕ) :=
  [(SW_IND_CTXT_DATA_W4_VEC_MASK, ctxt.vec),
   (SW_IND_CTXT_DATA_W4_INT_AGGR_MASK, ctxt.intrAggr),
   (SW_IND_CTXT_DATA_W4_DIS_INTR_ON_VF_MASK, ctxt.disIntrOnVf),
   (SW_IND_CTXT_DATA_W4_VIRTIO_EN_MASK, ctxt.virtioEn),
   (SW_IND_CTXT_DATA_W4_PACK_BYP_OUT_MASK, ctxt.packBypOut),
   (SW_IND_CTXT_DATA_W4_IRQ_BYP_MASK, ctxt.irqByp),
   (SW_IND_CTXT_DATA_W4_HOST_ID_MASK, ctxt.hostId),
   (SW_IND_CTXT_DATA_W4_PASID_L_MASK, EQDMA_SW_CTXT_PASID_GET_L_MASK.get ctxt.pasid)]

def swW5 (ctxt : DescqSwCtxt) : List (Mask × ℕ) :=
  [(SW_IND_CTXT_DATA_W5_PASID_H_MASK, EQDMA_SW_CTXT_PASID_GET_H_MASK.get ctxt.pasid),
   (SW_IND_CTXT_DATA_W5_PASID_EN_MASK, ctxt.pasidEn),
   (SW_IND_CTXT_DATA_W5_VIRTIO_DSC_BASE_L_MASK,
    EQDMA_SW_CTXT_VIRTIO_DSC_BASE_GET_L_MASK.get ctxt.virtioDscBase)]

def swW6 (ctxt : DescqSwCtxt) : List (Mask × ℕ) :=
  [(SW_IND_CTXT_DATA_W6_VIRTIO_DSC_BASE_M_MASK,
    EQDMA_SW_CTXT_VIRTIO_DSC_BASE_GET_M_MASK.get ctxt.virtioDscBase)]

def swW7 (ctxt : DescqSwCtxt) : List (Mask × ℕ) :=
  [(SW_IND_CTXT_DATA_W7_VIRTIO_DSC_BASE_H_MASK,
    EQDMA_SW_CTXT_VIRTIO_DSC_BASE_GET_H_MASK.get ctxt.virtioDscBase)]

/-- All words. -/
def swWords (ctxt : DescqSwCtxt) : List (List (Mask × ℕ)) :=
  [swW0 ctxt, swW1 ctxt, swW2 ctxt, swW3 ctxt, swW4 ctxt, swW5 ctxt, swW6 ctxt, swW7 ctxt]

/-- `eqdma_sw_context_write`. -/
def eqdmaSwContextWrite (c2h : Bool) (hwQid : ℕ) (ctxt : DescqSwCtxt) (mem : IndCtxtMem) :
    ℤ × IndCtxtMem :=
  (0, indirectRegWrite QDMA_IND_CTXT_DATA_NUM_REGS (swSel c2h) hwQid ((swWords ctxt).map pack) mem)

/-- The context in the words that `eqdma_sw_context_read` has read. -/
def swOfWords (w : ℕ → ℕ) : DescqSwCtxt :=
  let pasidL := SW_IND_CTXT_DATA_W4_PASID_L_MASK.get (w 4)
  let pasidH := SW_IND_CTXT_DATA_W5_PASID_H_MASK.get (w 5)
  let virtioDescBaseL := SW_IND_CTXT_DATA_W5_VIRTIO_DSC_BASE_L_MASK.get (w 5)
  let virtioDescBaseM := SW_IND_CTXT_DATA_W6_VIRTIO_DSC_BASE_M_MASK.get (w 6)
  -- The mask of word 7 is applied to word 6.
  let virtioDescBaseH := SW_IND_CTXT_DATA_W7_VIRTIO_DSC_BASE_H_MASK.get (w 6)
  { pidx := trunc 16 (SW_IND_CTXT_DATA_W0_PIDX_MASK.get (w 0))
    irqArm := trunc 8 (SW_IND_CTXT_DATA_W0_IRQ_ARM_MASK.get (w 0))
    fncId := trunc 8 (SW_IND_CTXT_DATA_W0_FNC_MASK.get (w 0))
    qen := trunc 8 (SW_IND_CTXT_DATA_W1_QEN_MASK.get (w 1))
    frcdEn := trunc 8 (SW_IND_CTXT_DATA_W1_FCRD_EN_MASK.get (w 1))
    wbiChk := trunc 8 (SW_IND_CTXT_DATA_W1_WBI_CHK_MASK.get (w 1))
    wbiIntvlEn := trunc 8 (SW_IND_CTXT_DATA_W1_WBI_INTVL_EN_MASK.get (w 1))
    at_ := trunc 8 (SW_IND_CTXT_DATA_W1_AT_MASK.get (w 1))
    fetchMax := trunc 8 (SW_IND_CTXT_DATA_W1_FETCH_MAX_MASK.get (w 1))
    rngszIdx := trunc 8 (SW_IND_CTXT_DATA_W1_RNG_SZ_MASK.get (w 1))
    descSz := trunc 8 (SW_IND_CTXT_DATA_W1_DSC_SZ_MASK.get (w 1))
    bypass := trunc 8 (SW_IND_CTXT_DATA_W1_BYPASS_MASK.get (w 1))
    mmChn := trunc 8 (SW_IND_CTXT_DATA_W1_MM_CHN_MASK.get (w 1))
    wbkEn := trunc 8 (SW_IND_CTXT_DATA_W1_WBK_EN_MASK.get (w 1))
    irqEn := trunc 8 (SW_IND_CTXT_DATA_W1_IRQ_EN_MASK.get (w 1))
    portId := trunc 8 (SW_IND_CTXT_DATA_W1_PORT_ID_MASK.get (w 1))
    irqNoLast := trunc 8 (SW_IND_CTXT_DATA_W1_IRQ_NO_LAST_MASK.get (w 1))
    err := trunc 8 (SW_IND_CTXT_DATA_W1_ERR_MASK.get (w 1))
    errWbSent := trunc 8 (SW_IND_CTXT_DATA_W1_ERR_WB_SENT_MASK.get (w 1))
    irqReq := trunc 8 (SW_IND_CTXT_DATA_W1_IRQ_REQ_MASK.get (w 1))
    mrkrDis := trunc 8 (SW_IND_CTXT_DATA_W1_MRKR_DIS_MASK.get (w 1))
    isMm := trunc 8 (SW_IND_CTXT_DATA_W1_IS_MM_MASK.get (w 1))
    ringBsAddr := (w 3 <<< 32) % 2 ^ 64 ||| w 2
    vec := trunc 16 (SW_IND_CTXT_DATA_W4_VEC_MASK.get (w 4))
    intrAggr := trunc 8 (SW_IND_CTXT_DATA_W4_INT_AGGR_MASK.get (w 4))
    disIntrOnVf := trunc 8 (SW_IND_CTXT_DATA_W4_DIS_INTR_ON_VF_MASK.get (w 4))
    virtioEn := trunc 8 (SW_IND_CTXT_DATA_W4_VIRTIO_EN_MASK.get (w 4))
    packBypOut := trunc 8 (SW_IND_CTXT_DATA_W4_PACK_BYP_OUT_MASK.get (w 4))
    irqByp := trunc 8 (SW_IND_CTXT_DATA_W4_IRQ_BYP_MASK.get (w 4))
    hostId := trunc 8 (SW_IND_CTXT_DATA_W4_HOST_ID_MASK.get (w 4))
    pasidEn := trunc 8 (SW_IND_CTXT_DATA_W5_PASID_EN_MASK.get (w 5))
    pasid := EQDMA_SW_CTXT_PASID_GET_L_MASK.set 32 pasidL |||
      EQDMA_SW_CTXT_PASID_GET_H_MASK.set 32 pasidH
    virtioDscBase := EQDMA_SW_CTXT_VIRTIO_DSC_BASE_GET_L_MASK.set 64 virtioDescBaseL |||
      EQDMA_SW_CTXT_VIRTIO_DSC_BASE_GET_M_MASK.set 64 virtioDescBaseM |||
      EQDMA_SW_CTXT_VIRTIO_DSC_BASE_GET_H_MASK.set 64 virtioDescBaseH }

/-- `eqdma_sw_context_read`. -/
def eqdmaSwContextRead (c2h : Bool) (hwQid : ℕ) (mem : IndCtxtMem) : DescqSwCtxt :=
  swOfWords (indirectRegRead (swSel c2h) hwQid EQDMA_SW_CONTEXT_NUM_WORDS mem)

/-- The fields fit the widths of their register fields. -/
structure SwFits (ctxt : DescqSwCtxt) : Prop where
  fields : ∀ word ∈ swWords ctxt, AllFit word
  fncId : ctxt.fncId < 2 ^ 8
  ringBsAddr : ctxt.ringBsAddr < 2 ^ 64
  pasid : ctxt.pasid < 2 ^ 22
  virtioDscBase : ctxt.virtioDscBase < 2 ^ 64

theorem swWords_laidOut (ctxt : DescqSwCtxt) : ∀ word ∈ swWords ctxt, LaidOut word := by
  simp only [swWords, LaidOut, swW0, swW1, swW2, swW3, swW4, swW5, swW6, swW7,
    List.forall_mem_cons, List.map]
  decide

theorem swPasid_join {pasid : ℕ} (h : pasid < 2 ^ 22) :
    EQDMA_SW_CTXT_PASID_GET_L_MASK.set 32 (EQDMA_SW_CTXT_PASID_GET_L_MASK.get pasid) |||
      EQDMA_SW_CTXT_PASID_GET_H_MASK.set 32 (EQDMA_SW_CTXT_PASID_GET_H_MASK.get pasid) = pasid := by
  rw [Mask.set_get (by decide), Mask.set_get (by decide), ← Nat.and_or_distrib_left]
  exact Mask.and_val (m := ⟨21, 0⟩) h (one_dvd _)

/-- The virtio base with other bits on top. -/
theorem virtioDscBase_join (v : ℕ) {top : ℕ} (htop : top < 2 ^ 11) :
    EQDMA_SW_CTXT_VIRTIO_DSC_BASE_GET_L_MASK.set 64
        (EQDMA_SW_CTXT_VIRTIO_DSC_BASE_GET_L_MASK.get v) |||
      EQDMA_SW_CTXT_VIRTIO_DSC_BASE_GET_M_MASK.set 64
        (EQDMA_SW_CTXT_VIRTIO_DSC_BASE_GET_M_MASK.get v) |||
      EQDMA_SW_CTXT_VIRTIO_DSC_BASE_GET_H_MASK.set 64 top = v % 2 ^ 53 + top * 2 ^ 53 := by
  have hlow : v &&& (EQDMA_SW_CTXT_VIRTIO_DSC_BASE_GET_L_MASK.val |||
      EQDMA_SW_CTXT_VIRTIO_DSC_BASE_GET_M_MASK.val) = v % 2 ^ 53 :=
    Nat.and_two_pow_sub_one_eq_mod v 53
  have htop' : EQDMA_SW_CTXT_VIRTIO_DSC_BASE_GET_H_MASK.set 64 top = top <<< 53 := by
    rw [Nat.shiftLeft_eq]
    exact Mask.set_eq (by decide) (by decide) htop
  rw [Mask.set_get (by decide), Mask.set_get (by decide), ← Nat.and_or_distrib_left, hlow, htop',
    Nat.lor_comm, ← Nat.shiftLeft_add_eq_or_of_lt (Nat.mod_lt _ (Nat.two_pow_pos 53)),
    Nat.add_comm, Nat.shiftLeft_eq]

/-- Everything is found but the top of the virtio base. -/
theorem swOfWords_eq {ctxt : DescqSwCtxt} (h : SwFits ctxt) {w : ℕ → ℕ}
    (hw : Holds w (swWords ctxt)) :
    swOfWords w = { ctxt with virtioDscBase := ctxt.virtioDscBase % 2 ^ 53 +
      ctxt.virtioDscBase / 2 ^ 21 % 2 ^ 11 * 2 ^ 53 } := by
  obtain ⟨-, h0⟩ := hw 0 _ rfl
  obtain ⟨-, h1⟩ := hw 1 _ rfl
  obtain ⟨h2, -⟩ := hw 2 _ rfl
  obtain ⟨h3, -⟩ := hw 3 _ rfl
  obtain ⟨-, h4⟩ := hw 4 _ rfl
  obtain ⟨-, h5⟩ := hw 5 _ rfl
  obtain ⟨h6, h6'⟩ := hw 6 _ rfl
  simp only [swW0, swW1, swW4, swW5, swW6, List.map_cons, List.map_nil, List.cons.injEq,
    and_true] at h0 h1 h4 h5 h6'
  have hfnc : trunc 8 ctxt.fncId = ctxt.fncId := trunc_of_lt h.fncId
  have hring : (w 3 <<< 32) % 2 ^ 64 ||| w 2 = ctxt.ringBsAddr := by
    rw [h2, h3]
    exact join_packed_halves h.ringBsAddr
  have htop : SW_IND_CTXT_DATA_W7_VIRTIO_DSC_BASE_H_MASK.get (w 6) =
      ctxt.virtioDscBase / 2 ^ 21 % 2 ^ 11 := by
    have hmid : w 6 = ctxt.virtioDscBase / 2 ^ 21 % 2 ^ 32 := by
      rw [h6, swW6]
      exact (pack_word (Mask.fits_get _ _)).trans (Mask.get_eq _ _)
    rw [Mask.get_eq, hmid]
    show ctxt.virtioDscBase / 2 ^ 21 % 2 ^ 32 / 2 ^ 0 % 2 ^ 11 = _
    omega
  unfold swOfWords
  simp (disch := decide) only [trunc_get]
  simp only [h0, h1, h4, h5, h6', hfnc, hring, htop, swPasid_join h.pasid,
    virtioDscBase_join _ (Nat.mod_lt _ (Nat.two_pow_pos 11))]

/-! ## Prefetch context -/

/-- The words of `eqdma_pfetch_context_write`. -/
def pfetchW0 (ctxt : DescqPrefetchCtxt) : List (Mask × ℕ) :=
  [(PREFETCH_CTXT_DATA_W0_BYPASS_MASK, ctxt.bypass),
   (PREFETCH_CTXT_DATA_W0_BUF_SZ_IDX_MASK, ctxt.bufszIdx),
   (PREFETCH_CTXT_DATA_W0_PORT_ID_MASK, ctxt.portId),
   (PREFETCH_CTXT_DATA_W0_NUM_PFCH_MASK, ctxt.numPftch),
   (PREFETCH_CTXT_DATA_W0_VAR_DESC_MASK, ctxt.varDesc),
   (PREFETCH_CTXT_DATA_W0_ERR_MASK, ctxt.err),
   (PREFETCH_CTXT_DATA_W0_PFCH_EN_MASK, ctxt.pfchEn),
   (PREFETCH_CTXT_DATA_W0_PFCH_MASK, ctxt.pfch),
   (PREFETCH_CTXT_DATA_W0_SW_CRDT_L_MASK, QDMA_PFTCH_CTXT_SW_CRDT_GET_L_MASK.get ctxt.swCrdt)]

def pfetchW1 (ctxt : DescqPrefetchCtxt) : List (Mask × ℕ) :=
  [(PREFETCH_CTXT_DATA_W1_SW_CRDT_H_MASK, QDMA_PFTCH_CTXT_SW_CRDT_GET_H_MASK.get ctxt.swCrdt),
   (PREFETCH_CTXT_DATA_W1_VALID_MASK, ctxt.valid)]

/-- All words. -/
def pfetchWords (ctxt : DescqPrefetchCtxt) : List (List (Mask × ℕ)) :=
  [pfetchW0 ctxt, pfetchW1 ctxt]

/-- `eqdma_pfetch_context_write`. -/
def eqdmaPfetchContextWrite (hwQid : ℕ) (ctxt : DescqPrefetchCtxt) (mem : IndCtxtMem) :
    ℤ × IndCtxtMem :=
  (0, indirectRegWrite QDMA_IND_CTXT_DATA_NUM_REGS .pftch hwQid ((pfetchWords ctxt).map pack) mem)

/-- The context in the words that `eqdma_pfetch_context_read` has read. -/
def pfetchOfWords (w : ℕ → ℕ) : DescqPrefetchCtxt :=
  let swCrdtL := PREFETCH_CTXT_DATA_W0_SW_CRDT_L_MASK.get (w 0)
  let swCrdtH := PREFETCH_CTXT_DATA_W1_SW_CRDT_H_MASK.get (w 1)
  { bypass := trunc 8 (PREFETCH_CTXT_DATA_W0_BYPASS_MASK.get (w 0))
    bufszIdx := trunc 8 (PREFETCH_CTXT_DATA_W0_BUF_SZ_IDX_MASK.get (w 0))
    numPftch := trunc 16 (PREFETCH_CTXT_DATA_W0_NUM_PFCH_MASK.get (w 0))
    portId := trunc 8 (PREFETCH_CTXT_DATA_W0_PORT_ID_MASK.get (w 0))
    varDesc := trunc 8 (PREFETCH_CTXT_DATA_W0_VAR_DESC_MASK.get (w 0))
    err := trunc 8 (PREFETCH_CTXT_DATA_W0_ERR_MASK.get (w 0))
    pfchEn := trunc 8 (PREFETCH_CTXT_DATA_W0_PFCH_EN_MASK.get (w 0))
    pfch := trunc 8 (PREFETCH_CTXT_DATA_W0_PFCH_MASK.get (w 0))
    valid := trunc 8 (PREFETCH_CTXT_DATA_W1_VALID_MASK.get (w 1))
    swCrdt := trunc 16 (QDMA_PFTCH_CTXT_SW_CRDT_GET_L_MASK.set 32 swCrdtL |||
      QDMA_PFTCH_CTXT_SW_CRDT_GET_H_MASK.set 32 swCrdtH) }

/-- `eqdma_pfetch_context_read`. -/
def eqdmaPfetchContextRead (hwQid : ℕ) (mem : IndCtxtMem) : DescqPrefetchCtxt :=
  pfetchOfWords (indirectRegRead .pftch hwQid EQDMA_PFETCH_CONTEXT_NUM_WORDS mem)

/-- The fields fit the widths of their register fields. -/
structure PfetchFits (ctxt : DescqPrefetchCtxt) : Prop where
  fields : ∀ word ∈ pfetchWords ctxt, AllFit word
  swCrdt : ctxt.swCrdt < 2 ^ 16

theorem pfetchWords_laidOut (ctxt : DescqPrefetchCtxt) :
    ∀ word ∈ pfetchWords ctxt, LaidOut word := by
  simp only [pfetchWords, LaidOut, pfetchW0, pfetchW1, List.forall_mem_cons, List.map]
  decide

/-- Everything is found. -/
theorem pfetchOfWords_eq {ctxt : DescqPrefetchCtxt} (h : PfetchFits ctxt) {w : ℕ → ℕ}
    (hw : Holds w (pfetchWords ctxt)) : pfetchOfWords w = ctxt := by
  obtain ⟨-, h0⟩ := hw 0 _ rfl
  obtain ⟨-, h1⟩ := hw 1 _ rfl
  simp only [pfetchW0, pfetchW1, List.map_cons, List.map_nil, List.cons.injEq, and_true] at h0 h1
  unfold pfetchOfWords
  simp (disch := decide) only [trunc_get]
  simp only [h0, h1, swCrdt_join h.swCrdt, trunc_of_lt h.swCrdt]

/-! ## Completion context -/

/-- The words of `eqdma_cmpt_context_write`. -/
def cmptW0 (ctxt : DescqCmptCtxt) : List (Mask × ℕ) :=
  [(CMPL_CTXT_DATA_W0_EN_STAT_DESC_MASK, ctxt.enStatDesc),
   (CMPL_CTXT_DATA_W0_EN_INT_MASK, ctxt.enInt),
   (CMPL_CTXT_DATA_W0_TRIG_MODE_MASK, ctxt.trigMode),
   (CMPL_CTXT_DATA_W0_FNC_ID_MASK, ctxt.fncId),
   (CMPL_CTXT_DATA_W0_CNTER_IX_MASK, ctxt.counterIdx),
   (CMPL_CTXT_DATA_W0_TIMER_IX_MASK, ctxt.timerIdx),
   (CMPL_CTXT_DATA_W0_INT_ST_MASK, ctxt.inSt),
   (CMPL_CTXT_DATA_W0_COLOR_MASK, ctxt.color),
   (CMPL_CTXT_DATA_W0_QSIZE_IX_MASK, ctxt.ringszIdx)]

def cmptW1 (ctxt : DescqCmptCtxt) : List (Mask × ℕ) :=
  [(CMPL_CTXT_DATA_W1_BADDR4_HIGH_L_MASK, EQDMA_COMPL_CTXT_BADDR_HIGH_L_MASK.get ctxt.bsAddr)]

def cmptW2 (ctxt : DescqCmptCtxt) : List (Mask × ℕ) :=
  [(CMPL_CTXT_DATA_W2_BADDR4_HIGH_H_MASK, EQDMA_COMPL_CTXT_BADDR_HIGH_H_MASK.get ctxt.bsAddr),
   (CMPL_CTXT_DATA_W2_DESC_SIZE_MASK, ctxt.descSz),
   (CMPL_CTXT_DATA_W2_PIDX_L_MASK, QDMA_COMPL_CTXT_PIDX_GET_L_MASK.get ctxt.pidx)]

def cmptW3 (ctxt : DescqCmptCtxt) : List (Mask × ℕ) :=
  [(CMPL_CTXT_DATA_W3_PIDX_H_MASK, QDMA_COMPL_CTXT_PIDX_GET_H_MASK.get ctxt.pidx),
   (CMPL_CTXT_DATA_W3_CIDX_MASK, ctxt.cidx),
   (CMPL_CTXT_DATA_W3_VALID_MASK, ctxt.valid),
   (CMPL_CTXT_DATA_W3_ERR_MASK, ctxt.err),
   (CMPL_CTXT_DATA_W3_USER_TRIG_PEND_MASK, ctxt.userTrigPend)]

def cmptW4 (ctxt : DescqCmptCtxt) : List (Mask × ℕ) :=
  [(CMPL_CTXT_DATA_W4_TIMER_RUNNING_MASK, ctxt.timerRunning),
   (CMPL_CTXT_DATA_W4_FULL_UPD_MASK, ctxt.fullUpd),
   (CMPL_CTXT_DATA_W4_OVF_CHK_DIS_MASK, ctxt.ovfChkDis),
   (CMPL_CTXT_DATA_W4_AT_MASK, ctxt.at_),
   (CMPL_CTXT_DATA_W4_VEC_MASK, ctxt.vec),
   (CMPL_CTXT_DATA_W4_INT_AGGR_MASK, ctxt.intAggr),
   (CMPL_CTXT_DATA_W4_DIS_INTR_ON_VF_MASK, ctxt.disIntrOnVf),
   (CMPL_CTXT_DATA_W4_VIO_MASK, ctxt.vio),
   (CMPL_CTXT_DATA_W4_DIR_C2H_MASK, ctxt.dirC2h),
   (CMPL_CTXT_DATA_W4_HOST_ID_MASK, ctxt.hostId),
   (CMPL_CTXT_DATA_W4_PASID_L_MASK, EQDMA_CMPL_CTXT_PASID_GET_L_MASK.get ctxt.pasid)]

def cmptW5 (ctxt : DescqCmptCtxt) : List (Mask × ℕ) :=
  [(CMPL_CTXT_DATA_W5_PASID_H_MASK, EQDMA_CMPL_CTXT_PASID_GET_H_MASK.get ctxt.pasid),
   (CMPL_CTXT_DATA_W5_PASID_EN_MASK, ctxt.pasidEn),
   (CMPL_CTXT_DATA_W5_BADDR4_LOW_MASK, EQDMA_COMPL_CTXT_BADDR_LOW_MASK.get ctxt.bsAddr),
   (CMPL_CTXT_DATA_W5_VIO_EOP_MASK, ctxt.vioEop),
   (CMPL_CTXT_DATA_W5_SH_CMPT_MASK, ctxt.shCmpt)]

/-- All words. -/
def cmptWords (ctxt : DescqCmptCtxt) : List (List (Mask × ℕ)) :=
  [cmptW0 ctxt, cmptW1 ctxt, cmptW2 ctxt, cmptW3 ctxt, cmptW4 ctxt, cmptW5 ctxt]

/-- `eqdma_cmpt_context_write`. -/
def eqdmaCmptContextWrite (hwQid : ℕ) (ctxt : DescqCmptCtxt) (mem : IndCtxtMem) :
    ℤ × IndCtxtMem :=
  if ctxt.trigMode > QDMA_CMPT_UPDATE_TRIG_MODE_TMR_CNTR then (-QDMA_ERR_INV_PARAM, mem)
  else (0, indirectRegWrite QDMA_IND_CTXT_DATA_NUM_REGS .cmpt hwQid
    ((cmptWords ctxt).map pack) mem)

/-- The context in the words that `eqdma_cmpt_context_read` has read. -/
def cmptOfWords (w : ℕ → ℕ) : DescqCmptCtxt :=
  let baddr4HighL := CMPL_CTXT_DATA_W1_BADDR4_HIGH_L_MASK.get (w 1)
  let baddr4HighH := CMPL_CTXT_DATA_W2_BADDR4_HIGH_H_MASK.get (w 2)
  let pidxL := CMPL_CTXT_DATA_W2_PIDX_L_MASK.get (w 2)
  let pidxH := CMPL_CTXT_DATA_W3_PIDX_H_MASK.get (w 3)
  let pasidL := CMPL_CTXT_DATA_W4_PASID_L_MASK.get (w 4)
  let pasidH := CMPL_CTXT_DATA_W5_PASID_H_MASK.get (w 5)
  let baddr4Low := trunc 8 (CMPL_CTXT_DATA_W5_BADDR4_LOW_MASK.get (w 5))
  { enStatDesc := trunc 8 (CMPL_CTXT_DATA_W0_EN_STAT_DESC_MASK.get (w 0))
    enInt := trunc 8 (CMPL_CTXT_DATA_W0_EN_INT_MASK.get (w 0))
    trigMode := trunc 8 (CMPL_CTXT_DATA_W0_TRIG_MODE_MASK.get (w 0))
    fncId := trunc 8 (CMPL_CTXT_DATA_W0_FNC_ID_MASK.get (w 0))
    counterIdx := trunc 8 (CMPL_CTXT_DATA_W0_CNTER_IX_MASK.get (w 0))
    timerIdx := trunc 8 (CMPL_CTXT_DATA_W0_TIMER_IX_MASK.get (w 0))
    inSt := trunc 8 (CMPL_CTXT_DATA_W0_INT_ST_MASK.get (w 0))
    color := trunc 8 (CMPL_CTXT_DATA_W0_COLOR_MASK.get (w 0))
    ringszIdx := trunc 8 (CMPL_CTXT_DATA_W0_QSIZE_IX_MASK.get (w 0))
    descSz := trunc 8 (CMPL_CTXT_DATA_W2_DESC_SIZE_MASK.get (w 2))
    cidx := trunc 16 (CMPL_CTXT_DATA_W3_CIDX_MASK.get (w 3))
    valid := trunc 8 (CMPL_CTXT_DATA_W3_VALID_MASK.get (w 3))
    err := trunc 8 (CMPL_CTXT_DATA_W3_ERR_MASK.get (w 3))
    userTrigPend := trunc 8 (CMPL_CTXT_DATA_W3_USER_TRIG_PEND_MASK.get (w 3))
    timerRunning := trunc 8 (CMPL_CTXT_DATA_W4_TIMER_RUNNING_MASK.get (w 4))
    fullUpd := trunc 8 (CMPL_CTXT_DATA_W4_FULL_UPD_MASK.get (w 4))
    ovfChkDis := trunc 8 (CMPL_CTXT_DATA_W4_OVF_CHK_DIS_MASK.get (w 4))
    at_ := trunc 8 (CMPL_CTXT_DATA_W4_AT_MASK.get (w 4))
    vec := trunc 16 (CMPL_CTXT_DATA_W4_VEC_MASK.get (w 4))
    intAggr := trunc 8 (CMPL_CTXT_DATA_W4_INT_AGGR_MASK.get (w 4))
    disIntrOnVf := trunc 8 (CMPL_CTXT_DATA_W4_DIS_INTR_ON_VF_MASK.get (w 4))
    vio := trunc 8 (CMPL_CTXT_DATA_W4_VIO_MASK.get (w 4))
    dirC2h := trunc 8 (CMPL_CTXT_DATA_W4_DIR_C2H_MASK.get (w 4))
    hostId := trunc 8 (CMPL_CTXT_DATA_W4_HOST_ID_MASK.get (w 4))
    pasidEn := trunc 8 (CMPL_CTXT_DATA_W5_PASID_EN_MASK.get (w 5))
    vioEop := trunc 8 (CMPL_CTXT_DATA_W5_VIO_EOP_MASK.get (w 5))
    shCmpt := trunc 8 (CMPL_CTXT_DATA_W5_SH_CMPT_MASK.get (w 5))
    bsAddr := EQDMA_COMPL_CTXT_BADDR_HIGH_L_MASK.set 64 baddr4HighL |||
      EQDMA_COMPL_CTXT_BADDR_HIGH_H_MASK.set 64 baddr4HighH |||
      EQDMA_COMPL_CTXT_BADDR_LOW_MASK.set 64 baddr4Low
    pasid := EQDMA_CMPL_CTXT_PASID_GET_L_MASK.set 32 pasidL |||
      EQDMA_CMPL_CTXT_PASID_GET_H_MASK.set 64 pasidH
    pidx := trunc 16 (QDMA_COMPL_CTXT_PIDX_GET_L_MASK.set 32 pidxL |||
      QDMA_COMPL_CTXT_PIDX_GET_H_MASK.set 32 pidxH) }

/-- `eqdma_cmpt_context_read`. -/
def eqdmaCmptContextRead (hwQid : ℕ) (mem : IndCtxtMem) : DescqCmptCtxt :=
  cmptOfWords (indirectRegRead .cmpt hwQid EQDMA_CMPT_CONTEXT_NUM_WORDS mem)

/-- The fields fit the widths of their register fields. The base address is aligned to 4 bytes. -/
structure CmptFits (ctxt : DescqCmptCtxt) : Prop where
  fields : ∀ word ∈ cmptWords ctxt, AllFit word
  fncId : ctxt.fncId < 2 ^ 8
  bsAddr : ctxt.bsAddr < 2 ^ 64
  aligned : 4 ∣ ctxt.bsAddr
  pidx : ctxt.pidx < 2 ^ 16
  pasid : ctxt.pasid < 2 ^ 22

theorem cmptWords_laidOut (ctxt : DescqCmptCtxt) : ∀ word ∈ cmptWords ctxt, LaidOut word := by
  simp only [cmptWords, LaidOut, cmptW0, cmptW1, cmptW2, cmptW3, cmptW4, cmptW5,
    List.forall_mem_cons, List.map]
  decide

theorem bsAddr_join {v : ℕ} (h : v < 2 ^ 64) (haligned : 4 ∣ v) :
    EQDMA_COMPL_CTXT_BADDR_HIGH_L_MASK.set 64 (EQDMA_COMPL_CTXT_BADDR_HIGH_L_MASK.get v) |||
      EQDMA_COMPL_CTXT_BADDR_HIGH_H_MASK.set 64 (EQDMA_COMPL_CTXT_BADDR_HIGH_H_MASK.get v) |||
      EQDMA_COMPL_CTXT_BADDR_LOW_MASK.set 64 (EQDMA_COMPL_CTXT_BADDR_LOW_MASK.get v) = v := by
  rw [Mask.set_get (by decide), Mask.set_get (by decide), Mask.set_get (by decide),
    ← Nat.and_or_distrib_left, ← Nat.and_or_distrib_left]
  exact Mask.and_val (m := ⟨63, 2⟩) h haligned

theorem cmptPasid_join {pasid : ℕ} (h : pasid < 2 ^ 22) :
    EQDMA_CMPL_CTXT_PASID_GET_L_MASK.set 32 (EQDMA_CMPL_CTXT_PASID_GET_L_MASK.get pasid) |||
      EQDMA_CMPL_CTXT_PASID_GET_H_MASK.set 64 (EQDMA_CMPL_CTXT_PASID_GET_H_MASK.get pasid) =
      pasid := by
  rw [Mask.set_get (by decide), Mask.set_get (by decide), ← Nat.and_or_distrib_left]
  exact Mask.and_val (m := ⟨21, 0⟩) h (one_dvd _)

/-- Everything is found. -/
theorem cmptOfWords_eq {ctxt : DescqCmptCtxt} (h : CmptFits ctxt) {w : ℕ → ℕ}
    (hw : Holds w (cmptWords ctxt)) : cmptOfWords w = ctxt := by
  obtain ⟨-, h0⟩ := hw 0 _ rfl
  obtain ⟨-, h1⟩ := hw 1 _ rfl
  obtain ⟨-, h2⟩ := hw 2 _ rfl
  obtain ⟨-, h3⟩ := hw 3 _ rfl
  obtain ⟨-, h4⟩ := hw 4 _ rfl
  obtain ⟨-, h5⟩ := hw 5 _ rfl
  simp only [cmptW0, cmptW1, cmptW2, cmptW3, cmptW4, cmptW5, List.map_cons, List.map_nil,
    List.cons.injEq, and_true] at h0 h1 h2 h3 h4 h5
  have hfnc : trunc 8 ctxt.fncId = ctxt.fncId := trunc_of_lt h.fncId
  unfold cmptOfWords
  simp (disch := decide) only [trunc_get]
  simp only [h0, h1, h2, h3, h4, h5, hfnc, bsAddr_join h.bsAddr h.aligned, cmptPasid_join h.pasid,
    cmptPidx_join h.pidx, trunc_of_lt h.pidx]

/-! ## Indirect interrupt context -/

/-- The words of `eqdma_indirect_intr_context_write`. -/
def intrW0 (ctxt : IndirectIntrCtxt) : List (Mask × ℕ) :=
  [(INTR_CTXT_DATA_W0_VALID_MASK, ctxt.valid),
   (INTR_CTXT_DATA_W0_VEC_MASK, ctxt.vec),
   (INTR_CTXT_DATA_W0_INT_ST_MASK, ctxt.intSt),
   (INTR_CTXT_DATA_W0_COLOR_MASK, ctxt.color),
   (INTR_CTXT_DATA_W0_BADDR_4K_L_MASK, QDMA_INTR_CTXT_BADDR_GET_L_MASK.get ctxt.baddr4k)]

def intrW1 (ctxt : IndirectIntrCtxt) : List (Mask × ℕ) :=
  [(INTR_CTXT_DATA_W1_BADDR_4K_M_MASK, QDMA_INTR_CTXT_BADDR_GET_M_MASK.get ctxt.baddr4k)]

def intrW2 (ctxt : IndirectIntrCtxt) : List (Mask × ℕ) :=
  [(INTR_CTXT_DATA_W2_BADDR_4K_H_MASK, QDMA_INTR_CTXT_BADDR_GET_H_MASK.get ctxt.baddr4k),
   (INTR_CTXT_DATA_W2_PAGE_SIZE_MASK, ctxt.pageSize),
   (INTR_CTXT_DATA_W2_PIDX_MASK, ctxt.pidx),
   (INTR_CTXT_DATA_W2_AT_MASK, ctxt.at_),
   (INTR_CTXT_DATA_W2_HOST_ID_MASK, ctxt.hostId),
   (INTR_CTXT_DATA_W2_PASID_L_MASK, EQDMA_INTR_CTXT_PASID_GET_L_MASK.get ctxt.pasid)]

def intrW3 (ctxt : IndirectIntrCtxt) : List (Mask × ℕ) :=
  [(INTR_CTXT_DATA_W3_PASID_H_MASK, EQDMA_INTR_CTXT_PASID_GET_H_MASK.get ctxt.pasid),
   (INTR_CTXT_DATA_W3_PASID_EN_MASK, ctxt.pasidEn),
   (INTR_CTXT_DATA_W3_FUNC_MASK, ctxt.funcId)]

/-- All words. -/
def intrWords (ctxt : IndirectIntrCtxt) : List (List (Mask × ℕ)) :=
  [intrW0 ctxt, intrW1 ctxt, intrW2 ctxt, intrW3 ctxt]

/-- `eqdma_indirect_intr_context_write`. -/
def eqdmaIndirectIntrContextWrite (ringIndex : ℕ) (ctxt : IndirectIntrCtxt) (mem : IndCtxtMem) :
    ℤ × IndCtxtMem :=
  (0, indirectRegWrite QDMA_IND_CTXT_DATA_NUM_REGS .intCoal ringIndex
    ((intrWords ctxt).map pack) mem)

/-- The context in the words that `eqdma_indirect_intr_context_read` has read. -/
def intrOfWords (w : ℕ → ℕ) : IndirectIntrCtxt :=
  let baddrL := INTR_CTXT_DATA_W0_BADDR_4K_L_MASK.get (w 0)
  let baddrM := INTR_CTXT_DATA_W1_BADDR_4K_M_MASK.get (w 1)
  let baddrH := INTR_CTXT_DATA_W2_BADDR_4K_H_MASK.get (w 2)
  -- A field of 9 bits is converted to 8.
  let pasidL := trunc 8 (INTR_CTXT_DATA_W2_PASID_L_MASK.get (w 2))
  let pasidH := INTR_CTXT_DATA_W3_PASID_H_MASK.get (w 3)
  { valid := trunc 8 (INTR_CTXT_DATA_W0_VALID_MASK.get (w 0))
    vec := trunc 16 (INTR_CTXT_DATA_W0_VEC_MASK.get (w 0))
    intSt := trunc 8 (INTR_CTXT_DATA_W0_INT_ST_MASK.get (w 0))
    color := trunc 8 (INTR_CTXT_DATA_W0_COLOR_MASK.get (w 0))
    pageSize := trunc 8 (INTR_CTXT_DATA_W2_PAGE_SIZE_MASK.get (w 2))
    pidx := trunc 16 (INTR_CTXT_DATA_W2_PIDX_MASK.get (w 2))
    at_ := trunc 8 (INTR_CTXT_DATA_W2_AT_MASK.get (w 2))
    hostId := trunc 8 (INTR_CTXT_DATA_W2_HOST_ID_MASK.get (w 2))
    pasidEn := trunc 8 (INTR_CTXT_DATA_W3_PASID_EN_MASK.get (w 3))
    funcId := trunc 16 (INTR_CTXT_DATA_W3_FUNC_MASK.get (w 3))
    baddr4k := QDMA_INTR_CTXT_BADDR_GET_L_MASK.set 64 baddrL |||
      QDMA_INTR_CTXT_BADDR_GET_M_MASK.set 64 baddrM |||
      QDMA_INTR_CTXT_BADDR_GET_H_MASK.set 64 baddrH
    pasid := EQDMA_INTR_CTXT_PASID_GET_L_MASK.set 64 pasidL |||
      EQDMA_INTR_CTXT_PASID_GET_H_MASK.set 64 pasidH }

/-- `eqdma_indirect_intr_context_read`. -/
def eqdmaIndirectIntrContextRead (ringIndex : ℕ) (mem : IndCtxtMem) : IndirectIntrCtxt :=
  intrOfWords (indirectRegRead .intCoal ringIndex EQDMA_IND_INTR_CONTEXT_NUM_WORDS mem)

/-- The fields fit the widths of their register fields. The base address is aligned to 4 KiB. -/
structure IntrFits (ctxt : IndirectIntrCtxt) : Prop where
  fields : ∀ word ∈ intrWords ctxt, AllFit word
  baddr4k : ctxt.baddr4k < 2 ^ 64
  aligned : 2 ^ 12 ∣ ctxt.baddr4k
  pasid : ctxt.pasid < 2 ^ 22

theorem intrWords_laidOut (ctxt : IndirectIntrCtxt) : ∀ word ∈ intrWords ctxt, LaidOut word := by
  simp only [intrWords, LaidOut, intrW0, intrW1, intrW2, intrW3, List.forall_mem_cons, List.map]
  decide

/-- The process address space with bit 8 lost. -/
theorem intrPasid_join {pasid : ℕ} (h : pasid < 2 ^ 22) :
    EQDMA_INTR_CTXT_PASID_GET_L_MASK.set 64
        (trunc 8 (EQDMA_INTR_CTXT_PASID_GET_L_MASK.get pasid)) |||
      EQDMA_INTR_CTXT_PASID_GET_H_MASK.set 64 (EQDMA_INTR_CTXT_PASID_GET_H_MASK.get pasid) =
      pasid % 2 ^ 8 + pasid / 2 ^ 9 * 2 ^ 9 := by
  have hlow : trunc 8 (EQDMA_INTR_CTXT_PASID_GET_L_MASK.get pasid) = pasid % 2 ^ 8 := by
    rw [Mask.get_eq]
    show pasid / 2 ^ 0 % 2 ^ 9 % 2 ^ 8 = _
    omega
  have hhigh : EQDMA_INTR_CTXT_PASID_GET_H_MASK.get pasid = pasid / 2 ^ 9 := by
    rw [Mask.get_eq]
    show pasid / 2 ^ 9 % 2 ^ 13 = _
    omega
  have hset : EQDMA_INTR_CTXT_PASID_GET_L_MASK.set 64 (pasid % 2 ^ 8) = pasid % 2 ^ 8 * 2 ^ 0 :=
    Mask.set_eq (by decide) (by decide) ((Nat.mod_lt _ (Nat.two_pow_pos 8)).trans (by decide))
  have hset' : EQDMA_INTR_CTXT_PASID_GET_H_MASK.set 64 (pasid / 2 ^ 9) =
      (pasid / 2 ^ 9) <<< 9 := by
    rw [Nat.shiftLeft_eq]
    exact Mask.set_eq (by decide) (by decide) (by rw [← hhigh]; exact Mask.fits_get _ _)
  rw [hlow, hhigh, hset, hset', pow_zero, mul_one, Nat.lor_comm,
    ← Nat.shiftLeft_add_eq_or_of_lt ((Nat.mod_lt _ (Nat.two_pow_pos 8)).trans (by decide)),
    Nat.shiftLeft_eq, Nat.add_comm]

/-- Everything is found but bit 8 of the process address space. -/
theorem intrOfWords_eq {ctxt : IndirectIntrCtxt} (h : IntrFits ctxt) {w : ℕ → ℕ}
    (hw : Holds w (intrWords ctxt)) :
    intrOfWords w = { ctxt with pasid := ctxt.pasid % 2 ^ 8 + ctxt.pasid / 2 ^ 9 * 2 ^ 9 } := by
  obtain ⟨-, h0⟩ := hw 0 _ rfl
  obtain ⟨-, h1⟩ := hw 1 _ rfl
  obtain ⟨-, h2⟩ := hw 2 _ rfl
  obtain ⟨-, h3⟩ := hw 3 _ rfl
  simp only [intrW0, intrW1, intrW2, intrW3, List.map_cons, List.map_nil, List.cons.injEq,
    and_true] at h0 h1 h2 h3
  unfold intrOfWords
  simp (disch := decide) only [trunc_get]
  simp only [h0, h1, h2, h3, intrPasid_join h.pasid, intrBaddr_join h.baddr4k h.aligned]

/-! ## Hardware context -/

/-- A context that can be written. -/
inductive Ctxt
  | sw (c2h : Bool) (ctxt : DescqSwCtxt)
  | pfetch (ctxt : DescqPrefetchCtxt)
  | cmpt (ctxt : DescqCmptCtxt)
  | intr (ctxt : IndirectIntrCtxt)
  deriving DecidableEq

namespace Ctxt

/-- Every field fits its register field. -/
def Fits : Ctxt → Prop
  | sw _ ctxt => SwFits ctxt
  | pfetch ctxt => PfetchFits ctxt
  | cmpt ctxt => CmptFits ctxt
  | intr ctxt => IntrFits ctxt

/-- The matching write. -/
def write (hwQid : ℕ) (mem : IndCtxtMem) : Ctxt → ℤ × IndCtxtMem
  | sw c2h ctxt => eqdmaSwContextWrite c2h hwQid ctxt mem
  | pfetch ctxt => eqdmaPfetchContextWrite hwQid ctxt mem
  | cmpt ctxt => eqdmaCmptContextWrite hwQid ctxt mem
  | intr ctxt => eqdmaIndirectIntrContextWrite hwQid ctxt mem

/-- The matching read. -/
def read (hwQid : ℕ) (mem : IndCtxtMem) : Ctxt → Ctxt
  | sw c2h _ => sw c2h (eqdmaSwContextRead c2h hwQid mem)
  | pfetch _ => pfetch (eqdmaPfetchContextRead hwQid mem)
  | cmpt _ => cmpt (eqdmaCmptContextRead hwQid mem)
  | intr _ => intr (eqdmaIndirectIntrContextRead hwQid mem)

/-- The trigger mode is one of the enumeration. -/
def TrigModeOk : Ctxt → Prop
  | cmpt ctxt => ctxt.trigMode ≤ QDMA_CMPT_UPDATE_TRIG_MODE_TMR_CNTR
  | _ => True

instance (k : Ctxt) : Decidable k.TrigModeOk :=
  match k with
  | sw _ _ | pfetch _ | intr _ => isTrue trivial
  | cmpt ctxt => inferInstanceAs (Decidable (ctxt.trigMode ≤ _))

/-- The context is written and read back as it was. With another trigger mode it is refused
before anything is written. -/
def RoundTrips (hwQid : ℕ) (mem : IndCtxtMem) (k : Ctxt) : Prop :=
  if k.TrigModeOk then
    (k.write hwQid mem).1 = 0 ∧ k.read hwQid (k.write hwQid mem).2 = k
  else k.write hwQid mem = (-QDMA_ERR_INV_PARAM, mem)

variable {hwQid : ℕ} {mem : IndCtxtMem}

end Ctxt

end OnicDriver.Access.EqdmaSoft
