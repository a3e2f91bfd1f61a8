import OnicDriver.Lib.Bits

/-!
# Registers of the QDMA soft core

The fields of the context words, from `qdma_soft_reg.h`.
-/

namespace OnicDriver.Access.QdmaSoft

open Lib

/-! ## Number of words -/

def QDMA_FMAP_NUM_WORDS : ℕ := 2
def QDMA_SW_CONTEXT_NUM_WORDS : ℕ := 5
def QDMA_PFETCH_CONTEXT_NUM_WORDS : ℕ := 2
def QDMA_CMPT_CONTEXT_NUM_WORDS : ℕ := 5
def QDMA_IND_INTR_CONTEXT_NUM_WORDS : ℕ := 3

/-! ## Function map -/

def QDMA_FMAP_CTXT_W0_QID_MASK : Mask := ⟨10, 0⟩
def QDMA_FMAP_CTXT_W1_QID_MAX_MASK : Mask := ⟨11, 0⟩

/-! ## Software context -/

def QDMA_SW_CTXT_W0_PIDX : Mask := ⟨15, 0⟩
def QDMA_SW_CTXT_W0_IRQ_ARM_MASK : Mask := ⟨16, 16⟩
def QDMA_SW_CTXT_W0_FUNC_ID_MASK : Mask := ⟨24, 17⟩
def QDMA_SW_CTXT_W1_QEN_MASK : Mask := ⟨0, 0⟩
def QDMA_SW_CTXT_W1_FCRD_EN_MASK : Mask := ⟨1, 1⟩
def QDMA_SW_CTXT_W1_WBI_CHK_MASK : Mask := ⟨2, 2⟩
def QDMA_SW_CTXT_W1_WB_INT_EN_MASK : Mask := ⟨3, 3⟩
def QDMA_SW_CTXT_W1_AT_MASK : Mask := ⟨4, 4⟩
def QDMA_SW_CTXT_W1_FETCH_MAX_MASK : Mask := ⟨7, 5⟩
def QDMA_SW_CTXT_W1_RNG_SZ_MASK : Mask := ⟨15, 12⟩
def QDMA_SW_CTXT_W1_DSC_SZ_MASK : Mask := ⟨17, 16⟩
def QDMA_SW_CTXT_W1_BYP_MASK : Mask := ⟨18, 18⟩
def QDMA_SW_CTXT_W1_MM_CHN_MASK : Mask := ⟨19, 19⟩
def QDMA_SW_CTXT_W1_WBK_EN_MASK : Mask := ⟨20, 20⟩
def QDMA_SW_CTXT_W1_IRQ_EN_MASK : Mask := ⟨21, 21⟩
def QDMA_SW_CTXT_W1_PORT_ID_MASK : Mask := ⟨24, 22⟩
def QDMA_SW_CTXT_W1_IRQ_NO_LAST_MASK : Mask := ⟨25, 25⟩
def QDMA_SW_CTXT_W1_ERR_MASK : Mask := ⟨27, 26⟩
def QDMA_SW_CTXT_W1_ERR_WB_SENT_MASK : Mask := ⟨28, 28⟩
def QDMA_SW_CTXT_W1_IRQ_REQ_MASK : Mask := ⟨29, 29⟩
def QDMA_SW_CTXT_W1_MRKR_DIS_MASK : Mask := ⟨30, 30⟩
def QDMA_SW_CTXT_W1_IS_MM_MASK : Mask := ⟨31, 31⟩
def QDMA_SW_CTXT_W2_DSC_L_MASK : Mask := ⟨31, 0⟩
def QDMA_SW_CTXT_W3_DSC_H_MASK : Mask := ⟨31, 0⟩
def QDMA_SW_CTXT_W4_VEC_MASK : Mask := ⟨10, 0⟩
def QDMA_SW_CTXT_W4_INTR_AGGR_MASK : Mask := ⟨11, 11⟩

/-! ## Prefetch context -/

def QDMA_PFTCH_CTXT_W0_BYPASS_MASK : Mask := ⟨0, 0⟩
def QDMA_PFTCH_CTXT_W0_BUF_SIZE_IDX_MASK : Mask := ⟨4, 1⟩
def QDMA_PFTCH_CTXT_W0_PORT_ID_MASK : Mask := ⟨7, 5⟩
def QDMA_PFTCH_CTXT_W0_ERR_MASK : Mask := ⟨26, 26⟩
def QDMA_PFTCH_CTXT_W0_PFETCH_EN_MASK : Mask := ⟨27, 27⟩
def QDMA_PFTCH_CTXT_W0_Q_IN_PFETCH_MASK : Mask := ⟨28, 28⟩
def QDMA_PFTCH_CTXT_W0_SW_CRDT_L_MASK : Mask := ⟨31, 29⟩
def QDMA_PFTCH_CTXT_W1_SW_CRDT_H_MASK : Mask := ⟨12, 0⟩
def QDMA_PFTCH_CTXT_W1_VALID_MASK : Mask := ⟨13, 13⟩

/-! ## Completion context -/

def QDMA_COMPL_CTXT_W0_EN_STAT_DESC_MASK : Mask := ⟨0, 0⟩
def QDMA_COMPL_CTXT_W0_EN_INT_MASK : Mask := ⟨1, 1⟩
def QDMA_COMPL_CTXT_W0_TRIG_MODE_MASK : Mask := ⟨4, 2⟩
def QDMA_COMPL_CTXT_W0_FNC_ID_MASK : Mask := ⟨12, 5⟩
def QDMA_COMPL_CTXT_W0_COUNTER_IDX_MASK : Mask := ⟨20, 17⟩
def QDMA_COMPL_CTXT_W0_TIMER_IDX_MASK : Mask := ⟨24, 21⟩
def QDMA_COMPL_CTXT_W0_INT_ST_MASK : Mask := ⟨26, 25⟩
def QDMA_COMPL_CTXT_W0_COLOR_MASK : Mask := ⟨27, 27⟩
def QDMA_COMPL_CTXT_W0_RING_SZ_MASK : Mask := ⟨31, 28⟩
def QDMA_COMPL_CTXT_W1_BADDR_64_L_MASK : Mask := ⟨31, 6⟩
def QDMA_COMPL_CTXT_W2_BADDR_64_H_MASK : Mask := ⟨25, 0⟩
def QDMA_COMPL_CTXT_W2_DESC_SIZE_MASK : Mask := ⟨27, 26⟩
def QDMA_COMPL_CTXT_W2_PIDX_L_MASK : Mask := ⟨31, 28⟩
def QDMA_COMPL_CTXT_W3_PIDX_H_MASK : Mask := ⟨11, 0⟩
def QDMA_COMPL_CTXT_W3_CIDX_MASK : Mask := ⟨27, 12⟩
def QDMA_COMPL_CTXT_W3_VALID_MASK : Mask := ⟨28, 28⟩
def QDMA_COMPL_CTXT_W3_ERR_MASK : Mask := ⟨30, 29⟩
def QDMA_COMPL_CTXT_W3_USR_TRG_PND_MASK : Mask := ⟨31, 31⟩
def QDMA_COMPL_CTXT_W4_TMR_RUN_MASK : Mask := ⟨0, 0⟩
def QDMA_COMPL_CTXT_W4_FULL_UPDT_MASK : Mask := ⟨1, 1⟩
def QDMA_COMPL_CTXT_W4_OVF_CHK_DIS_MASK : Mask := ⟨2, 2⟩
def QDMA_COMPL_CTXT_W4_AT_MASK : Mask := ⟨3, 3⟩
def QDMA_COMPL_CTXT_W4_INTR_VEC_MASK : Mask := ⟨14, 4⟩
def QDMA_COMPL_CTXT_W4_INTR_AGGR_MASK : Mask := ⟨15, 15⟩

/-! ## Indirect interrupt context -/

def QDMA_INTR_CTXT_W0_VALID_MASK : Mask := ⟨0, 0⟩
def QDMA_INTR_CTXT_W0_VEC_ID_MASK : Mask := ⟨11, 1⟩
def QDMA_INTR_CTXT_W0_INT_ST_MASK : Mask := ⟨13, 13⟩
def QDMA_INTR_CTXT_W0_COLOR_MASK : Mask := ⟨14, 14⟩
def QDMA_INTR_CTXT_W0_BADDR_64_MASK : Mask := ⟨31, 15⟩
def QDMA_INTR_CTXT_W1_BADDR_64_MASK : Mask := ⟨31, 0⟩
def QDMA_INTR_CTXT_W2_BADDR_64_MASK : Mask := ⟨2, 0⟩
def QDMA_INTR_CTXT_W2_PAGE_SIZE_MASK : Mask := ⟨5, 3⟩
def QDMA_INTR_CTXT_W2_PIDX_MASK : Mask := ⟨17, 6⟩
def QDMA_INTR_CTXT_W2_AT_MASK : Mask := ⟨18, 18⟩

end OnicDriver.Access.QdmaSoft
