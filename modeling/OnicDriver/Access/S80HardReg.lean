import OnicDriver.Lib.Bits

/-!
# Registers of the S80 hard IP

The fields of the context words, from `qdma_s80_hard_reg.h` and
`qdma_s80_hard_access.c`, and the parts of the values that are spread over several
words.
-/

namespace OnicDriver.Access.S80Hard

open Lib

/-! ## Numbers of words and registers -/

def QDMA_S80_HARD_IND_CTXT_DATA_NUM_REGS : ℕ := 4
def QDMA_S80_HARD_SW_CONTEXT_NUM_WORDS : ℕ := 4
def QDMA_S80_HARD_CMPT_CONTEXT_NUM_WORDS : ℕ := 4
def QDMA_S80_HARD_QID2VEC_CONTEXT_NUM_WORDS : ℕ := 1
def QDMA_S80_HARD_IND_INTR_CONTEXT_NUM_WORDS : ℕ := 3
def QDMA_S80_HARD_PFETCH_CONTEXT_NUM_WORDS : ℕ := 2

/-! ## Bounds of the writes -/

def QDMA_DESC_SIZE_32B : ℕ := 2
def QDMA_DESC_SIZE_64B : ℕ := 3
def QDMA_NUM_RING_SIZES : ℕ := 16
def QDMA_NUM_C2H_TIMERS : ℕ := 16
def QDMA_NUM_C2H_COUNTERS : ℕ := 16
def QDMA_INDIRECT_INTR_RING_SIZE_32KB : ℕ := 7

/-! ## Software context -/

def SW_IND_CTXT_DATA_W0_PIDX_MASK : Mask := ⟨15, 0⟩
def SW_IND_CTXT_DATA_W0_IRQ_ARM_MASK : Mask := ⟨16, 16⟩
def SW_IND_CTXT_DATA_W1_QEN_MASK : Mask := ⟨0, 0⟩
def SW_IND_CTXT_DATA_W1_FCRD_EN_MASK : Mask := ⟨1, 1⟩
def SW_IND_CTXT_DATA_W1_WBI_CHK_MASK : Mask := ⟨2, 2⟩
def SW_IND_CTXT_DATA_W1_WBI_INTVL_EN_MASK : Mask := ⟨3, 3⟩
def SW_IND_CTXT_DATA_W1_FNC_ID_MASK : Mask := ⟨11, 4⟩
def SW_IND_CTXT_DATA_W1_RNG_SZ_MASK : Mask := ⟨15, 12⟩
def SW_IND_CTXT_DATA_W1_DSC_SZ_MASK : Mask := ⟨17, 16⟩
def SW_IND_CTXT_DATA_W1_BYPASS_MASK : Mask := ⟨18, 18⟩
def SW_IND_CTXT_DATA_W1_MM_CHN_MASK : Mask := ⟨19, 19⟩
def SW_IND_CTXT_DATA_W1_WBK_EN_MASK : Mask := ⟨20, 20⟩
def SW_IND_CTXT_DATA_W1_IRQ_EN_MASK : Mask := ⟨21, 21⟩
def SW_IND_CTXT_DATA_W1_PORT_ID_MASK : Mask := ⟨24, 22⟩
def SW_IND_CTXT_DATA_W1_IRQ_NO_LAST_MASK : Mask := ⟨25, 25⟩
def SW_IND_CTXT_DATA_W1_ERR_MASK : Mask := ⟨27, 26⟩
def SW_IND_CTXT_DATA_W1_ERR_WB_SENT_MASK : Mask := ⟨28, 28⟩
def SW_IND_CTXT_DATA_W1_IRQ_REQ_MASK : Mask := ⟨29, 29⟩
def SW_IND_CTXT_DATA_W1_MRKR_DIS_MASK : Mask := ⟨30, 30⟩
def SW_IND_CTXT_DATA_W1_IS_MM_MASK : Mask := ⟨31, 31⟩
def SW_IND_CTXT_DATA_W2_DSC_BASE_L_MASK : Mask := ⟨31, 0⟩
def SW_IND_CTXT_DATA_W3_DSC_BASE_H_MASK : Mask := ⟨31, 0⟩

/-! ## Prefetch context -/

def PREFETCH_CTXT_DATA_W0_BYPASS_MASK : Mask := ⟨0, 0⟩
def PREFETCH_CTXT_DATA_W0_BUF_SIZE_IDX_MASK : Mask := ⟨4, 1⟩
def PREFETCH_CTXT_DATA_W0_PORT_ID_MASK : Mask := ⟨7, 5⟩
def PREFETCH_CTXT_DATA_W0_ERR_MASK : Mask := ⟨26, 26⟩
def PREFETCH_CTXT_DATA_W0_PFCH_EN_MASK : Mask := ⟨27, 27⟩
def PREFETCH_CTXT_DATA_W0_PFCH_MASK : Mask := ⟨28, 28⟩
def PREFETCH_CTXT_DATA_W0_SW_CRDT_L_MASK : Mask := ⟨31, 29⟩
def PREFETCH_CTXT_DATA_W1_SW_CRDT_H_MASK : Mask := ⟨12, 0⟩
def PREFETCH_CTXT_DATA_W1_VALID_MASK : Mask := ⟨13, 13⟩

/-! ## Completion context -/

def CMPL_CTXT_DATA_W0_EN_STAT_DESC_MASK : Mask := ⟨0, 0⟩
def CMPL_CTXT_DATA_W0_EN_INT_MASK : Mask := ⟨1, 1⟩
def CMPL_CTXT_DATA_W0_TRIG_MODE_MASK : Mask := ⟨4, 2⟩
def CMPL_CTXT_DATA_W0_FNC_ID_MASK : Mask := ⟨12, 5⟩
def CMPL_CTXT_DATA_W0_CNTER_IDX_MASK : Mask := ⟨16, 13⟩
def CMPL_CTXT_DATA_W0_TIMER_IDX_MASK : Mask := ⟨20, 17⟩
def CMPL_CTXT_DATA_W0_INT_ST_MASK : Mask := ⟨22, 21⟩
def CMPL_CTXT_DATA_W0_COLOR_MASK : Mask := ⟨23, 23⟩
def CMPL_CTXT_DATA_W0_QSIZE_IDX_MASK : Mask := ⟨27, 24⟩
def CMPL_CTXT_DATA_W0_BADDR_64_L_MASK : Mask := ⟨31, 28⟩
def CMPL_CTXT_DATA_W1_BADDR_64_M_MASK : Mask := ⟨31, 0⟩
def CMPL_CTXT_DATA_W2_BADDR_64_H_MASK : Mask := ⟨21, 0⟩
def CMPL_CTXT_DATA_W2_DESC_SIZE_MASK : Mask := ⟨23, 22⟩
def CMPL_CTXT_DATA_W2_PIDX_L_MASK : Mask := ⟨31, 24⟩
def CMPL_CTXT_DATA_W3_PIDX_H_MASK : Mask := ⟨7, 0⟩
def CMPL_CTXT_DATA_W3_CIDX_MASK : Mask := ⟨23, 8⟩
def CMPL_CTXT_DATA_W3_VALID_MASK : Mask := ⟨24, 24⟩
def CMPL_CTXT_DATA_W3_ERR_MASK : Mask := ⟨26, 25⟩
def CMPL_CTXT_DATA_W3_USER_TRIG_PEND_MASK : Mask := ⟨27, 27⟩
def CMPL_CTXT_DATA_W3_TIMER_RUNNING_MASK : Mask := ⟨28, 28⟩
def CMPL_CTXT_DATA_W3_FULL_UPD_MASK : Mask := ⟨29, 29⟩

def QDMA_S80_HARD_COMPL_CTXT_BADDR_GET_H_MASK : Mask := ⟨63, 42⟩
def QDMA_S80_HARD_COMPL_CTXT_BADDR_GET_M_MASK : Mask := ⟨41, 10⟩
def QDMA_S80_HARD_COMPL_CTXT_BADDR_GET_L_MASK : Mask := ⟨9, 6⟩
def QDMA_S80_HARD_COMPL_CTXT_PIDX_GET_H_MASK : Mask := ⟨15, 8⟩
def QDMA_S80_HARD_COMPL_CTXT_PIDX_GET_L_MASK : Mask := ⟨7, 0⟩

/-! ## Indirect interrupt context -/

def INTR_CTXT_DATA_W0_VALID_MASK : Mask := ⟨0, 0⟩
def INTR_CTXT_DATA_W0_VEC_MASK : Mask := ⟨5, 1⟩
def INTR_CTXT_DATA_W0_INT_ST_MASK : Mask := ⟨7, 7⟩
def INTR_CTXT_DATA_W0_COLOR_MASK : Mask := ⟨8, 8⟩
def INTR_CTXT_DATA_W0_BADDR_4K_L_MASK : Mask := ⟨31, 9⟩
def INTR_CTXT_DATA_W1_BADDR_4K_H_MASK : Mask := ⟨28, 0⟩
def INTR_CTXT_DATA_W1_PAGE_SIZE_MASK : Mask := ⟨31, 29⟩
def INTR_CTXT_DATA_W2_PIDX_MASK : Mask := ⟨11, 0⟩

def QDMA_S80_HARD_INTR_CTXT_BADDR_GET_H_MASK : Mask := ⟨63, 35⟩
def QDMA_S80_HARD_INTR_CTXT_BADDR_GET_L_MASK : Mask := ⟨34, 12⟩

/-! ## Vectors of a queue -/

def C2H_QID2VEC_MAP_C2H_VECTOR_MASK : Mask := ⟨7, 0⟩
def C2H_QID2VEC_MAP_C2H_EN_COAL_MASK : Mask := ⟨8, 8⟩
def QDMA_S80_HARD_QID2VEC_H2C_VECTOR : Mask := ⟨16, 9⟩
def QDMA_S80_HARD_QID2VEC_H2C_COAL_EN : Mask := ⟨17, 17⟩

end OnicDriver.Access.S80Hard
