import OnicDriver.Lib.Bits

/-!
# Registers of the EQDMA soft core

The fields of the context words, from `eqdma_soft_reg.h`, and the parts of the
values that are spread over several words.
-/

namespace OnicDriver.Access.EqdmaSoft

open Lib

/-! ## Number of words -/

def EQDMA_SW_CONTEXT_NUM_WORDS : ℕ := 8
def EQDMA_PFETCH_CONTEXT_NUM_WORDS : ℕ := 2
def EQDMA_CMPT_CONTEXT_NUM_WORDS : ℕ := 6
def EQDMA_IND_INTR_CONTEXT_NUM_WORDS : ℕ := 4

/-! ## Software context -/

def SW_IND_CTXT_DATA_W0_PIDX_MASK : Mask := ⟨15, 0⟩
def SW_IND_CTXT_DATA_W0_IRQ_ARM_MASK : Mask := ⟨16, 16⟩
def SW_IND_CTXT_DATA_W0_FNC_MASK : Mask := ⟨28, 17⟩
def SW_IND_CTXT_DATA_W1_QEN_MASK : Mask := ⟨0, 0⟩
def SW_IND_CTXT_DATA_W1_FCRD_EN_MASK : Mask := ⟨1, 1⟩
def SW_IND_CTXT_DATA_W1_WBI_CHK_MASK : Mask := ⟨2, 2⟩
def SW_IND_CTXT_DATA_W1_WBI_INTVL_EN_MASK : Mask := ⟨3, 3⟩
def SW_IND_CTXT_DATA_W1_AT_MASK : Mask := ⟨4, 4⟩
def SW_IND_CTXT_DATA_W1_FETCH_MAX_MASK : Mask := ⟨8, 5⟩
def SW_IND_CTXT_DATA_W1_RNG_SZ_MASK : Mask := ⟨15, 12⟩
def SW_IND_CTXT_DATA_W1_DSC_SZ_MASK : Mask := ⟨17, 16⟩
def SW_IND_CTXT_DATA_W1_BYPASS_MASK : Mask := ⟨18, 18⟩
def SW_IND_CTXT_DATA_W1_MM_CHN_MASK : Mask := ⟨19, 19⟩
def SW_IND_CTXT_DATA_W1_WBK_EN_MASK : Mask := ⟨20, 20⟩
def SW_IND_CTXT_DATA_W1_IRQ_EN_MASK : Mask := ⟨21, 21⟩
def SW_IND_CTXT_DATA_W1_PORT_ID_MASK : Mask := ⟨24, 22⟩
def SW_IND_CTXT_DATA_W1_IRQ_NO_LAST_MASK : Mask := ⟨25, 25⟩
def SW_IND_CTXT_DATA_W1_ERR_MASK : Mask := ⟨27, 26⟩
def SW_IND_CTXT_DATA_W1_ERR_WB_SENT_MASK : Mask := ⟨28, 28⟩
def SW_IND_CTXT_DATA_W1_IRQ_REQ_MASK : Mask := ⟨29, 29⟩
def SW_IND_CTXT_DATA_W1_MRKR_DIS_MASK : Mask := ⟨30, 30⟩
def SW_IND_CTXT_DATA_W1_IS_MM_MASK : Mask := ⟨31, 31⟩
def SW_IND_CTXT_DATA_W2_DSC_BASE_L_MASK : Mask := ⟨31, 0⟩
def SW_IND_CTXT_DATA_W3_DSC_BASE_H_MASK : Mask := ⟨31, 0⟩
def SW_IND_CTXT_DATA_W4_VEC_MASK : Mask := ⟨10, 0⟩
def SW_IND_CTXT_DATA_W4_INT_AGGR_MASK : Mask := ⟨11, 11⟩
def SW_IND_CTXT_DATA_W4_DIS_INTR_ON_VF_MASK : Mask := ⟨12, 12⟩
def SW_IND_CTXT_DATA_W4_VIRTIO_EN_MASK : Mask := ⟨13, 13⟩
def SW_IND_CTXT_DATA_W4_PACK_BYP_OUT_MASK : Mask := ⟨14, 14⟩
def SW_IND_CTXT_DATA_W4_IRQ_BYP_MASK : Mask := ⟨15, 15⟩
def SW_IND_CTXT_DATA_W4_HOST_ID_MASK : Mask := ⟨19, 16⟩
def SW_IND_CTXT_DATA_W4_PASID_L_MASK : Mask := ⟨31, 20⟩
def SW_IND_CTXT_DATA_W5_PASID_H_MASK : Mask := ⟨9, 0⟩
def SW_IND_CTXT_DATA_W5_PASID_EN_MASK : Mask := ⟨10, 10⟩
def SW_IND_CTXT_DATA_W5_VIRTIO_DSC_BASE_L_MASK : Mask := ⟨31, 11⟩
def SW_IND_CTXT_DATA_W6_VIRTIO_DSC_BASE_M_MASK : Mask := ⟨31, 0⟩
def SW_IND_CTXT_DATA_W7_VIRTIO_DSC_BASE_H_MASK : Mask := ⟨10, 0⟩

def EQDMA_SW_CTXT_PASID_GET_H_MASK : Mask := ⟨21, 12⟩
def EQDMA_SW_CTXT_PASID_GET_L_MASK : Mask := ⟨11, 0⟩
def EQDMA_SW_CTXT_VIRTIO_DSC_BASE_GET_H_MASK : Mask := ⟨63, 53⟩
def EQDMA_SW_CTXT_VIRTIO_DSC_BASE_GET_M_MASK : Mask := ⟨52, 21⟩
def EQDMA_SW_CTXT_VIRTIO_DSC_BASE_GET_L_MASK : Mask := ⟨20, 0⟩

/-! ## Prefetch context -/

def PREFETCH_CTXT_DATA_W0_BYPASS_MASK : Mask := ⟨0, 0⟩
def PREFETCH_CTXT_DATA_W0_BUF_SZ_IDX_MASK : Mask := ⟨4, 1⟩
def PREFETCH_CTXT_DATA_W0_PORT_ID_MASK : Mask := ⟨7, 5⟩
def PREFETCH_CTXT_DATA_W0_VAR_DESC_MASK : Mask := ⟨8, 8⟩
def PREFETCH_CTXT_DATA_W0_NUM_PFCH_MASK : Mask := ⟨15, 10⟩
def PREFETCH_CTXT_DATA_W0_ERR_MASK : Mask := ⟨26, 26⟩
def PREFETCH_CTXT_DATA_W0_PFCH_EN_MASK : Mask := ⟨27, 27⟩
def PREFETCH_CTXT_DATA_W0_PFCH_MASK : Mask := ⟨28, 28⟩
def PREFETCH_CTXT_DATA_W0_SW_CRDT_L_MASK : Mask := ⟨31, 29⟩
def PREFETCH_CTXT_DATA_W1_SW_CRDT_H_MASK : Mask := ⟨12, 0⟩
def PREFETCH_CTXT_DATA_W1_VALID_MASK : Mask := ⟨13, 13⟩

/-! ## Completion context -/

def CMPL_CTXT_DATA_W0_EN_STAT_DESC_MASK : Mask := ⟨0, 0⟩
def CMPL_CTXT_DATA_W0_EN_INT_MASK : Mask := ⟨1, 1⟩
def CMPL_CTXT_DATA_W0_TRIG_MODE_MASK : Mask := ⟨4, 2⟩
def CMPL_CTXT_DATA_W0_FNC_ID_MASK : Mask := ⟨16, 5⟩
def CMPL_CTXT_DATA_W0_CNTER_IX_MASK : Mask := ⟨20, 17⟩
def CMPL_CTXT_DATA_W0_TIMER_IX_MASK : Mask := ⟨24, 21⟩
def CMPL_CTXT_DATA_W0_INT_ST_MASK : Mask := ⟨26, 25⟩
def CMPL_CTXT_DATA_W0_COLOR_MASK : Mask := ⟨27, 27⟩
def CMPL_CTXT_DATA_W0_QSIZE_IX_MASK : Mask := ⟨31, 28⟩
def CMPL_CTXT_DATA_W1_BADDR4_HIGH_L_MASK : Mask := ⟨31, 0⟩
def CMPL_CTXT_DATA_W2_BADDR4_HIGH_H_MASK : Mask := ⟨25, 0⟩
def CMPL_CTXT_DATA_W2_DESC_SIZE_MASK : Mask := ⟨27, 26⟩
def CMPL_CTXT_DATA_W2_PIDX_L_MASK : Mask := ⟨31, 28⟩
def CMPL_CTXT_DATA_W3_PIDX_H_MASK : Mask := ⟨11, 0⟩
def CMPL_CTXT_DATA_W3_CIDX_MASK : Mask := ⟨27, 12⟩
def CMPL_CTXT_DATA_W3_VALID_MASK : Mask := ⟨28, 28⟩
def CMPL_CTXT_DATA_W3_ERR_MASK : Mask := ⟨30, 29⟩
def CMPL_CTXT_DATA_W3_USER_TRIG_PEND_MASK : Mask := ⟨31, 31⟩
def CMPL_CTXT_DATA_W4_TIMER_RUNNING_MASK : Mask := ⟨0, 0⟩
def CMPL_CTXT_DATA_W4_FULL_UPD_MASK : Mask := ⟨1, 1⟩
def CMPL_CTXT_DATA_W4_OVF_CHK_DIS_MASK : Mask := ⟨2, 2⟩
def CMPL_CTXT_DATA_W4_AT_MASK : Mask := ⟨3, 3⟩
def CMPL_CTXT_DATA_W4_VEC_MASK : Mask := ⟨14, 4⟩
def CMPL_CTXT_DATA_W4_INT_AGGR_MASK : Mask := ⟨15, 15⟩
def CMPL_CTXT_DATA_W4_DIS_INTR_ON_VF_MASK : Mask := ⟨16, 16⟩
def CMPL_CTXT_DATA_W4_VIO_MASK : Mask := ⟨17, 17⟩
def CMPL_CTXT_DATA_W4_DIR_C2H_MASK : Mask := ⟨18, 18⟩
def CMPL_CTXT_DATA_W4_HOST_ID_MASK : Mask := ⟨22, 19⟩
def CMPL_CTXT_DATA_W4_PASID_L_MASK : Mask := ⟨31, 23⟩
def CMPL_CTXT_DATA_W5_PASID_H_MASK : Mask := ⟨12, 0⟩
def CMPL_CTXT_DATA_W5_PASID_EN_MASK : Mask := ⟨13, 13⟩
def CMPL_CTXT_DATA_W5_BADDR4_LOW_MASK : Mask := ⟨17, 14⟩
def CMPL_CTXT_DATA_W5_VIO_EOP_MASK : Mask := ⟨18, 18⟩
def CMPL_CTXT_DATA_W5_SH_CMPT_MASK : Mask := ⟨19, 19⟩

def EQDMA_COMPL_CTXT_BADDR_HIGH_H_MASK : Mask := ⟨63, 38⟩
def EQDMA_COMPL_CTXT_BADDR_HIGH_L_MASK : Mask := ⟨37, 6⟩
def EQDMA_COMPL_CTXT_BADDR_LOW_MASK : Mask := ⟨5, 2⟩
def EQDMA_CMPL_CTXT_PASID_GET_H_MASK : Mask := ⟨21, 9⟩
def EQDMA_CMPL_CTXT_PASID_GET_L_MASK : Mask := ⟨8, 0⟩

/-! ## Indirect interrupt context -/

def INTR_CTXT_DATA_W0_VALID_MASK : Mask := ⟨0, 0⟩
def INTR_CTXT_DATA_W0_VEC_MASK : Mask := ⟨11, 1⟩
def INTR_CTXT_DATA_W0_INT_ST_MASK : Mask := ⟨13, 13⟩
def INTR_CTXT_DATA_W0_COLOR_MASK : Mask := ⟨14, 14⟩
def INTR_CTXT_DATA_W0_BADDR_4K_L_MASK : Mask := ⟨31, 15⟩
def INTR_CTXT_DATA_W1_BADDR_4K_M_MASK : Mask := ⟨31, 0⟩
def INTR_CTXT_DATA_W2_BADDR_4K_H_MASK : Mask := ⟨2, 0⟩
def INTR_CTXT_DATA_W2_PAGE_SIZE_MASK : Mask := ⟨5, 3⟩
def INTR_CTXT_DATA_W2_PIDX_MASK : Mask := ⟨17, 6⟩
def INTR_CTXT_DATA_W2_AT_MASK : Mask := ⟨18, 18⟩
def INTR_CTXT_DATA_W2_HOST_ID_MASK : Mask := ⟨22, 19⟩
def INTR_CTXT_DATA_W2_PASID_L_MASK : Mask := ⟨31, 23⟩
def INTR_CTXT_DATA_W3_PASID_H_MASK : Mask := ⟨12, 0⟩
def INTR_CTXT_DATA_W3_PASID_EN_MASK : Mask := ⟨13, 13⟩
def INTR_CTXT_DATA_W3_FUNC_MASK : Mask := ⟨29, 18⟩

def EQDMA_INTR_CTXT_PASID_GET_H_MASK : Mask := ⟨21, 9⟩
def EQDMA_INTR_CTXT_PASID_GET_L_MASK : Mask := ⟨8, 0⟩

/-! ## Hardware context -/

end OnicDriver.Access.EqdmaSoft
