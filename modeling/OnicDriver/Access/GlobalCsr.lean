import OnicDriver.Access.Control

/-!
# Global register tables

The ring sizes, timers, thresholds and buffer sizes are tables of sixteen registers. A read or write
of a part of a table takes the first entries of the caller's array, whatever the index.
-/

namespace OnicDriver.Access

open Lib

def QDMA_OFFSET_GLBL_RNG_SZ : ℕ := 0x204
def QDMA_OFFSET_C2H_TIMER_CNT : ℕ := 0xA00
def QDMA_OFFSET_C2H_CNT_TH : ℕ := 0xA40
def QDMA_OFFSET_C2H_BUF_SZ : ℕ := 0xAB0

/-- The size of each of the tables. -/
def QDMA_NUM_RING_SIZES : ℕ := 16

/-- The table of a type. -/
def csrOffset : CsrType → ℕ
  | .ringSz => QDMA_OFFSET_GLBL_RNG_SZ
  | .timerCnt => QDMA_OFFSET_C2H_TIMER_CNT
  | .cntTh => QDMA_OFFSET_C2H_CNT_TH
  | .bufSz => QDMA_OFFSET_C2H_BUF_SZ

/-- A register of a table. -/
def csrReg (type : CsrType) (r : ℕ) : ℕ := csrOffset type + r * 4

/-- The device has the table. -/
def csrSupported (devCap : DevAttributes) : CsrType → Bool
  | .ringSz => true
  | .timerCnt => devCap.stEn || devCap.mmCmptEn
  | .cntTh => devCap.stEn || devCap.mmCmptEn
  | .bufSz => devCap.stEn

/-- A write of a part of a table of sixteen registers. -/
def writeGlobalTable (supported : Bool) (offset index count : ℕ) (values : ℕ → ℕ) (regs : Regs) :
    ℤ × Regs :=
  if count = 0 then (-QDMA_ERR_INV_PARAM, regs)
  else if QDMA_NUM_RING_SIZES < index + count then (-QDMA_ERR_INV_PARAM, regs)
  else if supported then (0, qdmaWriteCsrValues offset index count values regs)
  else (-QDMA_ERR_HWACC_FEATURE_NOT_SUPPORTED, regs)

/-- A read of a part of a table of sixteen registers, into an array. -/
def readGlobalTable (supported : Bool) (offset index count : ℕ) (old : ℕ → ℕ) (regs : Regs) :
    ℤ × (ℕ → ℕ) :=
  if count = 0 then (-QDMA_ERR_INV_PARAM, old)
  else if QDMA_NUM_RING_SIZES < index + count then (-QDMA_ERR_INV_PARAM, old)
  else if supported then (0, qdmaReadCsrValues offset index count old regs)
  else (-QDMA_ERR_HWACC_FEATURE_NOT_SUPPORTED, old)

/-- `qdma_write_global_ring_sizes`. -/
def qdmaWriteGlobalRingSizes := writeGlobalTable true QDMA_OFFSET_GLBL_RNG_SZ

/-- `qdma_read_global_ring_sizes`. -/
def qdmaReadGlobalRingSizes := readGlobalTable true QDMA_OFFSET_GLBL_RNG_SZ

section

variable (devCap : DevAttributes)

/-- `qdma_write_global_timer_count`. -/
def qdmaWriteGlobalTimerCount :=
  writeGlobalTable (devCap.stEn || devCap.mmCmptEn) QDMA_OFFSET_C2H_TIMER_CNT

/-- `qdma_read_global_timer_count`. -/
def qdmaReadGlobalTimerCount :=
  readGlobalTable (devCap.stEn || devCap.mmCmptEn) QDMA_OFFSET_C2H_TIMER_CNT

/-- `qdma_write_global_counter_threshold`. -/
def qdmaWriteGlobalCounterThreshold :=
  writeGlobalTable (devCap.stEn || devCap.mmCmptEn) QDMA_OFFSET_C2H_CNT_TH

/-- `qdma_read_global_counter_threshold`. -/
def qdmaReadGlobalCounterThreshold :=
  readGlobalTable (devCap.stEn || devCap.mmCmptEn) QDMA_OFFSET_C2H_CNT_TH

/-- `qdma_write_global_buffer_sizes`. -/
def qdmaWriteGlobalBufferSizes := writeGlobalTable devCap.stEn QDMA_OFFSET_C2H_BUF_SZ

/-- `qdma_read_global_buffer_sizes`. -/
def qdmaReadGlobalBufferSizes := readGlobalTable devCap.stEn QDMA_OFFSET_C2H_BUF_SZ

/-- `qdma_global_csr_conf` with `QDMA_HW_ACCESS_WRITE`. -/
def qdmaGlobalCsrConfWrite (index count : ℕ) (csrVal : ℕ → ℕ) : CsrType → Regs → ℤ × Regs
  | .ringSz => qdmaWriteGlobalRingSizes index count csrVal
  | .timerCnt => qdmaWriteGlobalTimerCount devCap index count csrVal
  | .cntTh => qdmaWriteGlobalCounterThreshold devCap index count csrVal
  | .bufSz => qdmaWriteGlobalBufferSizes devCap index count csrVal

/-- `qdma_global_csr_conf` with `QDMA_HW_ACCESS_READ`. -/
def qdmaGlobalCsrConfRead (index count : ℕ) (csrVal : ℕ → ℕ) : CsrType → Regs → ℤ × (ℕ → ℕ)
  | .ringSz => qdmaReadGlobalRingSizes index count csrVal
  | .timerCnt => qdmaReadGlobalTimerCount devCap index count csrVal
  | .cntTh => qdmaReadGlobalCounterThreshold devCap index count csrVal
  | .bufSz => qdmaReadGlobalBufferSizes devCap index count csrVal

end

section

variable {devCap : DevAttributes} {index count : ℕ}

theorem csrConfWrite_eq (csrVal : ℕ → ℕ) (type : CsrType) (regs : Regs) :
    qdmaGlobalCsrConfWrite devCap index count csrVal type regs =
      writeGlobalTable (csrSupported devCap type) (csrOffset type) index count csrVal regs := by
  cases type <;> rfl

theorem csrConfRead_eq (csrVal : ℕ → ℕ) (type : CsrType) (regs : Regs) :
    qdmaGlobalCsrConfRead devCap index count csrVal type regs =
      readGlobalTable (csrSupported devCap type) (csrOffset type) index count csrVal regs := by
  cases type <;> rfl

/-- The tables do not overlap. -/
theorem csrReg_ne {type type' : CsrType} (h : type ≠ type') {r r' : ℕ} (hr : r < 16)
    (hr' : r' < 16) : csrReg type r ≠ csrReg type' r' := by
  cases type <;> cases type' <;>
    simp only [csrReg, csrOffset, QDMA_OFFSET_GLBL_RNG_SZ, QDMA_OFFSET_C2H_TIMER_CNT,
      QDMA_OFFSET_C2H_CNT_TH, QDMA_OFFSET_C2H_BUF_SZ, ne_eq, not_true_eq_false] at h ⊢ <;>
    omega

/-- The writeback interval is in none of the tables. -/
theorem csrReg_ne_dscCfg (type : CsrType) {r : ℕ} (hr : r < 16) :
    csrReg type r ≠ QDMA_OFFSET_GLBL_DSC_CFG := by
  cases type <;>
    simp only [csrReg, csrOffset, QDMA_OFFSET_GLBL_RNG_SZ, QDMA_OFFSET_C2H_TIMER_CNT,
      QDMA_OFFSET_C2H_CNT_TH, QDMA_OFFSET_C2H_BUF_SZ, QDMA_OFFSET_GLBL_DSC_CFG] <;>
    omega

variable {csrVal : ℕ → ℕ} {type : CsrType} {regs : Regs}

/-- A write of a table that the device has. -/
theorem csrConfWrite_supported (hcount : count ≠ 0) (hrange : index + count ≤ 16)
    (hcap : csrSupported devCap type = true) :
    qdmaGlobalCsrConfWrite devCap index count csrVal type regs =
      (0, qdmaWriteCsrValues (csrOffset type) index count csrVal regs) := by
  rw [csrConfWrite_eq, writeGlobalTable, if_neg hcount,
    if_neg (by simp only [QDMA_NUM_RING_SIZES]; omega), if_pos hcap]

/-- A write that is refused. -/
theorem csrConfWrite_refused (h : count = 0 ∨ csrSupported devCap type = false) :
    (qdmaGlobalCsrConfWrite devCap index count csrVal type regs).1 < 0 ∧
      (qdmaGlobalCsrConfWrite devCap index count csrVal type regs).2 = regs := by
  rw [csrConfWrite_eq, writeGlobalTable]
  by_cases hcount : count = 0
  · rw [if_pos hcount]
    exact ⟨show -QDMA_ERR_INV_PARAM < 0 by decide, rfl⟩
  · rw [if_neg hcount]
    split
    · exact ⟨show -QDMA_ERR_INV_PARAM < 0 by decide, rfl⟩
    · rw [if_neg (by simp [h.resolve_left hcount])]
      exact ⟨show -QDMA_ERR_HWACC_FEATURE_NOT_SUPPORTED < 0 by decide, rfl⟩

/-- A write reaches no other table. -/
theorem csrConfWrite_other {type' : CsrType} (h : type' ≠ type) (hrange : index + count ≤ 16)
    {r : ℕ} (hr : r < 16) :
    (qdmaGlobalCsrConfWrite devCap index count csrVal type regs).2 (csrReg type' r) =
      regs (csrReg type' r) := by
  by_cases hrefused : count = 0 ∨ csrSupported devCap type = false
  · rw [(csrConfWrite_refused hrefused).2]
  · rw [not_or, Bool.not_eq_false] at hrefused
    rw [csrConfWrite_supported hrefused.1 hrange hrefused.2]
    exact qdmaWriteCsrValues_of_ne fun r' _ hr' => csrReg_ne h hr (by omega)

/-- The registers of the table that is written. -/
theorem csrConfWrite_self (hcap : csrSupported devCap type = true) (hrange : index + count ≤ 16)
    (r : ℕ) : (qdmaGlobalCsrConfWrite devCap index count csrVal type regs).2 (csrReg type r) =
      if index ≤ r ∧ r < index + count then csrVal (r - index) else regs (csrReg type r) := by
  by_cases hcount : count = 0
  · rw [(csrConfWrite_refused (Or.inl hcount)).2, if_neg (by omega)]
  · rw [csrConfWrite_supported hcount hrange hcap]
    exact qdmaWriteCsrValues_apply _ _ _ _ _ _

/-- A read of a table that the device has. -/
theorem csrConfRead_supported (hcount : count ≠ 0) (hrange : index + count ≤ 16)
    (hcap : csrSupported devCap type = true) :
    qdmaGlobalCsrConfRead devCap index count csrVal type regs =
      (0, fun i => if i < count then regs (csrReg type (index + i)) else csrVal i) := by
  rw [csrConfRead_eq, readGlobalTable, if_neg hcount,
    if_neg (by simp only [QDMA_NUM_RING_SIZES]; omega), if_pos hcap]
  refine congrArg (Prod.mk 0) (funext fun i => if_congr Iff.rfl (congrArg regs ?_) rfl)
  rw [csrReg]
  omega

/-- A read of a table that the device lacks. -/
theorem csrConfRead_unsupported (hcap : csrSupported devCap type = false) :
    (qdmaGlobalCsrConfRead devCap index count csrVal type regs).1 < 0 ∧
      (qdmaGlobalCsrConfRead devCap index count csrVal type regs).2 = csrVal := by
  rw [csrConfRead_eq, readGlobalTable, hcap]
  split
  · exact ⟨show -QDMA_ERR_INV_PARAM < 0 by decide, rfl⟩
  · split
    · exact ⟨show -QDMA_ERR_INV_PARAM < 0 by decide, rfl⟩
    · exact ⟨show -QDMA_ERR_HWACC_FEATURE_NOT_SUPPORTED < 0 by decide, rfl⟩

end

end OnicDriver.Access
