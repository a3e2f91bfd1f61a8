import Mathlib.Data.Nat.Notation
import Mathlib.Logic.Function.Basic
import Mathlib.Data.List.Range

/-!
# Registers

The registers of the configuration BAR that are accessed directly, one by one or as tables of
consecutive words.
-/

namespace OnicDriver.Access

/-- The registers of the configuration BAR, by offset. -/
abbrev Regs := ℕ → ℕ

/-- `qdma_reg_write`. -/
def qdmaRegWrite (regs : Regs) (offset val : ℕ) : Regs := Function.update regs offset val

/-- `qdma_write_csr_values`: the first `cnt` values go to the registers from `idx` on. -/
def qdmaWriteCsrValues (regOffst idx cnt : ℕ) (values : ℕ → ℕ) (regs : Regs) : Regs :=
  (List.range' idx cnt).foldl
    (fun regs index => qdmaRegWrite regs (regOffst + index * 4) (values (index - idx))) regs

/-- `qdma_read_csr_values`: the registers from `idx` on are read into the first `cnt` values. -/
def qdmaReadCsrValues (regOffst idx cnt : ℕ) (old : ℕ → ℕ) (regs : Regs) : ℕ → ℕ :=
  fun index => if index < cnt then regs (regOffst + idx * 4 + index * 4) else old index

/-- What a register holds after a table has been written. -/
theorem qdmaWriteCsrValues_apply (regOffst idx cnt : ℕ) (values : ℕ → ℕ) (regs : Regs)
    (r : ℕ) : qdmaWriteCsrValues regOffst idx cnt values regs (regOffst + r * 4) =
      if idx ≤ r ∧ r < idx + cnt then values (r - idx) else regs (regOffst + r * 4) := by
  induction cnt with
  | zero =>
    rw [if_neg (by omega)]
    rfl
  | succ cnt ih =>
    rw [qdmaWriteCsrValues, List.range'_1_concat, List.foldl_append, ← qdmaWriteCsrValues,
      List.foldl_cons, List.foldl_nil, qdmaRegWrite]
    by_cases hr : r = idx + cnt
    · subst hr
      rw [Function.update_self, if_pos (by omega)]
    · rw [Function.update_of_ne (by omega), ih]
      exact if_congr (by omega) rfl rfl

/-- The registers outside of a table that is written. -/
theorem qdmaWriteCsrValues_of_ne {regOffst idx cnt : ℕ} {values : ℕ → ℕ} {regs : Regs} {o : ℕ}
    (h : ∀ r, idx ≤ r → r < idx + cnt → o ≠ regOffst + r * 4) :
    qdmaWriteCsrValues regOffst idx cnt values regs o = regs o := by
  induction cnt with
  | zero => rfl
  | succ cnt ih =>
    rw [qdmaWriteCsrValues, List.range'_1_concat, List.foldl_append, ← qdmaWriteCsrValues,
      List.foldl_cons, List.foldl_nil, qdmaRegWrite,
      Function.update_of_ne (h (idx + cnt) (by omega) (by omega))]
    exact ih fun r hle hlt => h r hle (by omega)

end OnicDriver.Access
