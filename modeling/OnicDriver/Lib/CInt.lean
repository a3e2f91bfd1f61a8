import Mathlib.Data.Int.Basic
import Mathlib.Tactic.Linarith

/-!
# Fixed-width integer conversions

Values of the fixed-width types of C are kept as ordinary integers; a
conversion reduces its argument to the range of the target type.
-/

namespace OnicDriver.Lib

/-- Conversion to a 16-bit unsigned integer. -/
def u16 (x : ℤ) : ℕ := (x % 2 ^ 16).toNat

/-- Conversion to a 32-bit unsigned integer. -/
def u32 (x : ℤ) : ℕ := (x % 2 ^ 32).toNat

/-- Conversion to a 32-bit signed integer. -/
def s32 (x : ℤ) : ℤ := Int.bmod x (2 ^ 32)

/-- Conversion to a 64-bit unsigned integer. -/
def u64 (x : ℤ) : ℕ := (x % 2 ^ 64).toNat

theorem u32_lt (x : ℤ) : u32 x < 2 ^ 32 := by
  unfold u32
  omega

/-- A value in range is unchanged. -/
theorem u32_of_lt {x : ℤ} (h0 : 0 ≤ x) (h : x < 2 ^ 32) : (u32 x : ℤ) = x := by
  unfold u32
  omega

theorem u32_natCast {n : ℕ} (h : n < 2 ^ 32) : u32 n = n := by
  unfold u32
  omega

/-- A value in range is unchanged. -/
theorem s32_of_lt {x : ℤ} (h0 : -2 ^ 31 ≤ x) (h : x < 2 ^ 31) : s32 x = x := by
  unfold s32
  rw [Int.bmod_def]
  split <;> omega

theorem u64_lt (x : ℤ) : u64 x < 2 ^ 64 := by
  unfold u64
  omega

/-- A value in range is unchanged. -/
theorem u64_of_lt {x : ℤ} (h0 : 0 ≤ x) (h : x < 2 ^ 64) : (u64 x : ℤ) = x := by
  unfold u64
  omega

end OnicDriver.Lib
