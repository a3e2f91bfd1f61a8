import OnicDriver.Kernel
import Mathlib.Data.Int.ModEq

/-!
# Ring indices

The index functions that all rings of a queue share. On indices inside the
ring they are addition and subtraction modulo the ring size.
-/

namespace OnicDriver

/-- `ring_idx_delta`. -/
def ringIdxDelta (new old rngsz : ℕ) : ℕ := if new ≥ old then new - old else new + (rngsz - old)

/-- `ring_idx_incr`. -/
def ringIdxIncr (idx cnt rngsz : ℕ) : ℕ :=
  if idx + cnt ≥ rngsz then idx + cnt - rngsz else idx + cnt

/-- `ring_idx_decr`. -/
def ringIdxDecr (idx cnt rngsz : ℕ) : ℕ := if idx ≥ cnt then idx - cnt else rngsz - (cnt - idx)

variable {idx cnt rngsz : ℕ}

/-- A step of at most one lap wraps once. -/
theorem ringIdxIncr_eq_mod (hidx : idx < rngsz) (hcnt : cnt ≤ rngsz) :
    ringIdxIncr idx cnt rngsz = (idx + cnt) % rngsz := by
  unfold ringIdxIncr
  split
  · rw [Nat.mod_eq_sub_mod (by omega), Nat.mod_eq_of_lt (by omega)]
  · rw [Nat.mod_eq_of_lt (by omega)]

theorem ringIdxIncr_lt (hidx : idx < rngsz) (hcnt : cnt ≤ rngsz) :
    ringIdxIncr idx cnt rngsz < rngsz := by
  unfold ringIdxIncr
  split <;> omega

/-- Steps along the ring add up. -/
theorem ringIdxIncr_mod (n : ℕ) (hrngsz : 0 < rngsz) (hcnt : cnt ≤ rngsz) :
    ringIdxIncr (n % rngsz) cnt rngsz = (n + cnt) % rngsz := by
  rw [ringIdxIncr_eq_mod (Nat.mod_lt n hrngsz) hcnt, Nat.mod_add_mod]

/-- The distance to a position less than a lap ahead. -/
theorem ringIdxDelta_mod (n : ℕ) (hcnt : cnt < rngsz) :
    ringIdxDelta ((n + cnt) % rngsz) (n % rngsz) rngsz = cnt := by
  have hlt : n % rngsz < rngsz := Nat.mod_lt n (by omega)
  rw [← Nat.mod_add_mod]
  generalize n % rngsz = i at *
  unfold ringIdxDelta
  by_cases hwrap : i + cnt < rngsz
  · rw [Nat.mod_eq_of_lt hwrap]
    split <;> omega
  · rw [Nat.mod_eq_sub_mod (by omega), Nat.mod_eq_of_lt (by omega)]
    split <;> omega

/-- The position one step back. -/
theorem ringIdxDecr_one (hidx : idx < rngsz) :
    ringIdxDecr idx 1 rngsz = (idx + rngsz - 1) % rngsz := by
  unfold ringIdxDecr
  split
  · rw [Nat.mod_eq_sub_mod (by omega), Nat.mod_eq_of_lt (by omega)]
    omega
  · rw [Nat.mod_eq_of_lt (by omega)]
    omega

/-- Two positions less than a lap apart have different indices. -/
theorem eq_of_mod_eq {r n p q : ℕ} (hp : r ≤ p) (hpn : p < r + n) (hq : r ≤ q)
    (hqn : q < r + n) (h : p % n = q % n) : p = q := by
  rcases Nat.le_total p q with hle | hle
  · have hdvd := (Nat.modEq_iff_dvd' hle).mp h
    have hzero := Nat.eq_zero_of_dvd_of_lt hdvd (by omega)
    omega
  · have hdvd := (Nat.modEq_iff_dvd' hle).mp h.symm
    have hzero := Nat.eq_zero_of_dvd_of_lt hdvd (by omega)
    omega

end OnicDriver
