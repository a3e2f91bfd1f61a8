import Mathlib.Data.Int.Notation
import Mathlib.Data.List.Basic

/-!
# Loops that end at the first failure

A loop counts up to a limit and returns the result of the first pass that does
not return 0.
-/

namespace OnicDriver.Lib

variable {σ : Type*}

/-- At most `n` passes from `i` on: the result, the pass that failed or the one after the last, and
the state. -/
def untilFailure (op : σ → ℕ → ℤ × σ) : ℕ → ℕ → σ → ℤ × ℕ × σ
  | 0, i, s => (0, i, s)
  | n + 1, i, s =>
    let r := op s i
    if r.1 ≠ 0 then (r.1, i, r.2) else untilFailure op n (i + 1) r.2

/-- A pass takes the invariant to the next index, or fails and leaves it at its own. -/
def PassKeeps (op : σ → ℕ → ℤ × σ) (I : ℕ → σ → Prop) (k : ℕ) (s : σ) : Prop :=
  ((op s k).1 = 0 ∧ I (k + 1) (op s k).2) ∨ ((op s k).1 ≠ 0 ∧ I k (op s k).2)

variable {op : σ → ℕ → ℤ × σ} {I : ℕ → σ → Prop}

/-- A loop of which the first pass fails. -/
theorem untilFailure_first {n i : ℕ} {s : σ} (hpos : 0 < n) (h : (op s i).1 ≠ 0) :
    untilFailure op n i s = ((op s i).1, i, (op s i).2) := by
  cases n with
  | zero => exact absurd hpos (Nat.lt_irrefl 0)
  | succ n => exact if_pos h

theorem untilFailure_from {n i : ℕ} {s : σ} (h : I i s)
    (hpass : ∀ k s, i ≤ k → k < i + n → I k s → PassKeeps op I k s) :
    ((untilFailure op n i s).1 = 0 ∧ I (i + n) (untilFailure op n i s).2.2) ∨
      ((untilFailure op n i s).1 ≠ 0 ∧ (untilFailure op n i s).2.1 < i + n ∧
        I (untilFailure op n i s).2.1 (untilFailure op n i s).2.2) := by
  induction n generalizing i s with
  | zero => exact .inl ⟨rfl, h⟩
  | succ n ih =>
    unfold untilFailure
    dsimp only
    rcases hpass i s (Nat.le_refl i) (by omega) h with ⟨hret, hnext⟩ | ⟨hret, hsame⟩
    · rw [if_neg (Decidable.not_not.mpr hret)]
      have hrest := ih hnext fun k s hle hlt => hpass k s (by omega) (by omega)
      rwa [Nat.add_right_comm i 1 n] at hrest
    · rw [if_pos hret]
      exact .inr ⟨hret, by dsimp only; omega, hsame⟩

/-- The rule of such a loop: all passes have been made, or one has failed after those before it. -/
theorem untilFailure_cases {n : ℕ} {s : σ} (h : I 0 s)
    (hpass : ∀ k < n, ∀ s, I k s → PassKeeps op I k s) :
    ((untilFailure op n 0 s).1 = 0 ∧ I n (untilFailure op n 0 s).2.2) ∨
      ((untilFailure op n 0 s).1 ≠ 0 ∧ (untilFailure op n 0 s).2.1 < n ∧
        I (untilFailure op n 0 s).2.1 (untilFailure op n 0 s).2.2) := by
  have hfrom := @untilFailure_from σ op I n 0 s h fun k s _ hlt => hpass k (by omega) s
  rwa [Nat.zero_add] at hfrom

/-- Where no pass fails, the loop succeeds, and where one fails, so does the loop. -/
theorem untilFailure_eq_zero_iff {n : ℕ} {s : σ} {ok : ℕ → Prop} (h : I 0 s)
    (hpass : ∀ k < n, ∀ s, I k s →
      ((op s k).1 = 0 ∧ ok k ∧ I (k + 1) (op s k).2) ∨ ((op s k).1 ≠ 0 ∧ ¬ ok k)) :
    (untilFailure op n 0 s).1 = 0 ↔ ∀ k < n, ok k := by
  have hgen : ∀ m i s, I i s → i + m = n →
      ((untilFailure op m i s).1 = 0 ↔ ∀ k, i ≤ k → k < n → ok k) := by
    intro m
    induction m with
    | zero =>
      intro i s _ hn
      exact iff_of_true rfl fun k hle hlt => absurd hlt (by omega)
    | succ m ih =>
      intro i s hs hn
      unfold untilFailure
      dsimp only
      rcases hpass i (by omega) s hs with ⟨hret, hok, hnext⟩ | ⟨hret, hno⟩
      · rw [if_neg (Decidable.not_not.mpr hret), ih (i + 1) _ hnext (by omega)]
        constructor
        · intro hall k hle hlt
          rcases Nat.eq_or_lt_of_le hle with rfl | hgt
          · exact hok
          · exact hall k hgt hlt
        · exact fun hall k hle hlt => hall k (by omega) hlt
      · rw [if_pos hret]
        exact iff_of_false hret fun hall => hno (hall i (Nat.le_refl i) (by omega))
  rw [hgen n 0 s h (Nat.zero_add n)]
  exact ⟨fun hall k hlt => hall k (Nat.zero_le k) hlt, fun hall k _ hlt => hall k hlt⟩

end OnicDriver.Lib
