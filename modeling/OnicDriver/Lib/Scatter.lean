import Mathlib.Data.List.Basic
import Mathlib.Tactic.Linarith

/-!
# Scattered bytes

A list of blocks seen as one sequence. Writing into it at a position goes on
from block to block, and a cursor is a block together with an offset in it.
Reading takes blocks off the front, the last of them perhaps in part.
-/

namespace OnicDriver.Lib

variable {α : Type*}

/-! ## Writing -/

/-- The list with `data` written at position `pos`. -/
def overwrite (xs : List α) (pos : ℕ) (data : List α) : List α :=
  xs.take pos ++ data ++ xs.drop (pos + data.length)

@[simp] theorem overwrite_nil (xs : List α) (pos : ℕ) : overwrite xs pos [] = xs := by
  simp [overwrite]

@[simp] theorem length_overwrite {xs data : List α} {pos : ℕ}
    (hfit : pos + data.length ≤ xs.length) : (overwrite xs pos data).length = xs.length := by
  unfold overwrite
  rw [List.length_append, List.length_append, List.length_take, List.length_drop]
  omega

/-- Up to the end of the written part. -/
theorem take_overwrite {xs data : List α} {pos : ℕ} (hpos : pos ≤ xs.length) :
    (overwrite xs pos data).take (pos + data.length) = xs.take pos ++ data := by
  have hlen : pos + data.length = (xs.take pos ++ data).length := by
    rw [List.length_append, List.length_take, min_eq_left hpos]
  unfold overwrite
  rw [hlen, List.take_left' rfl]

/-- Writing inside the first part of a sequence. -/
theorem overwrite_append_left {xs data : List α} {pos : ℕ} (hfit : pos + data.length ≤ xs.length)
    (ys : List α) : overwrite (xs ++ ys) pos data = overwrite xs pos data ++ ys := by
  unfold overwrite
  rw [List.take_append_of_le_length (by omega), List.drop_append_of_le_length hfit]
  simp only [List.append_assoc]

/-- Writing behind the first part of a sequence. -/
theorem overwrite_append_right (xs ys : List α) (pos : ℕ) (data : List α) :
    overwrite (xs ++ ys) (xs.length + pos) data = xs ++ overwrite ys pos data := by
  unfold overwrite
  rw [Nat.add_assoc, List.take_length_add_append, List.drop_length_add_append]
  simp only [List.append_assoc]

/-- Writing two pieces one after the other. -/
theorem overwrite_append_data {xs data : List α} {pos : ℕ} (hfit : pos + data.length ≤ xs.length)
    (data' : List α) :
    overwrite xs pos (data ++ data') =
      overwrite (overwrite xs pos data) (pos + data.length) data' := by
  have hlen : (xs.take pos ++ data).length = pos + data.length := by
    rw [List.length_append, List.length_take, min_eq_left (by omega)]
  have hdrop : (overwrite xs pos data).drop (pos + data.length + data'.length) =
      xs.drop (pos + (data ++ data').length) := by
    unfold overwrite
    rw [← hlen, List.drop_length_add_append, List.drop_drop, hlen, List.length_append,
      Nat.add_assoc]
  calc overwrite xs pos (data ++ data')
      = xs.take pos ++ data ++ data' ++ xs.drop (pos + (data ++ data').length) := by
        rw [overwrite]
        simp only [List.append_assoc]
    _ = overwrite (overwrite xs pos data) (pos + data.length) data' := by
        rw [← hdrop, ← take_overwrite (by omega)]
        rfl

/-! ## Cursors -/

/-- An offset in the first of the blocks that are left. -/
def AtOffset : List (List α) → ℕ → Prop
  | [], off => off = 0
  | block :: _, off => off ≤ block.length

theorem AtOffset.zero (blocks : List (List α)) : AtOffset blocks 0 := by
  cases blocks
  · exact rfl
  · exact Nat.zero_le _

theorem AtOffset.le {blocks : List (List α)} {off : ℕ} (h : AtOffset blocks off) :
    off ≤ blocks.flatten.length := by
  cases blocks with
  | nil => exact Nat.le_of_eq h
  | cons block blocks =>
    rw [List.flatten_cons, List.length_append]
    exact Nat.le_add_right_of_le h

/-- An offset depends on the lengths of the blocks only. -/
theorem AtOffset.congr {blocks blocks' : List (List α)} {off : ℕ} (h : AtOffset blocks off)
    (hlen : blocks'.map List.length = blocks.map List.length) : AtOffset blocks' off := by
  cases blocks with
  | nil =>
    rw [List.map_nil, List.map_eq_nil_iff] at hlen
    rw [hlen]
    exact h
  | cons block blocks =>
    cases blocks' with
    | nil => cases hlen
    | cons block' blocks' =>
      have hhead : block'.length = block.length := (List.cons.inj hlen).1
      exact (show off ≤ block.length from h).trans hhead.ge

/-- The length of a sequence follows from the lengths of its blocks. -/
theorem length_flatten_congr {blocks blocks' : List (List α)}
    (hlen : blocks'.map List.length = blocks.map List.length) :
    blocks'.flatten.length = blocks.flatten.length := by
  rw [List.length_flatten, List.length_flatten, hlen]

/-! ## Blocks of one size -/

/-- The sequence in blocks of `size`, the last of them perhaps shorter. An empty sequence is one
empty block. -/
def blocksOf (size : ℕ) (xs : List α) : List (List α) :=
  (List.range (max 1 ((xs.length + (size - 1)) / size))).map fun i => (xs.drop (i * size)).take size

theorem length_blocksOf (size : ℕ) (xs : List α) :
    (blocksOf size xs).length = max 1 ((xs.length + (size - 1)) / size) := by
  simp [blocksOf]

/-- The first `n` blocks are the beginning of the sequence. -/
theorem flatMap_range_blocks (size n : ℕ) (xs : List α) :
    (List.range n).flatMap (fun i => (xs.drop (i * size)).take size) = xs.take (n * size) := by
  induction n with
  | zero => simp
  | succ n ih =>
    rw [List.range_succ, List.flatMap_append, ih, List.flatMap_singleton, Nat.succ_mul,
      List.take_add]

/-- The blocks make up the sequence. -/
theorem flatten_blocksOf {size : ℕ} (hsize : 0 < size) (xs : List α) :
    (blocksOf size xs).flatten = xs := by
  have hmod := Nat.div_add_mod' (xs.length + (size - 1)) size
  have hlt := Nat.mod_lt (xs.length + (size - 1)) hsize
  have hmax := Nat.mul_le_mul_right size
    (le_max_right 1 ((xs.length + (size - 1)) / size))
  unfold blocksOf
  rw [← List.flatMap_def, flatMap_range_blocks, List.take_of_length_le]
  omega

/-- The block at a position. -/
theorem getElem?_blocksOf {size i : ℕ} {xs : List α} (hi : i < (blocksOf size xs).length) :
    (blocksOf size xs)[i]? = some ((xs.drop (i * size)).take size) := by
  rw [length_blocksOf] at hi
  unfold blocksOf
  rw [List.getElem?_map, List.getElem?_range hi]
  rfl

/-- All blocks but the last are full. -/
theorem mul_length_blocksOf_le {size : ℕ} (hsize : 0 < size) (xs : List α) {i : ℕ}
    (hi : i + 1 < (blocksOf size xs).length) : (i + 1) * size ≤ xs.length := by
  rw [length_blocksOf] at hi
  have hdiv : i + 1 + 1 ≤ (xs.length + (size - 1)) / size := by omega
  have hmul := (Nat.le_div_iff_mul_le hsize).mp hdiv
  rw [Nat.succ_mul] at hmul
  omega

/-- No block is longer than the size. -/
theorem length_le_of_mem_blocksOf {size : ℕ} {xs block : List α} (h : block ∈ blocksOf size xs) :
    block.length ≤ size := by
  obtain ⟨i, -, rfl⟩ := List.mem_map.mp h
  exact List.length_take_le _ _

end OnicDriver.Lib
