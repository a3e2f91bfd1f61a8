import OnicDriver.Stream.Events

/-!
# What one read takes

The two loops of `descq_st_c2h_read` move bytes from the front of the buffers
to the place in the request where the last read stopped.
-/

namespace OnicDriver.Stream

open Lib C2h
open Netdev (readMem readMem_add readMem_length)

/-! ## Filling the elements -/

/-- `data` was written to the elements from offset `off` on. -/
structure Scattered (sgl : List (List UInt8)) (off : ℕ) (data : List UInt8) (c : Copied) :
    Prop where
  copied : c.copied = data.length
  fits : off + data.length ≤ sgl.flatten.length
  lengths : c.sgl.map List.length = sgl.map List.length
  flatten : c.sgl.flatten = overwrite sgl.flatten off data
  le : c.j ≤ c.sgl.length
  cursor : (c.sgl.take c.j).flatten.length + c.tsgoff = off + data.length
  inside : AtOffset (c.sgl.drop c.j) c.tsgoff

section

variable {sgl : List (List UInt8)} {off : ℕ}

/-- Nothing was written. -/
theorem Scattered.none (h : AtOffset sgl off) :
    Scattered sgl off [] { sgl := sgl, j := 0, tsgoff := off, copied := 0 } := by
  refine ⟨rfl, ?_, rfl, ?_, Nat.zero_le _, ?_, h⟩
  · exact h.le
  · rw [overwrite_nil]
  · simp

/-- Part of the first element was written. -/
theorem Scattered.part (sgl : List (List UInt8)) {tsg : List UInt8} {data : List UInt8}
    (hfit : off + data.length ≤ tsg.length) :
    Scattered (tsg :: sgl) off data
      { sgl := overwrite tsg off data :: sgl, j := 0, tsgoff := off + data.length
        copied := data.length } := by
  have hlen := length_overwrite hfit
  refine ⟨rfl, ?_, ?_, ?_, Nat.zero_le _, ?_, ?_⟩
  · rw [List.flatten_cons, List.length_append]
    omega
  · rw [List.map_cons, List.map_cons, hlen]
  · rw [List.flatten_cons, List.flatten_cons, overwrite_append_left hfit]
  · simp
  · exact hfit.trans hlen.ge

/-- The first element was written up to its end. -/
theorem Scattered.full (sgl : List (List UInt8)) {tsg : List UInt8} {data : List UInt8}
    (hfull : off + data.length = tsg.length) :
    Scattered (tsg :: sgl) off data
      { sgl := overwrite tsg off data :: sgl, j := 1, tsgoff := 0, copied := data.length } := by
  have hpart := Scattered.part sgl hfull.le
  refine ⟨rfl, hpart.fits, hpart.lengths, hpart.flatten, ?_, ?_, AtOffset.zero sgl⟩
  · exact Nat.succ_le_of_lt (Nat.succ_pos _)
  · rw [List.take_succ_cons, List.take_zero, List.flatten_singleton, length_overwrite hfull.le,
      hfull]
    exact Nat.add_zero _

/-- Two writes, the second where the first stopped. -/
theorem Scattered.trans {data data' : List UInt8} {c c' : Copied} (h : Scattered sgl off data c)
    (h' : Scattered (c.sgl.drop c.j) c.tsgoff data' c') :
    Scattered sgl off (data ++ data')
      { sgl := c.sgl.take c.j ++ c'.sgl, j := c.j + c'.j, tsgoff := c'.tsgoff
        copied := c.copied + c'.copied } := by
  have hcursor := h.cursor
  have hcursor' := h'.cursor
  have hfits' := h'.fits
  have htotal := length_flatten_congr h.lengths
  obtain ⟨front, hfront⟩ : ∃ front, c.sgl.take c.j = front := ⟨_, rfl⟩
  obtain ⟨rest, hrest⟩ : ∃ rest, c.sgl.drop c.j = rest := ⟨_, rfl⟩
  have hlen : c.j = front.length := by
    rw [← hfront, List.length_take, min_eq_left h.le]
  have hsplit : c.sgl = front ++ rest := by
    rw [← hfront, ← hrest, List.take_append_drop]
  have hmap := h'.lengths
  have hflat := h'.flatten
  rw [hrest] at hfits' hmap hflat
  rw [hfront] at hcursor
  rw [hsplit, List.flatten_append, List.length_append] at htotal
  rw [hfront, hlen]
  refine ⟨?_, ?_, ?_, ?_, ?_, ?_, ?_⟩
  · rw [List.length_append, h.copied, h'.copied]
  · rw [List.length_append]
    omega
  · rw [List.map_append, hmap, ← List.map_append, ← hsplit, h.lengths]
  · rw [List.flatten_append, hflat, overwrite_append_data h.fits, ← h.flatten, ← hcursor, hsplit,
      List.flatten_append, overwrite_append_right]
  · rw [List.length_append]
    exact Nat.add_le_add_left h'.le _
  · rw [List.take_length_add_append, List.flatten_append, List.length_append, List.length_append]
    dsimp only
    omega
  · rw [List.drop_length_add_append]
    exact h'.inside

/-- The inner loop moves as many bytes as the buffer has and the elements take. -/
theorem copyBuf_scattered (mem : ℕ → UInt8) (h : AtOffset sgl off) (faddr flen : ℕ) :
    Scattered sgl off (readMem mem faddr (min flen (sgl.flatten.length - off)))
      (copyBuf false mem sgl off faddr flen) := by
  induction sgl generalizing off faddr flen with
  | nil =>
    have hnone : min flen (([] : List (List UInt8)).flatten.length - off) = 0 := by simp
    rw [hnone]
    exact Scattered.none h
  | cons tsg sgl ih =>
    have hoff : off ≤ tsg.length := h
    unfold copyBuf
    by_cases hflen : flen = 0
    · rw [if_pos hflen, hflen, Nat.zero_min]
      exact Scattered.none h
    · rw [if_neg hflen, List.flatten_cons, List.length_append]
      simp only [Bool.false_eq_true, if_false]
      obtain ⟨copy, hcopy⟩ : ∃ copy, min flen (tsg.length - off) = copy := ⟨_, rfl⟩
      have hdata : off + (readMem mem faddr copy).length ≤ tsg.length := by
        rw [readMem_length]
        omega
      rw [hcopy, length_overwrite hdata]
      by_cases hfull : off + copy = tsg.length
      · -- the element is full, and the loop goes on with the next one
        have hsplit : min flen (tsg.length + sgl.flatten.length - off) =
            copy + min (flen - copy) (sgl.flatten.length - 0) := by omega
        have hend : off + (readMem mem faddr copy).length = tsg.length := by
          rw [readMem_length, hfull]
        have hfirst := Scattered.full sgl hend
        have hrest := ih (AtOffset.zero sgl) (faddr + copy) (flen - copy)
        rw [if_pos hfull, hsplit, readMem_add]
        have hboth := hfirst.trans hrest
        rw [Nat.add_comm 1] at hboth
        rw [readMem_length] at hboth
        exact hboth
      · have hall : min flen (tsg.length + sgl.flatten.length - off) = copy := by omega
        have hpart := Scattered.part sgl hdata
        rw [if_neg hfull, hall]
        rw [readMem_length] at hpart
        exact hpart

/-! ## Emptying the buffers -/

/-- The bytes of the buffer with number `b`, counted through the laps of the ring. -/
def bufAt (env : PageEnv) (mem : ℕ → UInt8) (rngsz : ℕ) (sdesc : ℕ → SwSg) (b : ℕ) : List UInt8 :=
  readMem mem (pageAddress env (sdesc (b % rngsz))) (sdesc (b % rngsz)).len

/-- The bytes of `n` buffers. -/
def bufs (env : PageEnv) (mem : ℕ → UInt8) (rngsz : ℕ) (sdesc : ℕ → SwSg) (b n : ℕ) :
    List UInt8 :=
  (List.range n).flatMap fun i => bufAt env mem rngsz sdesc (b + i)

variable {env : PageEnv} {mem : ℕ → UInt8} {rngsz : ℕ} {sdesc : ℕ → SwSg}

@[simp] theorem length_bufAt (b : ℕ) :
    (bufAt env mem rngsz sdesc b).length = (sdesc (b % rngsz)).len := readMem_length ..

@[simp] theorem bufs_zero (b : ℕ) : bufs env mem rngsz sdesc b 0 = [] := rfl

theorem bufs_one (b : ℕ) : bufs env mem rngsz sdesc b 1 = bufAt env mem rngsz sdesc b := by
  simp [bufs]

theorem bufs_add (b m n : ℕ) : bufs env mem rngsz sdesc b (m + n) =
    bufs env mem rngsz sdesc b m ++ bufs env mem rngsz sdesc (b + m) n := by
  unfold bufs
  rw [List.range_add, List.flatMap_append, List.flatMap_map]
  simp only [Nat.add_assoc]

/-- A read of fewer bytes is the beginning of a longer one. -/
theorem take_readMem (mem : ℕ → UInt8) (addr : ℕ) {m n : ℕ} (hle : m ≤ n) :
    (readMem mem addr n).take m = readMem mem addr m := by
  obtain ⟨k, rfl⟩ := Nat.exists_eq_add_of_le hle
  rw [readMem_add]
  exact List.take_left' (readMem_length ..)

/-- The bytes behind the beginning of a read. -/
theorem drop_readMem (mem : ℕ → UInt8) (addr : ℕ) {m n : ℕ} (hle : m ≤ n) :
    (readMem mem addr n).drop m = readMem mem (addr + m) (n - m) := by
  obtain ⟨k, rfl⟩ := Nat.exists_eq_add_of_le hle
  rw [readMem_add, Nat.add_sub_cancel_left]
  exact List.drop_left' (readMem_length ..)

/-- The outer loop emptied `r.i` of the `n` buffers from number `b` on and took `r.foff` bytes of
the next one; it went on until the elements were full or the buffers were empty. -/
structure Emptied (env : PageEnv) (mem : ℕ → UInt8) (rngsz : ℕ) (sdesc : ℕ → SwSg) (b n : ℕ)
    (sgl : List (List UInt8)) (off : ℕ) (r : ReadOut) : Prop where
  le : r.i ≤ n
  scattered : Scattered sgl off
    (bufs env mem rngsz sdesc b r.i ++ (bufAt env mem rngsz sdesc (b + r.i)).take r.foff) r.toCopied
  foff : r.foff ≠ 0 → r.i < n ∧ r.foff < (sdesc ((b + r.i) % rngsz)).len
  ended : off + r.copied = sgl.flatten.length ∨ r.i = n ∧ r.foff = 0

/-- No buffer was touched. -/
theorem Emptied.none (h : AtOffset sgl off) {b n : ℕ} (hended : off = sgl.flatten.length ∨ n = 0) :
    Emptied env mem rngsz sdesc b n sgl off
      { sgl := sgl, j := 0, tsgoff := off, copied := 0, i := 0, foff := 0 } := by
  refine ⟨Nat.zero_le _, Scattered.none h, fun hne => absurd rfl hne, ?_⟩
  exact hended.imp id fun hn => ⟨hn.symm, rfl⟩

/-- The outer loop. -/
theorem readBufs_emptied (env : PageEnv) (mem : ℕ → UInt8) (sdesc : ℕ → SwSg) (hpos : 0 < rngsz)
    (h : AtOffset sgl off) (b n : ℕ) :
    Emptied env mem rngsz sdesc b n sgl off
      (readBufs env false mem rngsz sdesc n (b % rngsz) sgl off) := by
  induction n generalizing b sgl off with
  | zero => exact Emptied.none h (Or.inr rfl)
  | succ n ih =>
    unfold readBufs
    by_cases hnil : sgl = []
    · subst hnil
      exact Emptied.none h (Or.inl h)
    · rw [if_neg hnil]
      have hcopy := copyBuf_scattered mem h (pageAddress env (sdesc (b % rngsz)))
        (sdesc (b % rngsz)).len
      have hcopied := hcopy.copied
      have hoff := h.le
      rw [readMem_length] at hcopied
      dsimp only
      generalize copyBuf false mem sgl off (pageAddress env (sdesc (b % rngsz)))
        (sdesc (b % rngsz)).len = c at *
      rw [← hcopied] at hcopy
      by_cases hall : c.copied = (sdesc (b % rngsz)).len
      · -- the buffer is empty, and the loop goes on with the next one
        have hfirst : Scattered sgl off (bufAt env mem rngsz sdesc b) c := by
          unfold bufAt
          rw [← hall]
          exact hcopy
        have hrest := ih hcopy.inside (b + 1)
        have hcursor := hfirst.cursor
        have htotal := length_flatten_congr hfirst.lengths
        rw [← List.take_append_drop c.j c.sgl, List.flatten_append, List.length_append] at htotal
        rw [if_pos hall, ringIdxIncr_mod b hpos hpos]
        generalize readBufs env false mem rngsz sdesc n ((b + 1) % rngsz) (c.sgl.drop c.j) c.tsgoff
          = r at *
        have hindex : b + (r.i + 1) = b + 1 + r.i := by omega
        refine ⟨Nat.succ_le_succ hrest.le, ?_, ?_, ?_⟩
        · have hboth := hfirst.trans hrest.scattered
          rw [Nat.add_comm r.i 1, bufs_add, bufs_one, List.append_assoc, ← Nat.add_assoc]
          exact hboth
        · intro hne
          rw [hindex]
          exact ⟨Nat.succ_lt_succ (hrest.foff hne).1, (hrest.foff hne).2⟩
        · rcases hrest.ended with hfull | ⟨hi, hfoff⟩
          · left
            rw [length_bufAt] at hcursor
            dsimp only
            omega
          · exact Or.inr ⟨congrArg (· + 1) hi, hfoff⟩
      · have hfull : off + c.copied = sgl.flatten.length := by omega
        rw [if_neg hall]
        refine ⟨Nat.zero_le _, ?_, fun _ => ⟨Nat.succ_pos n, ?_⟩, Or.inl hfull⟩
        · dsimp only
          rw [bufs_zero, List.nil_append, bufAt, Nat.add_zero, take_readMem mem _ (by omega)]
          exact hcopy
        · dsimp only
          rw [Nat.add_zero]
          omega

end

end OnicDriver.Stream
