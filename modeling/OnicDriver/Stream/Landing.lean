import OnicDriver.Stream.Submit
import OnicDriver.C2h.BufferCount

/-!
# Packets in the buffers

Where the hardware puts the parts of a packet, and the lengths that `rcv_pkt`
gives the descriptors of a packet. When the driver computes the number of
descriptors that the hardware used, the lengths are those of the parts.
-/

namespace OnicDriver.Stream

open Lib C2h
open Netdev (readMem readMem_add readMem_length)

/-! ## The lengths of the parts -/

/-- If `get_fl_nr` computes the number of buffers that the hardware used, then the length that it
computes for the last of them is right. -/
theorem getFlNr_last {size shift len : ℕ} (hsize : 0 < size)
    (hpow : getNextPowof2 size = 2 ^ shift) (hlen : 0 < len)
    (hnr : (getFlNr len size shift (2 ^ shift - 1)).1 = max 1 ((len + (size - 1)) / size)) :
    (getFlNr len size shift (2 ^ shift - 1)).2 =
      len - ((getFlNr len size shift (2 ^ shift - 1)).1 - 1) * size := by
  have hunseen : RoundingUnseen size len := by
    by_contra hseen
    exact absurd hnr (getFlNr_of_seen hsize hpow hseen).ne
  have hsum := buffersFor_sum hsize len
  rw [getFlNr_of_unseen hsize hpow hlen.ne' hunseen]
  dsimp only
  omega

/-! ## Where the hardware writes -/

/-- The parts are in memory at the buffers from number `b` on, and the descriptors of those that
are not empty refer to the beginning of the buffer. -/
def Landed (mem : ℕ → UInt8) (dst addr : ℕ → ℕ) (size : ℕ) : ℕ → List (List UInt8) → Prop
  | _, [] => True
  | b, part :: parts =>
    readMem mem (dst (b % size)) part.length = part ∧
    (part ≠ [] → addr (b % size) = dst (b % size)) ∧ Landed mem dst addr size (b + 1) parts

section

variable {mem : ℕ → UInt8} {dst addr : ℕ → ℕ} {size bufSize : ℕ}

theorem landed_append (b : ℕ) (parts parts' : List (List UInt8)) :
    Landed mem dst addr size b (parts ++ parts') ↔
      Landed mem dst addr size b parts ∧ Landed mem dst addr size (b + parts.length) parts' := by
  induction parts generalizing b with
  | nil => simp [Landed]
  | cons part parts ih =>
    have hindex : b + (part :: parts).length = b + 1 + parts.length := by
      rw [List.length_cons]
      omega
    rw [hindex]
    simp only [List.cons_append, Landed, ih, and_assoc]

/-- What is read back where something was written. -/
theorem readMem_writeMem (mem : ℕ → UInt8) (addr : ℕ) (bytes : List UInt8) :
    readMem (writeMem mem addr bytes) addr bytes.length = bytes := by
  unfold readMem writeMem
  refine List.ext_getElem (by simp) fun i hi hi' => ?_
  rw [List.getElem_map, List.getElem_range, if_pos (Nat.le_add_right _ _), Nat.add_sub_cancel_left,
    List.getElem?_eq_getElem hi']
  rfl

/-- What is read elsewhere. -/
theorem readMem_writeMem_of_disjoint (mem : ℕ → UInt8) {addr addr' n : ℕ} {bytes : List UInt8}
    (h : addr' + n ≤ addr ∨ addr + bytes.length ≤ addr') :
    readMem (writeMem mem addr bytes) addr' n = readMem mem addr' n := by
  unfold readMem writeMem
  refine List.map_congr_left fun k hk => ?_
  have hlt := List.mem_range.mp hk
  split
  · rw [List.getElem?_eq_none (by omega)]
    rfl
  · rfl

/-- A range that shares no byte with the buffers of the packet is not written. -/
theorem readMem_dmaWrite_of_disjoint (bufSize : ℕ) (hsize : 0 < size) {b addr' n : ℕ}
    {parts : List (List UInt8)} (hlen : ∀ part ∈ parts, part.length ≤ bufSize)
    (h : ∀ k < parts.length, addr' + n ≤ dst ((b + k) % size) ∨
      dst ((b + k) % size) + bufSize ≤ addr') :
    readMem (dmaWrite size dst (b % size) parts mem) addr' n = readMem mem addr' n := by
  induction parts generalizing b mem with
  | nil => rfl
  | cons part parts ih =>
    have hfirst := h 0 (Nat.succ_pos _)
    have hpart := hlen part List.mem_cons_self
    rw [Nat.add_zero] at hfirst
    have hone : 1 ≤ size := hsize
    unfold dmaWrite
    rw [ringIdxIncr_mod b hsize hone, ih]
    · exact readMem_writeMem_of_disjoint mem (hfirst.imp_right fun hle => by omega)
    · exact fun part' hpart' => hlen part' (List.mem_cons_of_mem _ hpart')
    · intro k hk
      have hnext := h (k + 1) (Nat.succ_lt_succ hk)
      have hindex : b + (k + 1) = b + 1 + k := by omega
      rw [hindex] at hnext
      exact hnext

/-- A packet lands part by part. -/
theorem landed_dmaWrite (hsize : 0 < size) {b : ℕ} {parts : List (List UInt8)}
    (hlen : ∀ part ∈ parts, part.length ≤ bufSize) (hroom : parts.length ≤ size)
    (hdisjoint : ∀ i < size, ∀ j < size, i ≠ j → RangesDisjoint bufSize (dst i) (dst j))
    (hstart : ∀ k part, parts[k]? = some part → part ≠ [] →
      addr ((b + k) % size) = dst ((b + k) % size)) :
    Landed (dmaWrite size dst (b % size) parts mem) dst addr size b parts := by
  induction parts generalizing b mem with
  | nil => trivial
  | cons part parts ih =>
    have hrest : ∀ part' ∈ parts, part'.length ≤ bufSize :=
      fun part' hpart' => hlen part' (List.mem_cons_of_mem _ hpart')
    have hpart := hlen part List.mem_cons_self
    rw [List.length_cons] at hroom
    have hone : 1 ≤ size := hsize
    unfold dmaWrite
    rw [ringIdxIncr_mod b hsize hone]
    refine ⟨?_, fun hne => ?_, ?_⟩
    · rw [readMem_dmaWrite_of_disjoint bufSize hsize hrest, readMem_writeMem]
      intro k hk
      have hne : b % size ≠ (b + 1 + k) % size := by
        intro heq
        have := eq_of_mod_eq (r := b) le_rfl (by omega) (by omega) (by omega) heq
        omega
      have hranges := hdisjoint _ (Nat.mod_lt b hsize) _ (Nat.mod_lt (b + 1 + k) hsize) hne
      unfold RangesDisjoint at hranges
      omega
    · have hfirst := hstart 0 part rfl hne
      rw [Nat.add_zero] at hfirst
      exact hfirst
    · refine ih hrest (by omega) fun k part' hk hne => ?_
      have hindex : b + 1 + k = b + (k + 1) := by omega
      rw [hindex]
      exact hstart (k + 1) part' hk hne

/-- What landed elsewhere stays. -/
theorem Landed.dmaWrite (hsize : 0 < size) {b b' : ℕ} {parts parts' : List (List UInt8)}
    (h : Landed mem dst addr size b parts) (hb : b + parts.length ≤ b')
    (hroom : b' + parts'.length ≤ b + size) (hlen : ∀ part ∈ parts, part.length ≤ bufSize)
    (hlen' : ∀ part ∈ parts', part.length ≤ bufSize)
    (hdisjoint : ∀ i < size, ∀ j < size, i ≠ j → RangesDisjoint bufSize (dst i) (dst j)) :
    Landed (dmaWrite size dst (b' % size) parts' mem) dst addr size b parts := by
  induction parts generalizing b with
  | nil => trivial
  | cons part parts ih =>
    have hpart := hlen part List.mem_cons_self
    rw [List.length_cons] at hb
    refine ⟨?_, h.2.1, ih h.2.2 (by omega) (by omega)
      fun part' hpart' => hlen part' (List.mem_cons_of_mem _ hpart')⟩
    rw [readMem_dmaWrite_of_disjoint bufSize hsize hlen']
    · exact h.1
    · intro k hk
      have hne : b % size ≠ (b' + k) % size := by
        intro heq
        have := eq_of_mod_eq (r := b) le_rfl (by omega) (by omega) (by omega) heq
        omega
      have hranges := hdisjoint _ (Nat.mod_lt b hsize) _ (Nat.mod_lt (b' + k) hsize) hne
      unfold RangesDisjoint at hranges
      omega

/-- What landed depends on the descriptors of its buffers only. -/
theorem Landed.congr_addr {addr' : ℕ → ℕ} {b : ℕ} {parts : List (List UInt8)}
    (h : Landed mem dst addr size b parts)
    (haddr : ∀ i < parts.length, addr' ((b + i) % size) = addr ((b + i) % size)) :
    Landed mem dst addr' size b parts := by
  induction parts generalizing b with
  | nil => trivial
  | cons part parts ih =>
    refine ⟨h.1, fun hne => (haddr 0 (Nat.succ_pos _)).trans (h.2.1 hne), ?_⟩
    refine ih h.2.2 fun i hi => ?_
    have hnext := haddr (i + 1) (Nat.succ_lt_succ hi)
    have hindex : b + (i + 1) = b + 1 + i := by omega
    rw [hindex] at hnext
    exact hnext

/-- Buffers whose descriptors have the lengths of the parts hold the parts. -/
theorem bufs_of_landed {env : PageEnv} {sdesc : ℕ → SwSg} {b : ℕ} {parts : List (List UInt8)}
    (h : Landed mem dst (fun i => pageAddress env (sdesc i)) size b parts)
    (hlen : ∀ k part, parts[k]? = some part → (sdesc ((b + k) % size)).len = part.length) :
    bufs env mem size sdesc b parts.length = parts.flatten := by
  induction parts generalizing b with
  | nil => rfl
  | cons part parts ih =>
    have hfirst : bufAt env mem size sdesc b = part := by
      have hlength := hlen 0 part rfl
      rw [Nat.add_zero] at hlength
      unfold bufAt
      rw [hlength]
      by_cases hnil : part = []
      · rw [hnil]
        rfl
      · have haddr := h.2.1 hnil
        dsimp only at haddr
        rw [haddr]
        exact h.1
    rw [List.length_cons, Nat.add_comm parts.length, bufs_add, bufs_one, hfirst, List.flatten_cons,
      ih h.2.2]
    intro k part' hk
    have hindex : b + 1 + k = b + (k + 1) := by omega
    rw [hindex]
    exact hlen (k + 1) part' hk

end

end OnicDriver.Stream
