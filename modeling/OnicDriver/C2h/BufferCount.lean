import OnicDriver.C2h.Receive
import OnicDriver.C2h.FreeListShape
import Mathlib.Algebra.BigOperators.Group.List.Basic

/-!
# The number of buffers of a packet

`rcv_pkt` splits a packet into buffers by the counts of `get_fl_nr`, which
shifts and masks a length that is a power of two and divides any other. The
shift is that of the power of two which queue setup rounds the buffer size up
to, so the two ways agree only while the rounding is not seen.
-/

namespace OnicDriver.C2h

open Lib

/-- The free list with which `qdma_descq_alloc_resource` calls `descq_flq_alloc_resource`, for
pages of `2 ^ pageShift` bytes. -/
def allocFlq (pageShift : ℕ) (conf : C2hConf) : Flq :=
  let descBufSize := getNextPowof2 conf.c2hBufsz
  let descPgShift := Nat.log2 descBufSize
  let descPgOrder := if descPgShift < pageShift then 0 else descPgShift - pageShift
  { size := conf.rngsz, descBufSize := descBufSize, descPgShift := descPgShift
    maxPgOffset := 2 ^ (pageShift + descPgOrder) }

/-- The number of buffers that a packet takes: one at least. -/
def buffersFor (size len : ℕ) : ℕ := max 1 ((len + (size - 1)) / size)

/-- The number of bytes in the last buffer of a packet: the remainder, or a full buffer. -/
def lastBytes (size len : ℕ) : ℕ := if len ≠ 0 ∧ len % size = 0 then size else len % size

/-- What makes `rcv_pkt` hand a packet to the callback: the free list has the shift derived from
the buffer size, and there are enough filled descriptors. -/
structure ReadyFor (pageShift : ℕ) (conf : C2hConf) (pidx len : ℕ) (q : C2hQueue) : Prop where
  bufsz : 0 < conf.c2hBufsz
  shift : q.rx.flq.descPgShift = (allocFlq pageShift conf).descPgShift
  pidx_lt : pidx < conf.rngsz
  avail : q.rx.avail < conf.rngsz
  fits : flNr conf q.rx.flq len ≤ q.rx.avail
  filled : ∀ i < flNr conf q.rx.flq len,
    (q.rx.flq.sdesc (ringIdxIncr pidx i conf.rngsz)).len = conf.c2hBufsz

/-- `rcv_pkt` counts the buffers of a packet correctly: their number, the length of the last one,
and the lengths reported to the callback add up. -/
structure SplitsPacket (env : C2hEnv) (conf : C2hConf) (pidx len entry : ℕ) (q : C2hQueue) :
    Prop where
  number : flNr conf q.rx.flq len = buffersFor conf.c2hBufsz len
  last : ((rcvPkt env conf pidx len entry q).2.2.rx.flq.sdesc
    (ringIdxIncr pidx (flNr conf q.rx.flq len - 1) conf.rngsz)).len = lastBytes conf.c2hBufsz len
  sum : ∃ call, (rcvPkt env conf pidx len entry q).2.2.callbacks = q.callbacks ++ [call] ∧
    (call.sgl.map SwSg.len).sum = len

/-! ## Division into buffers -/

section

variable {size shift len : ℕ}

theorem le_of_two_pow_lt {a b : ℕ} (h : 2 ^ a < 2 * 2 ^ b) : a ≤ b := by
  rw [← Nat.pow_succ'] at h
  exact Nat.le_of_lt_succ ((Nat.pow_lt_pow_iff_right (by decide)).mp h)

/-- Full buffers and the last one make up the packet. -/
theorem buffersFor_sum (hsize : 0 < size) (len : ℕ) :
    (buffersFor size len - 1) * size + lastBytes size len = len := by
  have hdivmod := Nat.div_add_mod' len size
  have hmod := Nat.mod_lt len hsize
  unfold buffersFor lastBytes
  by_cases hzero : len = 0
  · subst hzero
    rw [Nat.zero_add, Nat.div_eq_of_lt (by omega)]
    simp
  · by_cases hdvd : len % size = 0
    · have hpos : 0 < len / size := Nat.div_pos (Nat.le_of_dvd (by omega)
        (Nat.dvd_of_mod_eq_zero hdvd)) hsize
      have hceil : (len + (size - 1)) / size = len / size :=
        Nat.div_eq_of_lt_le (by omega) (by rw [Nat.add_mul]; omega)
      have hsplit : len / size * size = (len / size - 1) * size + size := by
        rw [← Nat.succ_mul, Nat.succ_eq_add_one, Nat.sub_add_cancel hpos]
      rw [hceil, max_eq_right hpos, if_pos ⟨hzero, hdvd⟩]
      omega
    · have hceil : (len + (size - 1)) / size = len / size + 1 :=
        Nat.div_eq_of_lt_le (by rw [Nat.add_mul]; omega) (by rw [Nat.add_mul, Nat.add_mul]; omega)
      rw [hceil, max_eq_right (Nat.succ_pos _), if_neg (fun h => hdvd h.2), Nat.add_sub_cancel]
      omega

/-- The loop of `get_fl_nr` divides. -/
theorem subBufs_eq (hsize : 0 < size) {fuel : ℕ} (hfuel : len ≤ fuel) :
    subBufs size fuel len = (len / size, len % size) := by
  induction fuel generalizing len with
  | zero =>
    obtain rfl : len = 0 := by omega
    simp [subBufs]
  | succ fuel ih =>
    unfold subBufs
    by_cases hge : len ≥ size
    · rw [if_pos hge, ih (by omega), Nat.div_eq_sub_div hsize hge, Nat.mod_eq_sub_mod hge]
    · rw [if_neg hge, Nat.div_eq_of_lt (by omega), Nat.mod_eq_of_lt (by omega)]

/-- `get_fl_nr` on a length that is a power of two sees the rounded buffer size only. -/
theorem getFlNr_twoPow (size shift k : ℕ) :
    getFlNr (2 ^ k) size shift (2 ^ shift - 1) =
      if k < shift then (1, 2 ^ k) else (2 ^ (k - shift), size) := by
  have hlen : 0 < 2 ^ k := Nat.two_pow_pos k
  have hbuf : 0 < 2 ^ shift := Nat.two_pow_pos shift
  have hpow : 2 ^ k &&& (2 ^ k - 1) = 0 :=
    (Nat.and_sub_one_eq_zero_iff_isPowerOfTwo hlen.ne').mpr ⟨k, rfl⟩
  unfold getFlNr
  rw [if_pos hpow, if_pos hlen.ne', Nat.and_two_pow_sub_one_eq_mod]
  dsimp only
  by_cases hlt : k < shift
  · have hless : 2 ^ k < 2 ^ shift := Nat.pow_lt_pow_right (by decide) hlt
    have hone : (2 ^ k + (2 ^ shift - 1)) / 2 ^ shift = 1 :=
      Nat.div_eq_of_lt_le (by omega) (by omega)
    rw [if_pos hlt, hone, Nat.mod_eq_of_lt hless, if_neg hlen.ne']
  · obtain ⟨m, rfl⟩ := Nat.exists_eq_add_of_le (not_lt.mp hlt)
    have hwhole : (2 ^ (shift + m) + (2 ^ shift - 1)) / 2 ^ shift = 2 ^ m := by
      rw [pow_add, Nat.mul_add_div hbuf, Nat.div_eq_of_lt (by omega), Nat.add_zero]
    have hrest : 2 ^ (shift + m) % 2 ^ shift = 0 := by rw [pow_add, Nat.mul_mod_right]
    rw [if_neg hlt, hwhole, hrest, if_pos rfl, Nat.add_sub_cancel_left]

/-- `get_fl_nr` on any other length divides. -/
theorem getFlNr_other (hsize : 0 < size) (hother : ¬ len.isPowerOfTwo) (hlen : len ≠ 0)
    (shift : ℕ) :
    getFlNr len size shift (2 ^ shift - 1) = (buffersFor size len, lastBytes size len) := by
  have hmod := Nat.mod_lt len hsize
  have hdivmod := Nat.div_add_mod' len size
  have hand : ¬ len &&& (len - 1) = 0 := by
    rwa [Nat.and_sub_one_eq_zero_iff_isPowerOfTwo hlen]
  unfold getFlNr buffersFor lastBytes
  rw [if_neg hand]
  by_cases hshort : len ≤ size
  · have hone : (len + (size - 1)) / size = 1 :=
      Nat.div_eq_of_lt_le (by omega) (by omega)
    rw [if_pos hshort, hone, max_self]
    rcases hshort.lt_or_eq with hlt | rfl
    · rw [Nat.mod_eq_of_lt hlt, if_neg (fun h => hlen h.2)]
    · rw [Nat.mod_self, if_pos ⟨hlen, rfl⟩]
  · rw [if_neg hshort, subBufs_eq hsize le_rfl]
    dsimp only
    by_cases hrest : len % size = 0
    · have hceil : (len + (size - 1)) / size = len / size :=
        Nat.div_eq_of_lt_le (by omega) (by rw [Nat.add_mul]; omega)
      have hpos : 0 < len / size := Nat.div_pos (by omega) hsize
      rw [hceil, max_eq_right hpos, if_neg (not_not.mpr hrest), if_pos ⟨hlen, hrest⟩]
    · have hceil : (len + (size - 1)) / size = len / size + 1 :=
        Nat.div_eq_of_lt_le (by rw [Nat.add_mul]; omega) (by rw [Nat.add_mul, Nat.add_mul]; omega)
      rw [hceil, max_eq_right (Nat.succ_pos _), if_pos hrest, if_neg (fun h => hrest h.2)]

/-- The rounding of the buffer size is not seen: the buffer size is a power of two, or the packet
fits into one buffer, or its length is divided. -/
def RoundingUnseen (size len : ℕ) : Prop :=
  size.isPowerOfTwo ∨ len ≤ size ∨ ¬ len.isPowerOfTwo

/-- `get_fl_nr` with the shift of the rounded buffer size counts the buffers correctly, unless
the rounding is seen. -/
theorem getFlNr_of_unseen (hsize : 0 < size) (hshift : getNextPowof2 size = 2 ^ shift)
    (hlen : len ≠ 0) (h : RoundingUnseen size len) :
    getFlNr len size shift (2 ^ shift - 1) = (buffersFor size len, lastBytes size len) := by
  by_cases hpow : len.isPowerOfTwo
  · obtain ⟨k, rfl⟩ := hpow
    obtain ⟨n, hn, hle, hlt⟩ := getNextPowof2_spec hsize
    rw [hshift] at hn
    rw [← hn] at hle hlt
    rw [getFlNr_twoPow]
    have hsum := buffersFor_sum hsize (2 ^ k)
    by_cases hk : k < shift
    · have hless : 2 ^ k < 2 ^ shift := Nat.pow_lt_pow_right (by decide) hk
      have hfits : 2 ^ k ≤ size := by
        rcases h with ⟨j, rfl⟩ | hle' | hother
        · have hj : shift ≤ j := le_of_two_pow_lt (by omega)
          exact Nat.pow_le_pow_right (by decide) (by omega)
        · exact hle'
        · exact absurd ⟨k, rfl⟩ hother
      have hone : buffersFor size (2 ^ k) = 1 := by
        have hceil : (2 ^ k + (size - 1)) / size = 1 :=
          Nat.div_eq_of_lt_le (by omega) (by omega)
        rw [buffersFor, hceil, max_self]
      rw [hone] at hsum ⊢
      rw [if_pos hk]
      congr 1
      omega
    · have hk' : 2 ^ shift ≤ 2 ^ k := Nat.pow_le_pow_right (by decide) (not_lt.mp hk)
      have heq : size = 2 ^ shift := by
        rcases h with ⟨j, rfl⟩ | hle' | hother
        · have hj : shift ≤ j := le_of_two_pow_lt (by omega)
          exact le_antisymm hle (Nat.pow_le_pow_right (by decide) hj)
        · omega
        · exact absurd ⟨k, rfl⟩ hother
      obtain ⟨m, rfl⟩ := Nat.exists_eq_add_of_le (not_lt.mp hk)
      have hwhole : 2 ^ (shift + m) / size = 2 ^ m := by
        rw [heq, pow_add, Nat.mul_div_cancel_left _ (Nat.two_pow_pos _)]
      have hrest : 2 ^ (shift + m) % size = 0 := by rw [heq, pow_add, Nat.mul_mod_right]
      have hlast : lastBytes size (2 ^ (shift + m)) = size := if_pos ⟨hlen, hrest⟩
      rw [hlast] at hsum ⊢
      rw [if_neg hk, Nat.add_sub_cancel_left]
      congr 1
      have hdivmod := Nat.div_add_mod' (2 ^ (shift + m)) size
      rw [hrest, hwhole, Nat.add_zero] at hdivmod
      have hpos : 0 < buffersFor size (2 ^ (shift + m)) := lt_max_of_lt_left Nat.one_pos
      have hmul : buffersFor size (2 ^ (shift + m)) * size = 2 ^ m * size := by
        rw [hdivmod]
        refine Eq.trans ?_ hsum
        rw [← Nat.succ_mul, Nat.succ_eq_add_one, Nat.sub_add_cancel hpos]
      exact (Nat.eq_of_mul_eq_mul_right hsize hmul).symm
  · exact getFlNr_other hsize hpow hlen shift

/-- Where the rounding is seen, `get_fl_nr` counts too few buffers. -/
theorem getFlNr_of_seen (hsize : 0 < size) (hshift : getNextPowof2 size = 2 ^ shift)
    (h : ¬ RoundingUnseen size len) :
    (getFlNr len size shift (2 ^ shift - 1)).1 < buffersFor size len := by
  simp only [RoundingUnseen, not_or, not_le, not_not] at h
  obtain ⟨hodd, hlong, k, rfl⟩ := h
  obtain ⟨n, hn, hle, hlt⟩ := getNextPowof2_spec hsize
  rw [hshift] at hn
  rw [← hn] at hle hlt
  have hless : size < 2 ^ shift := hle.lt_of_ne fun heq => hodd ⟨shift, heq⟩
  have hk : shift ≤ k := le_of_two_pow_lt (by omega)
  obtain ⟨m, rfl⟩ := Nat.exists_eq_add_of_le hk
  have hm : 0 < 2 ^ m := Nat.two_pow_pos m
  rw [getFlNr_twoPow, if_neg (by omega), Nat.add_sub_cancel_left]
  have hsmall : 2 ^ m * size < 2 ^ (shift + m) := by
    rw [pow_add, Nat.mul_comm (2 ^ shift)]
    exact Nat.mul_lt_mul_of_pos_left hless hm
  refine lt_max_of_lt_right ?_
  rw [Nat.lt_iff_add_one_le, Nat.le_div_iff_mul_le hsize, Nat.add_mul]
  dsimp only
  omega

end

/-! ## The buffers handed to the callback -/

section

variable {pageShift pidx len : ℕ} {env : C2hEnv} {conf : C2hConf} {q : C2hQueue}

/-- The shift derived from the buffer size is that of the rounded size. -/
theorem ReadyFor.rounded (h : ReadyFor pageShift conf pidx len q) :
    getNextPowof2 conf.c2hBufsz = 2 ^ q.rx.flq.descPgShift := by
  obtain ⟨n, hn, -, -⟩ := getNextPowof2_spec h.bufsz
  rw [h.shift, allocFlq]
  dsimp only
  rw [hn, Nat.log2_two_pow]

/-- The callback gets the buffers of the packet, the last of them with its own length. -/
theorem ReadyFor.packetCall_lengths (h : ReadyFor pageShift conf pidx len q) (entry : ℕ) :
    (packetCall conf (lastLen conf pidx len q.rx.flq) pidx len (flNr conf q.rx.flq len)
        entry).sgl.map SwSg.len =
      List.replicate (flNr conf q.rx.flq len - 1) conf.c2hBufsz ++ [if len = 0 then 0 else
        (getFlNr len conf.c2hBufsz q.rx.flq.descPgShift (2 ^ q.rx.flq.descPgShift - 1)).2] := by
  have hpos : 0 < flNr conf q.rx.flq len := getFlNr_pos h.bufsz len
  obtain ⟨n, hn⟩ : ∃ n, flNr conf q.rx.flq len = n + 1 := ⟨_, (Nat.sub_add_cancel hpos).symm⟩
  have hfits := h.fits
  have havail := h.avail
  have hfilled := h.filled
  unfold packetCall lastLen
  dsimp only
  rw [hn] at hfits hfilled ⊢
  rw [List.range_succ, List.map_append, List.map_append, List.map_map, Nat.add_sub_cancel]
  congr 1
  · rw [List.eq_replicate_iff]
    refine ⟨by simp, fun l hl => ?_⟩
    obtain ⟨i, hi, rfl⟩ := List.mem_map.mp hl
    have hlt := List.mem_range.mp hi
    have hne : ringIdxIncr pidx i conf.rngsz ≠ ringIdxIncr pidx n conf.rngsz := by
      have hpidx := h.pidx_lt
      unfold ringIdxIncr
      split <;> split <;> omega
    simp only [Function.comp_apply]
    rw [Function.update_of_ne hne]
    exact hfilled i (by omega)
  · simp

/-- What `rcv_pkt` on a packet that fits writes and reports, whether the callback takes the packet
or not. -/
theorem rcvPkt_reports (env : C2hEnv) (entry : ℕ) (hfit : flNr conf q.rx.flq len ≤ q.rx.avail) :
    (rcvPkt env conf pidx len entry q).2.2.rx.flq.sdesc = (lastLen conf pidx len q.rx.flq).sdesc ∧
      (rcvPkt env conf pidx len entry q).2.2.callbacks = q.callbacks ++
        [packetCall conf (lastLen conf pidx len q.rx.flq) pidx len (flNr conf q.rx.flq len)
          entry] := by
  rw [rcvPkt_eq, if_neg (not_lt.mpr hfit)]
  split
  · exact ⟨rfl, rfl⟩
  · exact ⟨rfl, rfl⟩

/-- The number of buffers, the length of the last one and the lengths handed to the callback are
right exactly while the rounding of the buffer size is not seen. -/
theorem rcvPkt_splitsPacket_iff (h : ReadyFor pageShift conf pidx len q) (env : C2hEnv)
    (entry : ℕ) : SplitsPacket env conf pidx len entry q ↔ RoundingUnseen conf.c2hBufsz len := by
  have hrounded := h.rounded
  constructor
  · intro hsplits
    by_contra hseen
    exact absurd hsplits.number (getFlNr_of_seen h.bufsz hrounded hseen).ne
  · intro hunseen
    obtain ⟨hsdesc, hcall⟩ := @rcvPkt_reports pidx _ _ _ env entry h.fits
    have hlast : (if len = 0 then 0 else (getFlNr len conf.c2hBufsz q.rx.flq.descPgShift
        (2 ^ q.rx.flq.descPgShift - 1)).2) = lastBytes conf.c2hBufsz len := by
      by_cases hzero : len = 0
      · rw [if_pos hzero, hzero, lastBytes, if_neg (fun h => h.1 rfl), Nat.zero_mod]
      · rw [if_neg hzero, getFlNr_of_unseen h.bufsz hrounded hzero hunseen]
    have hnumber : flNr conf q.rx.flq len = buffersFor conf.c2hBufsz len := by
      unfold flNr
      by_cases hzero : len = 0
      · have hbufsz := h.bufsz
        have hnone : (0 + (conf.c2hBufsz - 1)) / conf.c2hBufsz = 0 := Nat.div_eq_of_lt (by omega)
        rw [hzero, buffersFor, hnone]
        rfl
      · rw [getFlNr_of_unseen h.bufsz hrounded hzero hunseen]
    refine ⟨hnumber, ?_, _, hcall, ?_⟩
    · rw [hsdesc]
      unfold lastLen
      dsimp only
      rw [Function.update_self]
      exact hlast
    · rw [h.packetCall_lengths, List.sum_append, List.sum_replicate, List.sum_singleton, hlast,
        hnumber, nsmul_eq_mul]
      exact buffersFor_sum h.bufsz len

/-! ## Buffers of 3968 bytes -/

/-- A ring of four buffers of 3968 bytes. -/
def oddBuffers : C2hConf :=
  { rngsz := 4, rngszCmpt := 8, cmptEntryLen := 8, c2hBufsz := 3968 }

/-- Pages are handed out in turn, each with a bus address, and all packets are taken. -/
def inTurn : C2hEnv :=
  { allocPages := fun n _ => some (n + 1), dmaMapPage := fun pg => some (pg * 4096)
    fpDescqC2hPacket := fun _ _ => 0, queueCmptCidxUpdate := fun _ => 0 }

/-- The queue with these buffers after its setup. -/
def oddBuffersQueue : C2hQueue :=
  let r := descqFlqAllocResource inTurn.toPageEnv oddBuffers.c2hBufsz true true
    (allocFlq 12 oddBuffers) {}
  { rx := { flq := r.2.1, heap := r.2.2, avail := oddBuffers.rngsz - 1 } }

theorem oddBuffersQueue_readyFor : ReadyFor 12 oddBuffers 0 4096 oddBuffersQueue where
  bufsz := by decide
  shift := by decide
  pidx_lt := by decide
  avail := by decide
  fits := by decide
  filled := by decide

/-- A page of data needs two of these buffers, and the callback is told of 3968 bytes. -/
theorem oddBuffersQueue_not_splitsPacket :
    (descqFlqAllocResource inTurn.toPageEnv oddBuffers.c2hBufsz true true (allocFlq 12 oddBuffers)
      {}).1 = 0 ∧ ReadyFor 12 oddBuffers 0 4096 oddBuffersQueue ∧
    ¬ SplitsPacket inTurn oddBuffers 0 4096 0 oddBuffersQueue := by
  refine ⟨by decide, oddBuffersQueue_readyFor, fun h => ?_⟩
  have hnumber := h.number
  revert hnumber
  decide

/-- A packet that fits into one buffer is counted correctly. -/
theorem oddBuffersQueue_splitsPacket :
    ReadyFor 12 oddBuffers 0 2048 oddBuffersQueue ∧
      SplitsPacket inTurn oddBuffers 0 2048 0 oddBuffersQueue := by
  have hready : ReadyFor 12 oddBuffers 0 2048 oddBuffersQueue :=
    ⟨by decide, by decide, by decide, by decide, by decide, by decide⟩
  exact ⟨hready, (rcvPkt_splitsPacket_iff hready inTurn 0).mpr (Or.inr (Or.inl (by decide)))⟩

end

end OnicDriver.C2h
