import OnicDriver.Lib.CInt
import OnicDriver.Queue.Descq

/-!
# Reading the completion ring of a memory mapped queue

A translation of `qdma_descq_read_cmpt_data`, with which a client takes the
pending entries of a completion ring, and of the copy loop it calls. The
memory from the start of the ring on is a function of the byte offset. The
entries are in ring order and a second call finds nothing, but only as long
as the producer has not wrapped: the loop and the new consumer index run on
past the end of the ring.
-/

namespace OnicDriver.Cmpt

open Lib Queue

/-- `struct qdma_q_cmpt_cidx_reg_info`. -/
structure CmptCidxRegInfo where
  wrbCidx : ℕ := 0
  counterIdx : ℕ := 0
  timerIdx : ℕ := 0
  trigMode : ℕ := 0
  wrbEn : Bool := false
  irqEn : Bool := false
  deriving DecidableEq, Repr

/-- `struct qdma_descq` of a queue with a completion ring. `descCmpt` is the memory from the
start of the ring on, `csPidx` the producer index in the status descriptor, and `cidxUpdates`
the writes of the consumer index register. -/
structure Descq where
  name : String := ""
  st : Bool := false
  drvMode : DrvMode := .auto
  rngszCmpt : ℕ
  cmptEntryLen : ℕ
  descCmpt : ℕ → UInt8
  csPidx : ℕ
  cidxCmpt : ℕ
  cmptCidxInfo : CmptCidxRegInfo := {}
  cidxUpdates : List CmptCidxRegInfo := []

/-- What a call of `qdma_descq_read_cmpt_data` returns: its value, the text it adds to `buf`, the
number of entries, the offsets that the entries are copied from, the entries and the queue. -/
structure CmptRead where
  rv : ℤ
  buf : String := ""
  numEntries : ℕ
  offsets : List ℕ := []
  cmptEntries : List (List UInt8) := []
  descq : Option Descq

/-- `ring_idx_delta` on any indices, with the wrap of unsigned integers. -/
def ringIdxDeltaU32 (new old rngsz : ℕ) : ℕ :=
  if new ≥ old then new - old else u32 (new + (rngsz - old))

/-- `memcpy` of one entry. -/
def memcpy (mem : ℕ → UInt8) (src n : ℕ) : List UInt8 := (List.range n).map fun j => mem (src + j)

/-- The loop of `qdma_descq_read_cmpt`: where each entry is copied from, and the entry. -/
def cmptLoop (mem : ℕ → UInt8) (stride : ℕ) : ℕ → ℕ → List (ℕ × List UInt8)
  | 0, _ => []
  | n + 1, cmpt => (cmpt, memcpy mem cmpt stride) :: cmptLoop mem stride n (cmpt + stride)

/-- The low nibble of the first byte is masked. -/
def maskNibble : List UInt8 → List UInt8
  | [] => []
  | b :: bs => (b &&& 0xF0) :: bs

/-- `qdma_descq_read_cmpt`, which masks the first byte it has copied. -/
def qdmaDescqReadCmpt (q : Descq) (numEntries : ℕ) : List ℕ × List (List UInt8) :=
  let copied := cmptLoop q.descCmpt q.cmptEntryLen numEntries (u32 (q.cidxCmpt * q.cmptEntryLen))
  let entries := copied.map Prod.snd
  (copied.map Prod.fst, entries.modifyHead maskNibble)

/-- `queue_cmpt_cidx_update` with the consumer index `cidx`, which writes the register. -/
def Descq.cmptCidxUpdate (q : Descq) (cidx : ℕ) : Descq :=
  let info := { q.cmptCidxInfo with wrbCidx := u16 cidx }
  { q with cmptCidxInfo := info, cidxUpdates := q.cidxUpdates ++ [info] }

/-- `qdma_descq_read_cmpt_data` on the queue that the handle names, if there is one. `kzalloc`
tells whether an allocation of so many bytes succeeds, and `numEntries` is what the count of the
caller holds before. -/
def qdmaDescqReadCmptData (kzalloc : ℕ → Bool) (descq : Option Descq) (hasBuf : Bool)
    (buflen numEntries : ℕ) : CmptRead :=
  match descq with
  | none => { rv := -EINVAL, numEntries := numEntries, descq := none }
  | some q =>
    if hasBuf = false ∨ buflen = 0 then
      { rv := -EINVAL, numEntries := numEntries, descq := some q }
    else if q.st then { rv := -EINVAL, numEntries := numEntries, descq := some q }
    else
      let pend := ringIdxDeltaU32 q.csPidx q.cidxCmpt q.rngszCmpt
      let numEntries := min pend q.rngszCmpt
      if pend = 0 then
        let q := if q.drvMode ≠ .poll then q.cmptCidxUpdate q.cidxCmpt else q
        { rv := 0, buf := q.name ++ " no pending entries in cmpt ring\n", numEntries := 0
          descq := some q }
      else if numEntries > 0 then
        if kzalloc (u32 (numEntries * q.cmptEntryLen)) = false then
          { rv := 0, buf := "OOM for cmpt_entries\n", numEntries := 0, descq := some q }
        else
          let (offsets, entries) := qdmaDescqReadCmpt q numEntries
          let cidxCmpt := u32 (q.cidxCmpt + numEntries)
          let q := { q with cidxCmpt := cidxCmpt }
          { rv := 0, numEntries := numEntries, offsets := offsets, cmptEntries := entries
            descq := some (q.cmptCidxUpdate cidxCmpt) }
      else { rv := 0, numEntries := numEntries, descq := some q }

/-! ## What a read is for -/

/-- The slots that wait to be read: from the consumer to the producer in ring order. -/
def Descq.pendingSlots (q : Descq) : List ℕ :=
  (List.range (ringIdxDelta q.csPidx q.cidxCmpt q.rngszCmpt)).map fun i =>
    (q.cidxCmpt + i) % q.rngszCmpt

/-- The entry in a slot of the ring. -/
def Descq.slotEntry (q : Descq) (slot : ℕ) : List UInt8 :=
  memcpy q.descCmpt (slot * q.cmptEntryLen) q.cmptEntryLen

/-- The queue has a completion ring in use: both indices are in the ring, and the entries are of at
least 8 bytes and have offsets of 32 bits. -/
structure Descq.RingOk (q : Descq) : Prop where
  mm : q.st = false
  csPidx_lt : q.csPidx < q.rngszCmpt
  cidxCmpt_lt : q.cidxCmpt < q.rngszCmpt
  fits : q.rngszCmpt * q.cmptEntryLen < 2 ^ 32
  entryLen_le : 8 ≤ q.cmptEntryLen

/-- The pending entries of `q` are handed over in ring order, apart from the low nibble of the
first byte of each, only slots of the ring are read, and the consumer has reached the producer. -/
structure ReadsPending (q : Descq) (r : CmptRead) : Prop where
  count : r.numEntries = q.pendingSlots.length
  entries : r.cmptEntries.map maskNibble =
    q.pendingSlots.map fun slot => maskNibble (q.slotEntry slot)
  inRing : ∀ offset ∈ r.offsets, offset + q.cmptEntryLen ≤ q.rngszCmpt * q.cmptEntryLen
  consumed : ∃ q', r.descq = some q' ∧ q'.cidxCmpt = q.csPidx ∧ q'.cidxCmpt < q.rngszCmpt

/-- No entry is handed over. -/
def ReturnsNone (r : CmptRead) : Prop := r.numEntries = 0 ∧ r.cmptEntries = []

/-! ## The copy loop -/

section

variable {mem : ℕ → UInt8} {stride n src : ℕ}

/-- The loop goes on from entry to entry, wherever the ring ends. -/
theorem cmptLoop_eq : cmptLoop mem stride n src =
    (List.range n).map fun i => (src + i * stride, memcpy mem (src + i * stride) stride) := by
  induction n generalizing src with
  | zero => rfl
  | succ n ih =>
    have hnext (i : ℕ) : src + stride + i * stride = src + (i + 1) * stride := by
      rw [Nat.add_mul, Nat.one_mul]
      omega
    rw [cmptLoop, ih, List.range_succ_eq_map, List.map_cons, List.map_map, Nat.zero_mul,
      Nat.add_zero]
    congr 1
    apply List.map_congr_left
    intro i _
    simp only [Function.comp_apply, hnext, Nat.succ_eq_add_one]

/-- Masking a byte again does nothing. -/
theorem maskNibble_maskNibble (entry : List UInt8) :
    maskNibble (maskNibble entry) = maskNibble entry := by
  cases entry with
  | nil => rfl
  | cons b bs =>
    have hmask : b &&& 0xF0 &&& 0xF0 = b &&& 0xF0 := by
      rw [UInt8.and_assoc, UInt8.and_self]
    rw [maskNibble, maskNibble, hmask]

/-- Apart from the nibbles that it masks, the copy has the entries that were copied. -/
theorem map_maskNibble_modifyHead (entries : List (List UInt8)) :
    (entries.modifyHead maskNibble).map maskNibble = entries.map maskNibble := by
  cases entries with
  | nil => rfl
  | cons entry rest =>
    rw [List.modifyHead_cons, List.map_cons, List.map_cons, maskNibble_maskNibble]

end

/-! ## When a read is right -/

section

variable {q : Descq} {kzalloc : ℕ → Bool} {buflen numEntries : ℕ}

theorem Descq.RingOk.rngszCmpt_lt (h : q.RingOk) : q.rngszCmpt < 2 ^ 31 := by
  have hfits := h.fits
  have hle := Nat.mul_le_mul_left q.rngszCmpt h.entryLen_le
  omega

theorem Descq.RingOk.delta (h : q.RingOk) : ringIdxDeltaU32 q.csPidx q.cidxCmpt q.rngszCmpt =
    ringIdxDelta q.csPidx q.cidxCmpt q.rngszCmpt := by
  have hp := h.csPidx_lt
  have hc := h.cidxCmpt_lt
  have hrngsz := h.rngszCmpt_lt
  unfold ringIdxDeltaU32 ringIdxDelta
  split
  · rfl
  · have hcast : (q.csPidx + (q.rngszCmpt - q.cidxCmpt) : ℤ) =
        ((q.csPidx + (q.rngszCmpt - q.cidxCmpt) : ℕ) : ℤ) := by omega
    rw [hcast]
    exact u32_natCast (by omega)

theorem Descq.RingOk.delta_lt (h : q.RingOk) :
    ringIdxDelta q.csPidx q.cidxCmpt q.rngszCmpt < q.rngszCmpt := by
  have hp := h.csPidx_lt
  have hc := h.cidxCmpt_lt
  unfold ringIdxDelta
  split <;> omega

/-- Nothing is pending if and only if the consumer has reached the producer. -/
theorem Descq.RingOk.delta_eq_zero (h : q.RingOk) :
    ringIdxDelta q.csPidx q.cidxCmpt q.rngszCmpt = 0 ↔ q.cidxCmpt = q.csPidx := by
  have hp := h.csPidx_lt
  have hc := h.cidxCmpt_lt
  unfold ringIdxDelta
  split <;> omega

/-- The call on a queue that has nothing to read. -/
theorem qdmaDescqReadCmptData_of_none (hmm : q.st = false) (hbuf : buflen ≠ 0)
    (h : ringIdxDeltaU32 q.csPidx q.cidxCmpt q.rngszCmpt = 0) :
    qdmaDescqReadCmptData kzalloc (some q) true buflen numEntries =
      { rv := 0, buf := q.name ++ " no pending entries in cmpt ring\n", numEntries := 0
        descq := some (if q.drvMode ≠ .poll then q.cmptCidxUpdate q.cidxCmpt else q) } := by
  have harg : ¬ (true = false ∨ buflen = 0) := by simp [hbuf]
  unfold qdmaDescqReadCmptData
  dsimp only
  rw [if_neg harg, hmm, if_neg Bool.false_ne_true, if_pos h]
  split <;> rfl

/-- The call that takes `pend` entries. -/
theorem qdmaDescqReadCmptData_of_some {pend : ℕ} (hring : q.RingOk) (hbuf : buflen ≠ 0)
    (hpend : ringIdxDelta q.csPidx q.cidxCmpt q.rngszCmpt = pend) (hpos : pend ≠ 0)
    (halloc : kzalloc (pend * q.cmptEntryLen) = true) :
    qdmaDescqReadCmptData kzalloc (some q) true buflen numEntries =
      { rv := 0, numEntries := pend
        offsets := (List.range pend).map fun i => (q.cidxCmpt + i) * q.cmptEntryLen
        cmptEntries := ((List.range pend).map fun i =>
          q.slotEntry (q.cidxCmpt + i)).modifyHead maskNibble
        descq := some ({ q with cidxCmpt := q.cidxCmpt + pend }.cmptCidxUpdate
          (q.cidxCmpt + pend)) } := by
  have harg : ¬ (true = false ∨ buflen = 0) := by simp [hbuf]
  have hlt := hring.delta_lt
  rw [hpend] at hlt
  have hmin : min pend q.rngszCmpt = pend := by omega
  have hfits := hring.fits
  have hc := hring.cidxCmpt_lt
  have hlen : pend * q.cmptEntryLen < 2 ^ 32 :=
    lt_of_le_of_lt (Nat.mul_le_mul_right _ hlt.le) hfits
  have hsrc : q.cidxCmpt * q.cmptEntryLen < 2 ^ 32 :=
    lt_of_le_of_lt (Nat.mul_le_mul_right _ hc.le) hfits
  have hrngsz := hring.rngszCmpt_lt
  have hcidx : u32 (q.cidxCmpt + pend : ℕ) = q.cidxCmpt + pend := u32_natCast (by omega)
  have hoffset (i : ℕ) : q.cidxCmpt * q.cmptEntryLen + i * q.cmptEntryLen =
      (q.cidxCmpt + i) * q.cmptEntryLen := (Nat.add_mul _ _ _).symm
  have hcopy : qdmaDescqReadCmpt q pend =
      ((List.range pend).map fun i => (q.cidxCmpt + i) * q.cmptEntryLen,
        ((List.range pend).map fun i => q.slotEntry (q.cidxCmpt + i)).modifyHead maskNibble) := by
    unfold qdmaDescqReadCmpt Descq.slotEntry
    rw [← Nat.cast_mul, u32_natCast hsrc, cmptLoop_eq]
    simp only [List.map_map, Function.comp_def, hoffset]
  unfold qdmaDescqReadCmptData
  dsimp only
  rw [if_neg harg, hring.mm, if_neg Bool.false_ne_true, hring.delta, hpend, if_neg hpos, hmin,
    if_pos (Nat.pos_of_ne_zero hpos), ← Nat.cast_mul, u32_natCast hlen, halloc,
    if_neg Bool.false_ne_true.symm, hcopy, ← Nat.cast_add, hcidx]

/-- The call that is refused the memory for the entries. -/
theorem qdmaDescqReadCmptData_of_oom (hring : q.RingOk) (hbuf : buflen ≠ 0)
    (hpos : ringIdxDelta q.csPidx q.cidxCmpt q.rngszCmpt ≠ 0)
    (halloc : kzalloc (ringIdxDelta q.csPidx q.cidxCmpt q.rngszCmpt * q.cmptEntryLen) = false) :
    qdmaDescqReadCmptData kzalloc (some q) true buflen numEntries =
      { rv := 0, buf := "OOM for cmpt_entries\n", numEntries := 0, descq := some q } := by
  have harg : ¬ (true = false ∨ buflen = 0) := by simp [hbuf]
  have hlt := hring.delta_lt
  have hmin : min (ringIdxDelta q.csPidx q.cidxCmpt q.rngszCmpt) q.rngszCmpt =
      ringIdxDelta q.csPidx q.cidxCmpt q.rngszCmpt := by omega
  have hlen : ringIdxDelta q.csPidx q.cidxCmpt q.rngszCmpt * q.cmptEntryLen < 2 ^ 32 :=
    lt_of_le_of_lt (Nat.mul_le_mul_right _ hlt.le) hring.fits
  unfold qdmaDescqReadCmptData
  dsimp only
  rw [if_neg harg, hring.mm, if_neg Bool.false_ne_true, hring.delta, if_neg hpos, hmin,
    if_pos (Nat.pos_of_ne_zero hpos), ← Nat.cast_mul, u32_natCast hlen, if_pos halloc]

/-- Where the producer has not wrapped, the slots that wait lie side by side. -/
theorem Descq.RingOk.pendingSlots_of_le (h : q.RingOk) (hle : q.cidxCmpt ≤ q.csPidx) :
    q.pendingSlots =
      (List.range (ringIdxDelta q.csPidx q.cidxCmpt q.rngszCmpt)).map (q.cidxCmpt + ·) := by
  have hp := h.csPidx_lt
  apply List.map_congr_left
  intro i hi
  have hlt := List.mem_range.mp hi
  unfold ringIdxDelta at hlt
  rw [if_pos hle] at hlt
  exact Nat.mod_eq_of_lt (by omega)

theorem Descq.length_pendingSlots :
    q.pendingSlots.length = ringIdxDelta q.csPidx q.cidxCmpt q.rngszCmpt := by
  unfold pendingSlots
  rw [List.length_map, List.length_range]

/-- A call on a queue whose consumer has reached the producer reads all there is. -/
theorem readsPending_of_eq (hring : q.RingOk) (hbuf : buflen ≠ 0) (heq : q.cidxCmpt = q.csPidx) :
    ReadsPending q (qdmaDescqReadCmptData kzalloc (some q) true buflen numEntries) := by
  have hzero := hring.delta_eq_zero.mpr heq
  have hslots : q.pendingSlots = [] := by
    rw [← List.length_eq_zero_iff, Descq.length_pendingSlots, hzero]
  rw [qdmaDescqReadCmptData_of_none hring.mm hbuf (hring.delta.trans hzero)]
  refine ⟨?_, ?_, ?_, _, rfl, ?_⟩
  · rw [hslots]
    rfl
  · rw [hslots]
    rfl
  · intro offset hoffset
    cases hoffset
  · have hlt := hring.cidxCmpt_lt
    split
    · exact ⟨heq, hlt⟩
    · exact ⟨heq, hlt⟩

/-- A call on a queue whose producer has not wrapped reads all there is. -/
theorem readsPending_of_lt (hring : q.RingOk) (hbuf : buflen ≠ 0) (hlt : q.cidxCmpt < q.csPidx)
    (halloc : kzalloc ((q.csPidx - q.cidxCmpt) * q.cmptEntryLen) = true) :
    ReadsPending q (qdmaDescqReadCmptData kzalloc (some q) true buflen numEntries) := by
  have hp := hring.csPidx_lt
  have hdelta : ringIdxDelta q.csPidx q.cidxCmpt q.rngszCmpt = q.csPidx - q.cidxCmpt :=
    if_pos hlt.le
  have hcidx : q.cidxCmpt + (q.csPidx - q.cidxCmpt) = q.csPidx := by omega
  have hslots := hring.pendingSlots_of_le hlt.le
  rw [qdmaDescqReadCmptData_of_some hring hbuf hdelta (by omega) halloc]
  rw [hdelta] at hslots
  refine ⟨?_, ?_, ?_, _, rfl, hcidx, ?_⟩
  · rw [Descq.length_pendingSlots, hdelta]
  · dsimp only
    rw [map_maskNibble_modifyHead, hslots, List.map_map, List.map_map]
    rfl
  · intro offset hoffset
    obtain ⟨i, hi, rfl⟩ := List.mem_map.mp hoffset
    have hlast : q.cidxCmpt + i + 1 ≤ q.rngszCmpt := by
      have := List.mem_range.mp hi
      omega
    calc
      (q.cidxCmpt + i) * q.cmptEntryLen + q.cmptEntryLen =
          (q.cidxCmpt + i + 1) * q.cmptEntryLen := (Nat.succ_mul _ _).symm
      _ ≤ q.rngszCmpt * q.cmptEntryLen := Nat.mul_le_mul_right _ hlast
  · exact lt_of_eq_of_lt hcidx hp

/-- A call that reads all there is found the producer ahead of the consumer, and had the memory
for the entries. -/
theorem ReadsPending.notWrapped (hring : q.RingOk) (hbuf : buflen ≠ 0)
    (h : ReadsPending q (qdmaDescqReadCmptData kzalloc (some q) true buflen numEntries)) :
    q.cidxCmpt = q.csPidx ∨ q.cidxCmpt < q.csPidx ∧
      kzalloc ((q.csPidx - q.cidxCmpt) * q.cmptEntryLen) = true := by
  by_cases heq : q.cidxCmpt = q.csPidx
  · exact .inl heq
  right
  have hpos : ringIdxDelta q.csPidx q.cidxCmpt q.rngszCmpt ≠ 0 :=
    mt hring.delta_eq_zero.mp heq
  by_cases halloc :
      kzalloc (ringIdxDelta q.csPidx q.cidxCmpt q.rngszCmpt * q.cmptEntryLen) = true
  · have hconsumed := h.consumed
    rw [qdmaDescqReadCmptData_of_some hring hbuf rfl hpos halloc] at hconsumed
    obtain ⟨q', hq', -, hlt⟩ := hconsumed
    cases hq'
    change q.cidxCmpt + ringIdxDelta q.csPidx q.cidxCmpt q.rngszCmpt < q.rngszCmpt at hlt
    have hp := hring.csPidx_lt
    unfold ringIdxDelta at hlt halloc
    split at hlt
    · rename_i hge
      rw [if_pos hge] at halloc
      exact ⟨by omega, halloc⟩
    · omega
  · have hcount := h.count
    rw [qdmaDescqReadCmptData_of_oom hring hbuf hpos (Bool.eq_false_of_not_eq_true halloc),
      Descq.length_pendingSlots] at hcount
    exact absurd hcount.symm hpos

/-- A call leaves the producer and the kind of the queue alone. -/
theorem qdmaDescqReadCmptData_frame {q' : Descq} {hasBuf : Bool}
    (h : (qdmaDescqReadCmptData kzalloc (some q) hasBuf buflen numEntries).descq = some q') :
    q'.csPidx = q.csPidx ∧ q'.st = q.st := by
  unfold qdmaDescqReadCmptData at h
  dsimp only at h
  split at h
  · cases h
    exact ⟨rfl, rfl⟩
  split at h
  · cases h
    exact ⟨rfl, rfl⟩
  split at h
  · cases h
    split
    · exact ⟨rfl, rfl⟩
    · exact ⟨rfl, rfl⟩
  split at h
  · split at h
    · cases h
      exact ⟨rfl, rfl⟩
    · cases h
      exact ⟨rfl, rfl⟩
  · cases h
    exact ⟨rfl, rfl⟩

/-- After a call that reads all there is the next one returns no entry. -/
theorem ReadsPending.again (hring : q.RingOk) (hbuf : buflen ≠ 0)
    (h : ReadsPending q (qdmaDescqReadCmptData kzalloc (some q) true buflen numEntries))
    (kzalloc' : ℕ → Bool) (n : ℕ) :
    ReturnsNone (qdmaDescqReadCmptData kzalloc'
      (qdmaDescqReadCmptData kzalloc (some q) true buflen numEntries).descq true buflen n) := by
  obtain ⟨q', hq', hcidx, -⟩ := h.consumed
  obtain ⟨hcs, hst⟩ := qdmaDescqReadCmptData_frame hq'
  have hzero : ringIdxDeltaU32 q'.csPidx q'.cidxCmpt q'.rngszCmpt = 0 := by
    unfold ringIdxDeltaU32
    rw [hcidx, hcs, if_pos le_rfl, Nat.sub_self]
  rw [hq', qdmaDescqReadCmptData_of_none (hst.trans hring.mm) hbuf hzero]
  exact ⟨rfl, rfl⟩

/-- A read of the completion ring is right, and leaves nothing to the next one, if and only if the
producer has not wrapped and the memory for the entries is there. -/
theorem readCmptData_readsPending_iff (hring : q.RingOk) (hbuf : buflen ≠ 0) :
    (ReadsPending q (qdmaDescqReadCmptData kzalloc (some q) true buflen numEntries) ∧
      ∀ kzalloc' n, ReturnsNone (qdmaDescqReadCmptData kzalloc'
        (qdmaDescqReadCmptData kzalloc (some q) true buflen numEntries).descq true buflen n)) ↔
    (q.cidxCmpt = q.csPidx ∨ q.cidxCmpt < q.csPidx ∧
      kzalloc ((q.csPidx - q.cidxCmpt) * q.cmptEntryLen) = true) := by
  constructor
  · rintro ⟨hreads, -⟩
    exact hreads.notWrapped hring hbuf
  · intro h
    have hreads :
        ReadsPending q (qdmaDescqReadCmptData kzalloc (some q) true buflen numEntries) := by
      rcases h with heq | ⟨hlt, halloc⟩
      · exact readsPending_of_eq hring hbuf heq
      · exact readsPending_of_lt hring hbuf hlt halloc
    exact ⟨hreads, hreads.again hring hbuf⟩

end

/-! ## Two rings -/

/-- A ring of four entries of 8 bytes, each filled with the number of its slot. What follows the
ring in memory is filled with 255. -/
def fourEntries (cidxCmpt csPidx : ℕ) : Descq where
  rngszCmpt := 4
  cmptEntryLen := 8
  descCmpt offset := if offset < 32 then (offset / 8).toUInt8 else 255
  csPidx := csPidx
  cidxCmpt := cidxCmpt

/-- Two entries wait in the middle of the ring. -/
theorem fourEntries_readsPending :
    ReadsPending (fourEntries 1 3)
      (qdmaDescqReadCmptData (fun _ => true) (some (fourEntries 1 3)) true 80 0) ∧
      ∀ kzalloc' n, ReturnsNone (qdmaDescqReadCmptData kzalloc'
        (qdmaDescqReadCmptData (fun _ => true) (some (fourEntries 1 3)) true 80 0).descq
        true 80 n) :=
  (readCmptData_readsPending_iff ⟨rfl, by decide, by decide, by decide, by decide⟩
    (by decide)).mpr (.inr ⟨by decide, rfl⟩)

/-- The producer of this ring has wrapped. The second entry handed over is from behind the ring,
and the consumer ends up past its end. -/
theorem wrappedRing_not_readsPending :
    ¬ ReadsPending (fourEntries 3 1)
      (qdmaDescqReadCmptData (fun _ => true) (some (fourEntries 3 1)) true 80 0) := by
  rintro ⟨-, -, -, q', hq', -, hlt⟩
  cases hq'
  exact absurd hlt (by decide)

end OnicDriver.Cmpt
