import OnicDriver.Dump.Rings
import OnicDriver.Mailbox.Message

/-!
# The bounds of dumps

When the dumps of a queue stay within its rings and within the buffer, and when the dump of an
interrupt ring stays within its ring.
-/

namespace OnicDriver.Dump

open Lib Queue Mailbox

/-! ## Interrupt rings -/

/-- An interrupt ring: the number of its entries, of 16 bits, and the two words at a place. -/
structure IntrCoalConf where
  intrRngNumEntries : ℕ
  intrRing : ℤ → ℕ × ℕ
  intrRngNumEntries_lt : intrRngNumEntries < 2 ^ 16

/-- The interrupts of a device. -/
structure IntrDev where
  qdmaDrvMode : DrvMode
  dvecStartIdx : ℕ
  intrCoalList : ℕ → IntrCoalConf

/-- What a dump of an interrupt ring leaves. -/
structure IntrResult where
  ret : ℤ
  buf : TextBuffer
  reads : List ℤ

/-- `mode_name_list`. -/
def modeNameList : DrvMode → String
  | .auto => "auto"
  | .poll => "poll"
  | .directIntr => "direct interrupt"
  | .indirectIntr => "indirect interrupt"
  | .legacyIntr => "legacy interrupt"

section

variable (fmtHex8 : ℕ → String) (limit : ℕ)

/-- The line of an entry. -/
def intrText (counter : ℤ) (data : ℕ × ℕ) : List Char :=
  ("intr_ring_entry = " ++ toString counter ++ ": 0x" ++ fmtHex8 data.2 ++ " 0x" ++
    fmtHex8 data.1 ++ "\n").toList

/-- The loop over the entries of an interrupt ring. -/
def intrLoop (ring : ℤ → ℕ × ℕ) : ℕ → ℤ → Cursor → List ℤ → IntrResult
  | 0, _, s, reads => { ret := 0, buf := s.buf, reads }
  | n + 1, counter, s, reads =>
    let reads := reads ++ [counter]
    let s := s.print limit (intrText fmtHex8 counter (ring counter))
    if limit ≤ s.cur then { ret := 0, buf := s.buf.store 0 [nul], reads }
    else intrLoop ring n (counter + 1) s reads

/-- A call that is refused with a message. -/
def refuse (b : TextBuffer) (message : String) : IntrResult :=
  { ret := -EINVAL, buf := b.snprintf 0 limit message.toList, reads := [] }

/-- `qdma_intr_ring_dump` of an open device. -/
def qdmaIntrRingDump (dev : IntrDev) (vectorIdx : ℕ) (startIdx endIdx : ℤ) (b : TextBuffer) :
    IntrResult :=
  if limit = 0 then { ret := -EINVAL, buf := b, reads := [] }
  else if dev.qdmaDrvMode ≠ .indirectIntr ∧ dev.qdmaDrvMode ≠ .auto then
    refuse limit b ("Interrupt aggregation not enabled in " ++ modeNameList dev.qdmaDrvMode ++
      " mode")
  else if vectorIdx < dev.dvecStartIdx ∨
      vectorIdx ≥ dev.dvecStartIdx + QDMA_NUM_DATA_VEC_FOR_INTR_CXT then
    refuse limit b ("Vector idx " ++ toString vectorIdx ++ " is invalid. Shall be in range: " ++
      toString dev.dvecStartIdx ++ " -  " ++
      toString (dev.dvecStartIdx + QDMA_NUM_DATA_VEC_FOR_INTR_CXT - 1) ++ ".\n")
  else
    let coal := dev.intrCoalList (vectorIdx - dev.dvecStartIdx)
    if startIdx > coal.intrRngNumEntries then
      refuse limit b ("start_idx " ++ toString startIdx ++ " is invalid. Shall be less than: " ++
        toString coal.intrRngNumEntries ++ "\n")
    else
      let endIdx := if endIdx = -1 ∨ endIdx ≥ coal.intrRngNumEntries then
        (coal.intrRngNumEntries : ℤ) - 1 else endIdx
      let startIdx := if startIdx = -1 then 0 else startIdx
      if startIdx > endIdx then refuse limit b "start_idx can't be greater than end_idx\n"
      else
        intrLoop fmtHex8 limit coal.intrRing (endIdx - startIdx + 1).toNat startIdx
          { buf := b, cur := 0 } []

variable {fmtHex8 limit}

/-- The entries that a loop reads: the first one, if there is one, and none out of its range. -/
theorem mem_intrLoop (fmtHex8 : ℕ → String) (limit : ℕ) (ring : ℤ → ℕ × ℕ) (n : ℕ) (counter : ℤ)
    (s : Cursor) (reads : List ℤ) :
    (∀ i ∈ reads, i ∈ (intrLoop fmtHex8 limit ring n counter s reads).reads) ∧
      (n ≠ 0 → counter ∈ (intrLoop fmtHex8 limit ring n counter s reads).reads) ∧
        ∀ i ∈ (intrLoop fmtHex8 limit ring n counter s reads).reads,
          i ∈ reads ∨ counter ≤ i ∧ i < counter + n := by
  induction n generalizing counter s reads with
  | zero => exact ⟨fun _ hi => hi, fun hne => absurd rfl hne, fun _ hi => Or.inl hi⟩
  | succ n ih =>
    have hmem : ∀ i ∈ reads ++ [counter], i ∈ reads ∨ counter ≤ i ∧ i < counter + (n + 1 : ℕ) := by
      intro i hi
      rcases List.mem_append.mp hi with hold | hnew
      · exact Or.inl hold
      · rw [List.mem_singleton.mp hnew]
        exact Or.inr ⟨le_rfl, by omega⟩
    unfold intrLoop
    dsimp only
    split_ifs
    · exact ⟨fun i hi => List.mem_append_left _ hi,
        fun _ => List.mem_append_right _ List.mem_cons_self, hmem⟩
    · obtain ⟨hkeep, -, hrange⟩ := ih (counter + 1)
        (s.print limit (intrText fmtHex8 counter (ring counter))) (reads ++ [counter])
      refine ⟨fun i hi => hkeep i (List.mem_append_left _ hi),
        fun _ => hkeep _ (List.mem_append_right _ List.mem_cons_self), fun i hi => ?_⟩
      rcases hrange i hi with hold | hlater
      · exact hmem i hold
      · exact Or.inr (by omega)

theorem refuse_ret_ne_zero (b : TextBuffer) (message : String) : (refuse limit b message).ret ≠ 0 :=
  show -EINVAL ≠ 0 by decide

/-- An interrupt ring that is dumped is read within its bounds exactly if the first index is not
below -1. -/
theorem intrRingDump_iff {dev : IntrDev} {vectorIdx : ℕ} {startIdx endIdx : ℤ} {b : TextBuffer}
    (haccepted : (qdmaIntrRingDump fmtHex8 limit dev vectorIdx startIdx endIdx b).ret = 0) :
    (∀ i ∈ (qdmaIntrRingDump fmtHex8 limit dev vectorIdx startIdx endIdx b).reads, 0 ≤ i ∧
        i < (dev.intrCoalList (vectorIdx - dev.dvecStartIdx)).intrRngNumEntries) ↔
      -1 ≤ startIdx := by
  unfold qdmaIntrRingDump at haccepted ⊢
  by_cases hnone : limit = 0
  · rw [if_pos hnone] at haccepted
    exact absurd haccepted (show -EINVAL ≠ 0 by decide)
  rw [if_neg hnone] at haccepted ⊢
  by_cases hmode : dev.qdmaDrvMode ≠ .indirectIntr ∧ dev.qdmaDrvMode ≠ .auto
  · rw [if_pos hmode] at haccepted
    exact absurd haccepted (refuse_ret_ne_zero _ _)
  rw [if_neg hmode] at haccepted ⊢
  by_cases hvector : vectorIdx < dev.dvecStartIdx ∨
      vectorIdx ≥ dev.dvecStartIdx + QDMA_NUM_DATA_VEC_FOR_INTR_CXT
  · rw [if_pos hvector] at haccepted
    exact absurd haccepted (refuse_ret_ne_zero _ _)
  rw [if_neg hvector] at haccepted ⊢
  generalize dev.intrCoalList (vectorIdx - dev.dvecStartIdx) = coal at haccepted ⊢
  dsimp only at haccepted ⊢
  by_cases hstart : startIdx > coal.intrRngNumEntries
  · rw [if_pos hstart] at haccepted
    exact absurd haccepted (refuse_ret_ne_zero _ _)
  rw [if_neg hstart] at haccepted ⊢
  generalize hfirst : (if startIdx = -1 then 0 else startIdx) = first at haccepted ⊢
  generalize hlast : (if endIdx = -1 ∨ endIdx ≥ coal.intrRngNumEntries then
    (coal.intrRngNumEntries : ℤ) - 1 else endIdx) = last at haccepted ⊢
  by_cases horder : first > last
  · rw [if_pos horder] at haccepted
    exact absurd haccepted (refuse_ret_ne_zero _ _)
  rw [if_neg horder]
  obtain ⟨-, hread, hrange⟩ := mem_intrLoop fmtHex8 limit coal.intrRing (last - first + 1).toNat
    first { buf := b, cur := 0 } []
  have hbelow : last < coal.intrRngNumEntries := by
    split_ifs at hlast <;> omega
  constructor
  · intro hinside
    have hfirst0 := (hinside first (hread (by omega))).1
    split_ifs at hfirst <;> omega
  · intro hge i hi
    have hfirst0 : 0 ≤ first := by
      split_ifs at hfirst <;> omega
    rcases hrange i hi with hnil | hin
    · exact absurd hnil List.not_mem_nil
    · omega

end

/-! ## All dumps -/

/-- A dump of an online queue reads within its rings and writes within the buffer exactly if there
is no ring to dump or all its text up to the last dump of bytes fits into the buffer, and, for the
descriptors of a streaming C2H queue, both indices are below the size of the ring. A dump of an
interrupt ring reads within the ring exactly if its first index is not below -1. -/
theorem dumps_inside_iff (fmt : Formats) (q : RingDescq) (limit start end_ : ℕ) (bytes : ℕ → Char)
    (extra : ℕ) (fmtHex8 : ℕ → String) (size : ℕ) (dev : IntrDev) (vectorIdx : ℕ)
    (startIdx endIdx : ℤ) (b : TextBuffer) :
    (q.qState = .online → start ≤ end_ → 0 < limit →
      (Inside q limit (qdmaQueueDumpDesc fmt limit q start end_ (.fresh bytes (limit + extra))) ↔
        q.desc = 0 ∨
          q.statusLine.length + (descDumpText fmt q (s32 start) (s32 end_)).length ≤ limit ∧
            FreeListInRing q (s32 start) (s32 end_)) ∧
      (Inside q limit (qdmaQueueDumpCmpt fmt limit q start end_ (.fresh bytes (limit + extra))) ↔
        q.descCmpt = 0 ∨
          q.statusLine.length + (cmptDumpText fmt q (s32 start) (s32 end_)).length ≤ limit)) ∧
    ((qdmaIntrRingDump fmtHex8 size dev vectorIdx startIdx endIdx b).ret = 0 →
      ((∀ i ∈ (qdmaIntrRingDump fmtHex8 size dev vectorIdx startIdx endIdx b).reads, 0 ≤ i ∧
          i < (dev.intrCoalList (vectorIdx - dev.dvecStartIdx)).intrRngNumEntries) ↔
        -1 ≤ startIdx)) :=
  ⟨fun honline horder hlimit =>
    ⟨queueDumpDesc_inside_iff honline horder hlimit,
      queueDumpCmpt_inside_iff honline horder hlimit⟩,
    fun haccepted => intrRingDump_iff haccepted⟩

/-- Digits as they are printed, and memory that holds zeros. -/
def zeroFormats : Formats where
  dec n := (toString n).toList.filter (· ≠ nul)
  hex n := (Nat.toDigits 16 n).filter (· ≠ nul)
  ptr p := (Nat.toDigits 16 (2 ^ 64 + p.toNat)).tail.filter (· ≠ nul)
  hexDump _ size row := "00000000 00000000 00000000 00000000 00000000 00000000 00000000 00000000"
    |>.toList.take (min size row / 4 * 9 - 1) |>.filter (· ≠ nul)
  dec_plain _ := fun hmem => by simp at hmem
  hex_plain _ := fun hmem => by simp at hmem
  ptr_plain _ := fun hmem => by simp at hmem
  hexDump_plain _ _ _ := fun hmem => by simp at hmem

/-- An online streaming C2H queue with rings of four entries. -/
def fourC2h : RingDescq where
  name := "q"
  qType := .c2h
  st := true
  err := false
  qState := .online
  qidxHw := 0
  cmplthp := none
  desc := 4096
  descBus := 4096
  rngsz := 4
  descCmpt := 8192
  descCmptBus := 8192
  rngszCmpt := 4
  descBypass := false
  swDescSz := 0
  cmptEntryLen := 8
  descCmplStatus := 4128
  descCmptCmplStatus := 8224
  sdesc _ := ⟨12288, 12288, 12288⟩
  rngsz_lt := by decide
  rngszCmpt_lt := by decide

/-- A device with one interrupt ring. -/
def oneIntrRing : IntrDev where
  qdmaDrvMode := .indirectIntr
  dvecStartIdx := 1
  intrCoalList _ := ⟨512, fun _ => (0, 0), by decide⟩

theorem fourC2h_inside :
    Inside fourC2h 4096 (qdmaQueueDumpDesc zeroFormats 4096 fourC2h 0 2
        (.fresh (fun _ => nul) (4096 + 0))) ∧
      Inside fourC2h 4096 (qdmaQueueDumpCmpt zeroFormats 4096 fourC2h 0 9
        (.fresh (fun _ => nul) (4096 + 0))) ∧
      ∀ i ∈ (qdmaIntrRingDump (fun _ => "00000000") 40 oneIntrRing 1 (-1) (-1)
        (.fresh (fun _ => nul) 40)).reads, 0 ≤ i ∧ i < 512 := by
  have hfirst := dumps_inside_iff zeroFormats fourC2h 4096 0 2 (fun _ => nul) 0
    (fun _ => "00000000") 40 oneIntrRing 1 (-1) (-1) (.fresh (fun _ => nul) 40)
  have hsecond := dumps_inside_iff zeroFormats fourC2h 4096 0 9 (fun _ => nul) 0
    (fun _ => "00000000") 40 oneIntrRing 1 (-1) (-1) (.fresh (fun _ => nul) 40)
  have hdesc := (hfirst.1 rfl (by decide) (by decide)).1
  have hcmpt := (hsecond.1 rfl (by decide) (by decide)).2
  have hintr := hfirst.2 (by decide +kernel)
  refine ⟨hdesc.mpr (Or.inr ⟨by decide +kernel, fun _ => by decide +kernel⟩),
    hcmpt.mpr (Or.inr (by decide +kernel)), hintr.mpr (by decide)⟩

/-- A dump up to the size of the ring reads the entry of the free list behind its end. -/
theorem fourC2h_not_inside :
    ¬ Inside fourC2h 4096 (qdmaQueueDumpDesc zeroFormats 4096 fourC2h 0 4
      (.fresh (fun _ => nul) 4096)) := by
  intro hinside
  have hread : RingRead.freeList 4 ∈ (qdmaQueueDumpDesc zeroFormats 4096 fourC2h 0 4
      (.fresh (fun _ => nul) 4096)).reads := by
    decide +kernel
  exact absurd (hinside.2 _ hread).2 (by decide)

end OnicDriver.Dump
