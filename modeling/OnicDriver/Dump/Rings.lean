import OnicDriver.Dump.Queue
import OnicDriver.Lib.CInt
import OnicDriver.Lib.Dumper

/-!
# Dumps of rings

The descriptors, the completion entries and the entries of an interrupt ring in a buffer of the
caller. The cursor of the free list moves with the loop over the descriptors and is read behind it.
-/

namespace OnicDriver.Dump

open Lib Queue

/-- What numbers, pointers and bytes look like. -/
structure Formats where
  dec : ℤ → List Char
  hex : ℕ → List Char
  ptr : ℤ → List Char
  hexDump : ℤ → ℕ → ℕ → List Char
  dec_plain : ∀ n, Dumper.Plain (dec n)
  hex_plain : ∀ n, Dumper.Plain (hex n)
  ptr_plain : ∀ p, Dumper.Plain (ptr p)
  hexDump_plain : ∀ p size row, Dumper.Plain (hexDump p size row)

/-- An entry of the free list, with the address of its page. -/
structure QdmaSwSg where
  pg : ℤ
  pageAddress : ℤ
  dmaAddr : ℕ
  deriving DecidableEq, Repr

def DESC_SZ_64B : ℕ := 3
def DESC_SZ_16B_BYTES : ℕ := 16
def DESC_SZ_32B_BYTES : ℕ := 32
def DESC_SZ_64B_BYTES : ℕ := 64

/-- A queue with what is told of its rings. The sizes of rings come from registers of 16 bits. -/
structure RingDescq extends Descq where
  descBypass : Bool
  swDescSz : ℕ
  cmptEntryLen : ℕ
  descCmplStatus : ℤ
  descCmptCmplStatus : ℤ
  sdesc : ℤ → QdmaSwSg
  rngsz_lt : rngsz < 2 ^ 16
  rngszCmpt_lt : rngszCmpt < 2 ^ 16

/-- `get_desc_size`. -/
def RingDescq.getDescSize (q : RingDescq) : ℕ :=
  if q.descBypass = true ∧ q.swDescSz = DESC_SZ_64B then DESC_SZ_64B_BYTES
  else if q.st = false then 32
  else if q.qType = .c2h then 8
  else 16

/-- The size of a completion status. -/
def cmplStatusSize : ℕ := 8

/-- An entry of a ring that is read. -/
inductive RingRead
  | desc (i : ℤ)
  | freeList (i : ℤ)
  | cmpt (i : ℤ)
  deriving DecidableEq, Repr

/-- A dump with the entries read so far. -/
structure RingDump where
  dump : Dumper
  reads : List RingRead

section

variable (fmt : Formats)

/-- The bytes of an entry that do not fit into one dump. -/
def secondPart (p : ℤ) (size : ℕ) : Option (List Char) :=
  if size > DESC_SZ_32B_BYTES then some (fmt.hexDump (p + DESC_SZ_32B_BYTES) size 32) else none

/-- The row of a first dump. -/
def rowSize (size : ℕ) : ℕ := if size < DESC_SZ_16B_BYTES then 16 else 32

/-- The texts in front of the dumps. -/
def entryHead (i p : ℤ) : List Char := fmt.dec i ++ ": 0x".toList ++ fmt.ptr p ++ [' ']

def statusHead (p : ℤ) : List Char := "CMPL STATUS: 0x".toList ++ fmt.ptr p ++ [' ']

def dataHead (p : ℤ) : List Char := "data 0: 0x".toList ++ fmt.ptr p ++ [' ']

/-- The entry of the free list behind a descriptor. -/
def flText (fl : QdmaSwSg) : List Char :=
  " fl pg 0x".toList ++ fmt.ptr fl.pg ++ ", 0x".toList ++ fmt.hex fl.dmaAddr ++ ".\n".toList

variable (base : ℕ) (buflen : ℤ) (q : RingDescq)

/-- The pointer to a descriptor. -/
def RingDescq.descPtr (i : ℤ) : ℤ := q.desc + i * q.getDescSize

/-- The pointer to a completion entry. -/
def RingDescq.cmptPtr (i : ℤ) : ℤ := q.descCmpt + i * q.cmptEntryLen

/-- A pass of the loop of `qdma_descq_dump_desc`. -/
def descLine (i : ℤ) (s : RingDump) : RingDump :=
  let size := q.getDescSize
  let p := q.descPtr i
  let dump := s.dump.hexLine base buflen (entryHead fmt i p) (fmt.hexDump p size (rowSize size))
    (secondPart fmt p size)
  if q.isStC2h then
    { dump := dump.print base buflen (flText fmt (q.sdesc i))
      reads := s.reads ++ [.desc i, .freeList i] }
  else { dump := dump.newline base, reads := s.reads ++ [.desc i] }

/-- A loop over a ring from `i` on, and where it stops. -/
def ringLoop (rngsz : ℕ) (line : ℤ → RingDump → RingDump) (end_ : ℤ) :
    ℕ → ℤ → RingDump → ℤ × RingDump
  | 0, i, s => (i, s)
  | n + 1, i, s =>
    if i < end_ ∧ u32 i < rngsz then ringLoop rngsz line end_ n (i + 1) (line i s) else (i, s)

/-- `qdma_descq_dump_desc`: the length that is returned, and the dump. -/
def qdmaDescqDumpDesc (start end_ : ℤ) (b : TextBuffer) : ℤ × RingDump :=
  let s : RingDump := { dump := { buf := b, len := b.strlen base }, reads := [] }
  if q.desc = 0 then (0, s)
  else
    let (i, s) := ringLoop q.rngsz (descLine fmt base buflen q) end_ (end_ - start).toNat start s
    let p := q.descCmplStatus
    let dump := (s.dump.hexLine base buflen (statusHead fmt p) (fmt.hexDump p cmplStatusSize 16)
      none).newline base
    if q.isStC2h then
      let p := (q.sdesc i).pageAddress
      let size := q.cmptEntryLen
      let dump := (dump.hexLine base buflen (dataHead fmt p) (fmt.hexDump p size (rowSize size))
        (secondPart fmt p size)).newline base
      (dump.len, { dump, reads := s.reads ++ [.freeList i] })
    else (dump.len, { dump, reads := s.reads })

/-- A pass of the loop of `qdma_descq_dump_cmpt`. -/
def cmptLine (i : ℤ) (s : RingDump) : RingDump :=
  let p := q.cmptPtr i
  { dump := (s.dump.hexLine base buflen (entryHead fmt i p) (fmt.hexDump p q.cmptEntryLen 32)
      (secondPart fmt p q.cmptEntryLen)).newline base
    reads := s.reads ++ [.cmpt i] }

/-- `qdma_descq_dump_cmpt`. -/
def qdmaDescqDumpCmpt (start end_ : ℤ) (b : TextBuffer) : ℤ × RingDump :=
  let s : RingDump := { dump := { buf := b, len := b.strlen base }, reads := [] }
  if q.descCmpt = 0 then (0, s)
  else
    let n := (end_ - start).toNat
    let (_, s) := ringLoop q.rngszCmpt (cmptLine fmt base buflen q) end_ n start s
    let p := q.descCmptCmplStatus
    let dump := (s.dump.hexLine base buflen (statusHead fmt p) (fmt.hexDump p cmplStatusSize 16)
      none).newline base
    (dump.len, { dump, reads := s.reads })

/-- What a dump of a ring leaves. -/
structure RingResult where
  ret : ℤ
  buf : TextBuffer
  reads : List RingRead

/-- `qdma_queue_dump_desc` and `qdma_queue_dump_cmpt` of a queue of the device, whose ring is dumped
if it is online. -/
def queueDump (ring : ℕ → ℤ → TextBuffer → ℤ × RingDump) (limit : ℕ) (q : Descq)
    (start end_ : ℕ) (b : TextBuffer) : RingResult :=
  if limit = 0 then { ret := -EINVAL, buf := b, reads := [] }
  else if start > end_ then
    let text := "start/end param passed is invalid, <start> shall be less than <end>"
    { ret := -EINVAL, buf := b.snprintf 0 limit text.toList, reads := [] }
  else
    let c := qdmaDescqDumpState limit q { buf := b, cur := 0 }
    if q.qState ≠ .online then { ret := c.cur, buf := c.buf, reads := [] }
    else
      let (len, s) := ring c.cur (limit - c.cur) c.buf
      { ret := c.cur + len, buf := s.dump.buf, reads := s.reads }

/-- `qdma_queue_dump_desc`, where the indices become signed numbers. -/
def qdmaQueueDumpDesc (limit : ℕ) (q : RingDescq) (start end_ : ℕ) (b : TextBuffer) : RingResult :=
  queueDump (fun base buflen => qdmaDescqDumpDesc fmt base buflen q (s32 start) (s32 end_)) limit
    q.toDescq start end_ b

/-- `qdma_queue_dump_cmpt`. -/
def qdmaQueueDumpCmpt (limit : ℕ) (q : RingDescq) (start end_ : ℕ) (b : TextBuffer) : RingResult :=
  queueDump (fun base buflen => qdmaDescqDumpCmpt fmt base buflen q (s32 start) (s32 end_)) limit
    q.toDescq start end_ b

/-! ## What the dumps should read -/

/-- The line of a descriptor. -/
def descText (q : RingDescq) (i : ℤ) : List Char :=
  let size := q.getDescSize
  let p := q.descPtr i
  Dumper.hexText (entryHead fmt i p) (fmt.hexDump p size (rowSize size)) (secondPart fmt p size) ++
    if q.isStC2h then flText fmt (q.sdesc i) else ['\n']

/-- The line of a completion entry. -/
def cmptText (q : RingDescq) (i : ℤ) : List Char :=
  let p := q.cmptPtr i
  Dumper.hexText (entryHead fmt i p) (fmt.hexDump p q.cmptEntryLen 32)
    (secondPart fmt p q.cmptEntryLen) ++ ['\n']

/-- The line of a completion status. -/
def statusText (p : ℤ) : List Char :=
  Dumper.hexText (statusHead fmt p) (fmt.hexDump p cmplStatusSize 16) none ++ ['\n']

end

/-- The lines of a loop over a ring. -/
def ringText (rngsz : ℕ) (text : ℤ → List Char) (end_ : ℤ) : ℕ → ℤ → List Char
  | 0, _ => []
  | n + 1, i =>
    if i < end_ ∧ u32 i < rngsz then text i ++ ringText rngsz text end_ n (i + 1) else []

/-- Where a loop over a ring stops. -/
def ringStop (rngsz : ℕ) (end_ : ℤ) : ℕ → ℤ → ℤ
  | 0, i => i
  | n + 1, i => if i < end_ ∧ u32 i < rngsz then ringStop rngsz end_ n (i + 1) else i

/-! ## The loops -/

section Loop

variable {rngsz : ℕ} {end_ i : ℤ} {n : ℕ}

/-- The rule of a loop over a ring: what each line within the ring keeps is kept. -/
theorem ringLoop_rule {line : ℤ → RingDump → RingDump} {text : ℤ → List Char}
    {P : List Char → RingDump → Prop} {t : List Char} {s : RingDump}
    (hline : ∀ j t s, i ≤ j → j < end_ → u32 j < rngsz → P t s → P (t ++ text j) (line j s))
    (h : P t s) :
    (ringLoop rngsz line end_ n i s).1 = ringStop rngsz end_ n i ∧
      P (t ++ ringText rngsz text end_ n i) (ringLoop rngsz line end_ n i s).2 := by
  induction n generalizing i t s with
  | zero =>
    rw [ringText, List.append_nil]
    exact ⟨rfl, h⟩
  | succ n ih =>
    unfold ringLoop ringStop ringText
    split_ifs with hin
    · rw [← List.append_assoc]
      apply ih
      · exact fun j t s hj => hline j t s (by omega)
      · exact hline i t s le_rfl hin.1 hin.2 h
    · rw [List.append_nil]
      exact ⟨rfl, h⟩

theorem ringStop_of_not (h : ¬ (i < end_ ∧ u32 i < rngsz)) : ringStop rngsz end_ n i = i := by
  cases n with
  | zero => rfl
  | succ n => exact if_neg h

/-- A loop that begins within the ring stops at its end or at the end of the ring. -/
theorem ringStop_eq (h0 : 0 ≤ i) (hi : i < rngsz) (hrngsz : rngsz < 2 ^ 16) (hn : end_ ≤ i + n) :
    ringStop rngsz end_ n i = max i (min end_ rngsz) := by
  induction n generalizing i with
  | zero =>
    rw [ringStop]
    omega
  | succ n ih =>
    have hindex : (u32 i : ℤ) = i := u32_of_lt h0 (by omega)
    rcases Int.lt_or_le i end_ with hlt | hge
    · rw [ringStop, if_pos ⟨hlt, by omega⟩]
      rcases Int.lt_or_le (i + 1) rngsz with hnext | hlast
      · rw [ih (by omega) hnext (by omega)]
        omega
      · have hindex : (u32 (i + 1) : ℤ) = i + 1 := u32_of_lt (by omega) (by omega)
        rw [ringStop_of_not fun hin => by omega]
        omega
    · rw [ringStop_of_not fun hin => by omega]
      omega

/-- Where a loop over a ring stops there is an entry of the ring exactly if the loop begins within
the ring and its end is not beyond it. -/
theorem ringStop_mem_iff {start : ℤ} (hstart : -2 ^ 31 ≤ start) (hstart' : start < 2 ^ 31)
    (hrngsz : rngsz < 2 ^ 16) :
    (0 ≤ ringStop rngsz end_ (end_ - start).toNat start ∧
        ringStop rngsz end_ (end_ - start).toNat start < rngsz) ↔
      0 ≤ start ∧ start < rngsz ∧ end_ < rngsz := by
  by_cases hin : 0 ≤ start ∧ start < rngsz
  · rw [ringStop_eq hin.1 hin.2 hrngsz (by omega)]
    omega
  · have hout : ¬ u32 start < rngsz := by
      unfold u32
      omega
    rw [ringStop_of_not fun h => hout h.2]
    omega

end Loop

/-! ## Lines within the ring and the buffer -/

/-- An entry that is read is one of its ring. -/
def InRing (q : RingDescq) : RingRead → Prop
  | .desc i => 0 ≤ i ∧ i < q.rngsz
  | .freeList i => 0 ≤ i ∧ i < q.rngsz
  | .cmpt i => 0 ≤ i ∧ i < q.rngszCmpt

/-- The text so far and the entries read. -/
structure Dumped (q : RingDescq) (base limit : ℕ) (t : List Char) (s : RingDump) : Prop where
  text : Dumper.Continues base limit t s.dump
  reads : ∀ r ∈ s.reads, InRing q r

section Lines

variable {fmt : Formats} {base limit : ℕ} {q : RingDescq} {i p : ℤ} {t : List Char} {s : RingDump}

theorem secondPart_plain (fmt : Formats) (p : ℤ) (size : ℕ) :
    ∀ u ∈ secondPart fmt p size, Dumper.Plain u := by
  intro u hu
  unfold secondPart at hu
  split_ifs at hu
  · cases hu
    exact fmt.hexDump_plain _ _ _
  · cases hu

theorem entryHead_plain : Dumper.Plain (entryHead fmt i p) :=
  (((fmt.dec_plain i).append (by unfold Dumper.Plain; decide +kernel)).append
    (fmt.ptr_plain p)).append (by unfold Dumper.Plain; decide)

theorem statusHead_plain (fmt : Formats) (p : ℤ) : Dumper.Plain (statusHead fmt p) :=
  (Dumper.Plain.append (by unfold Dumper.Plain; decide +kernel) (fmt.ptr_plain p)).append
    (by unfold Dumper.Plain; decide)

theorem dataHead_plain : Dumper.Plain (dataHead fmt p) :=
  (Dumper.Plain.append (by unfold Dumper.Plain; decide +kernel) (fmt.ptr_plain p)).append
    (by unfold Dumper.Plain; decide)

theorem flText_plain (fl : QdmaSwSg) : Dumper.Plain (flText fmt fl) :=
  ((((Dumper.Plain.append (by unfold Dumper.Plain; decide +kernel) (fmt.ptr_plain fl.pg))).append
    (by unfold Dumper.Plain; decide +kernel)).append (fmt.hex_plain _)).append
      (by unfold Dumper.Plain; decide +kernel)

/-- A line that ends with a line break. -/
theorem Continues.line {d : Dumper} (h : Dumper.Continues base limit t d) {head first : List Char}
    {second : Option (List Char)} (hhead : Dumper.Plain head) (hne : head ≠ [])
    (hfirst : Dumper.Plain first) (hsecond : ∀ u ∈ second, Dumper.Plain u) :
    Dumper.Continues base limit (t ++ (Dumper.hexText head first second ++ ['\n']))
      ((d.hexLine base ((limit : ℤ) - base) head first second).newline base) :=
  h.hexLine hhead hne hfirst hsecond (List.cons_ne_nil _ _) Dumper.top_le_newline
    fun _ _ hgood => hgood.newline.2

/-- More entries of the ring are read. -/
theorem reads_append {reads : List RingRead} (h : ∀ r ∈ reads, InRing q r) {rs : List RingRead}
    (hrs : ∀ r ∈ rs, InRing q r) : ∀ r ∈ reads ++ rs, InRing q r :=
  fun r hr => (List.mem_append.mp hr).elim (h r) (hrs r)

theorem Dumped.descLine (h : Dumped q base limit t s) (hi : 0 ≤ i ∧ i < q.rngsz) :
    Dumped q base limit (t ++ descText fmt q i) (descLine fmt base ((limit : ℤ) - base) q i s) := by
  have hne : entryHead fmt i (q.descPtr i) ≠ [] :=
    List.append_ne_nil_of_right_ne_nil _ (List.cons_ne_nil _ _)
  unfold Dump.descLine descText
  dsimp only
  split_ifs
  · have hfl : flText fmt (q.sdesc i) ≠ [] :=
      List.append_ne_nil_of_right_ne_nil _ (by decide +kernel)
    refine ⟨?_, reads_append h.reads ?_⟩
    · exact h.text.hexLine entryHead_plain hne (fmt.hexDump_plain _ _ _)
        (secondPart_plain _ _ _) hfl
        (fun d => Dumper.top_le_snprintf d.buf _ _ _)
        fun _ _ hgood => hgood.print_continues (flText_plain _)
    · rintro r hr
      rcases List.mem_cons.mp hr with rfl | hr
      · exact hi
      · rw [List.mem_singleton.mp hr]
        exact hi
  · refine ⟨Continues.line h.text entryHead_plain hne (fmt.hexDump_plain _ _ _)
      (secondPart_plain _ _ _), reads_append h.reads ?_⟩
    rintro r hr
    rw [List.mem_singleton.mp hr]
    exact hi

theorem Dumped.cmptLine (h : Dumped q base limit t s) (hi : 0 ≤ i ∧ i < q.rngszCmpt) :
    Dumped q base limit (t ++ cmptText fmt q i) (cmptLine fmt base ((limit : ℤ) - base) q i s) := by
  have hne : entryHead fmt i (q.cmptPtr i) ≠ [] :=
    List.append_ne_nil_of_right_ne_nil _ (List.cons_ne_nil _ _)
  refine ⟨Continues.line h.text entryHead_plain hne (fmt.hexDump_plain _ _ _)
    (secondPart_plain _ _ _), reads_append h.reads ?_⟩
  rintro r hr
  rw [List.mem_singleton.mp hr]
  exact hi

/-- A loop over the descriptors. -/
theorem Dumped.descLoop {start end_ : ℤ} (h : Dumped q base limit t s) (fmt : Formats)
    (hstart : -2 ^ 31 ≤ start) (hend : end_ < 2 ^ 31) (n : ℕ) :
    let r := ringLoop q.rngsz (Dump.descLine fmt base ((limit : ℤ) - base) q) end_ n start s
    r.1 = ringStop q.rngsz end_ n start ∧
      Dumped q base limit (t ++ ringText q.rngsz (descText fmt q) end_ n start) r.2 := by
  have hrngsz := q.rngsz_lt
  apply ringLoop_rule (P := Dumped q base limit)
  · intro j t s hj hlt hindex ht
    unfold u32 at hindex
    exact ht.descLine (by omega)
  · exact h

theorem Dumped.cmptLoop {start end_ : ℤ} (h : Dumped q base limit t s) (fmt : Formats)
    (hstart : -2 ^ 31 ≤ start) (hend : end_ < 2 ^ 31) (n : ℕ) :
    Dumped q base limit (t ++ ringText q.rngszCmpt (cmptText fmt q) end_ n start)
      (ringLoop q.rngszCmpt (Dump.cmptLine fmt base ((limit : ℤ) - base) q) end_ n start s).2 := by
  have hrngsz := q.rngszCmpt_lt
  apply (ringLoop_rule (P := Dumped q base limit) ?_ h).2
  intro j t s hj hlt hindex ht
  unfold u32 at hindex
  exact ht.cmptLine (by omega)

end Lines

/-! ## Dumps within the ring and the buffer -/

/-- A dump that reads entries of the rings only, and writes within the buffer. -/
def Inside (q : RingDescq) (limit : ℕ) (r : RingResult) : Prop :=
  r.buf.top ≤ limit ∧ ∀ read ∈ r.reads, InRing q read

section Dumps

variable (fmt : Formats) (q : RingDescq) (start end_ : ℤ)

/-- The state of a queue. -/
def Descq.statusLine (q : Descq) : List Char := q.titleText ++ q.stateText

/-- What a dump of descriptors writes, up to the last dump of bytes. -/
def descDumpText : List Char :=
  let n := (end_ - start).toNat
  let text := ringText q.rngsz (descText fmt q) end_ n start
  if q.isStC2h then
    text ++ statusText fmt q.descCmplStatus ++
      dataHead fmt (q.sdesc (ringStop q.rngsz end_ n start)).pageAddress
  else text ++ statusHead fmt q.descCmplStatus

/-- What a dump of completion entries writes, up to the last dump of bytes. -/
def cmptDumpText : List Char :=
  ringText q.rngszCmpt (cmptText fmt q) end_ (end_ - start).toNat start ++
    statusHead fmt q.descCmptCmplStatus

/-- The free list is not read beyond its ring. -/
def FreeListInRing : Prop :=
  q.isStC2h = true → 0 ≤ start ∧ start < q.rngsz ∧ end_ < q.rngsz

variable {fmt q start end_} {base limit : ℕ} {b : TextBuffer}

theorem statusHead_ne_nil (p : ℤ) : statusHead fmt p ≠ [] :=
  List.append_ne_nil_of_right_ne_nil _ (List.cons_ne_nil _ _)

theorem no_secondPart : ∀ u ∈ (none : Option (List Char)), Dumper.Plain u := by
  rintro u ⟨⟩

/-- The dump of descriptors behind a text of `base` characters. -/
theorem qdmaDescqDumpDesc_inside_iff (hstart : -2 ^ 31 ≤ start) (hstart' : start < 2 ^ 31)
    (hend : end_ < 2 ^ 31) (hdesc : q.desc ≠ 0)
    (h : Dumper.Continues base limit [] { buf := b, len := b.strlen base }) :
    let s := (qdmaDescqDumpDesc fmt base ((limit : ℤ) - base) q start end_ b).2
    (s.dump.buf.top ≤ limit ∧ ∀ r ∈ s.reads, InRing q r) ↔
      base + (descDumpText fmt q start end_).length ≤ limit ∧ FreeListInRing q start end_ := by
  have hbegin : Dumped q base limit []
      { dump := { buf := b, len := b.strlen base }, reads := [] } :=
    ⟨h, fun r hr => absurd hr List.not_mem_nil⟩
  obtain ⟨hstop, hloop⟩ := hbegin.descLoop fmt hstart hend (end_ - start).toNat
  rw [List.nil_append] at hloop
  have hstatus := Continues.line hloop.text (statusHead_plain fmt q.descCmplStatus)
    (statusHead_ne_nil _) (fmt.hexDump_plain q.descCmplStatus cmplStatusSize 16) no_secondPart
  unfold qdmaDescqDumpDesc descDumpText FreeListInRing
  dsimp only
  rw [if_neg hdesc]
  by_cases hc2h : q.isStC2h = true
  · rw [if_pos hc2h, if_pos hc2h, hstop]
    generalize hp : (q.sdesc (ringStop q.rngsz end_ (end_ - start).toNat start)).pageAddress = p
    have hne : dataHead fmt p ≠ [] :=
      List.append_ne_nil_of_right_ne_nil _ (List.cons_ne_nil _ _)
    have hlast := hstatus.lastLine dataHead_plain hne
      (fmt.hexDump_plain p q.cmptEntryLen (rowSize q.cmptEntryLen))
      (secondPart_plain fmt p q.cmptEntryLen)
    rw [List.length_append, ← Nat.add_assoc]
    refine and_congr hlast (Iff.trans ?_
      ((ringStop_mem_iff hstart hstart' q.rngsz_lt).trans ⟨fun h _ => h, fun h => h hc2h⟩))
    constructor
    · exact fun hreads => hreads _ (List.mem_append_right _ List.mem_cons_self)
    · intro hread
      apply reads_append hloop.reads
      intro r hr
      rw [List.mem_singleton.mp hr]
      exact hread
  · rw [if_neg hc2h, if_neg hc2h]
    have hlast := hloop.text.lastLine (statusHead_plain fmt q.descCmplStatus)
      (statusHead_ne_nil _) (fmt.hexDump_plain q.descCmplStatus cmplStatusSize 16) no_secondPart
    rw [List.length_append, ← Nat.add_assoc]
    exact and_congr hlast (iff_of_true hloop.reads fun hst => absurd hst hc2h)

/-- The dump of completion entries behind a text of `base` characters. -/
theorem qdmaDescqDumpCmpt_inside_iff (hstart : -2 ^ 31 ≤ start) (hend : end_ < 2 ^ 31)
    (hcmpt : q.descCmpt ≠ 0)
    (h : Dumper.Continues base limit [] { buf := b, len := b.strlen base }) :
    let s := (qdmaDescqDumpCmpt fmt base ((limit : ℤ) - base) q start end_ b).2
    (s.dump.buf.top ≤ limit ∧ ∀ r ∈ s.reads, InRing q r) ↔
      base + (cmptDumpText fmt q start end_).length ≤ limit := by
  have hbegin : Dumped q base limit []
      { dump := { buf := b, len := b.strlen base }, reads := [] } :=
    ⟨h, fun r hr => absurd hr List.not_mem_nil⟩
  have hloop := hbegin.cmptLoop fmt hstart hend (end_ - start).toNat
  rw [List.nil_append] at hloop
  have hlast := hloop.text.lastLine (statusHead_plain fmt q.descCmptCmplStatus)
    (statusHead_ne_nil _) (fmt.hexDump_plain q.descCmptCmplStatus cmplStatusSize 16) no_secondPart
  unfold qdmaDescqDumpCmpt cmptDumpText
  dsimp only
  rw [if_neg hcmpt, List.length_append, ← Nat.add_assoc]
  exact (and_iff_left hloop.reads).trans hlast

end Dumps

/-! ## The dumps of a queue -/

section QueueDump

variable {q : RingDescq} {limit start end_ : ℕ} {bytes : ℕ → Char} {extra : ℕ}

/-- After the state of the queue the dump of a ring begins with an empty text, or the buffer is full
already. -/
theorem queueDump_begin (hlimit : 0 < limit) (q : Descq) (bytes : ℕ → Char) (extra : ℕ) :
    let c := qdmaDescqDumpState limit q { buf := .fresh bytes (limit + extra), cur := 0 }
    c.Prints limit q.statusLine ∧
      Dumper.Continues c.cur limit [] { buf := c.buf, len := c.buf.strlen c.cur } := by
  intro c
  have hstate : c.Prints limit q.statusLine :=
    qdmaDescqDumpState_spec q (t := []) (Nat.zero_le _) rfl hlimit TextBuffer.Holds.nil
  refine ⟨hstate, ?_⟩
  unfold Dumper.Continues
  split_ifs with hroom
  · obtain ⟨hcur, hholds⟩ := hstate.fits (hstate.length_lt hroom)
    have hfence : c.buf.fence = limit + extra := fence_qdmaDescqDumpState q _
    have hend : c.buf.Holds c.cur ([] ++ [nul]) := by
      rw [hcur, ← Nat.zero_add q.statusLine.length]
      exact hholds.right
    have hplain : Dumper.Plain [] := List.not_mem_nil
    have hlen := Dumper.strlen_eq hend hplain (by rw [hfence]; exact hroom.trans_le (by omega))
    exact ⟨hlen, hroom, hplain, TextBuffer.Holds.nil, hstate.top, by dsimp only; omega⟩
  · exact Or.inl (Nat.le_add_right_of_le (Nat.not_lt.mp hroom))

/-- Where the dump of a ring is within its bounds under a condition on the length of its text, the
dump of an online queue is if its state fits too. -/
theorem queueDump_inside_iff {ring : ℕ → ℤ → TextBuffer → ℤ × RingDump} {text : List Char}
    {P : Prop} (honline : q.qState = .online) (horder : start ≤ end_) (htext : text ≠ [])
    (hring : ∀ base b, Dumper.Continues base limit [] { buf := b, len := b.strlen base } →
      (((ring base ((limit : ℤ) - base) b).2.dump.buf.top ≤ limit ∧
        ∀ r ∈ (ring base ((limit : ℤ) - base) b).2.reads, InRing q r) ↔
          base + text.length ≤ limit ∧ P)) (hlimit : 0 < limit) :
    Inside q limit (queueDump ring limit q.toDescq start end_ (.fresh bytes (limit + extra))) ↔
      q.statusLine.length + text.length ≤ limit ∧ P := by
  obtain ⟨hstate, hbegin⟩ := queueDump_begin hlimit q.toDescq bytes extra
  have hpos := List.length_pos_iff.mpr htext
  have hiff := hring _ _ hbegin
  unfold queueDump Inside
  rw [if_neg (Nat.ne_of_gt hlimit), if_neg (Nat.not_lt.mpr horder)]
  dsimp only
  rw [if_neg (not_not_intro honline)]
  refine hiff.trans (and_congr_left' ?_)
  rcases Nat.lt_or_ge q.statusLine.length limit with hfit | hfull
  · rw [(hstate.fits hfit).1]
  · have hcur := hstate.cut hfull
    exact iff_of_false (by omega) (by omega)

/-- A queue without the ring has nothing to dump but its state. -/
theorem queueDump_inside_of_none {ring : ℕ → ℤ → TextBuffer → ℤ × RingDump}
    (hring : ∀ base buflen b, (ring base buflen b).2.dump.buf = b ∧
      (ring base buflen b).2.reads = []) (hlimit : 0 < limit) :
    Inside q limit (queueDump ring limit q.toDescq start end_ (.fresh bytes (limit + extra))) := by
  have hstate := (queueDump_begin hlimit q.toDescq bytes extra).1
  have hnone : ∀ r ∈ ([] : List RingRead), InRing q r := fun _ hr => absurd hr List.not_mem_nil
  unfold queueDump
  split_ifs
  · exact ⟨Nat.zero_le _, hnone⟩
  · exact ⟨TextBuffer.snprintf_top_le (Nat.zero_le _) (by omega), hnone⟩
  · exact ⟨hstate.top, hnone⟩
  · obtain ⟨hbuf, hreads⟩ := hring
      (qdmaDescqDumpState limit q.toDescq { buf := .fresh bytes (limit + extra), cur := 0 }).cur _ _
    refine ⟨?_, ?_⟩
    · dsimp only
      rw [hbuf]
      exact hstate.top
    · dsimp only
      rw [hreads]
      exact hnone

variable {fmt : Formats}

theorem s32_range (x : ℤ) : -2 ^ 31 ≤ s32 x ∧ s32 x < 2 ^ 31 := by
  unfold s32
  rw [Int.bmod_def]
  split_ifs <;> omega

/-- The dump of the descriptors of an online queue. -/
theorem queueDumpDesc_inside_iff (honline : q.qState = .online) (horder : start ≤ end_)
    (hlimit : 0 < limit) :
    Inside q limit (qdmaQueueDumpDesc fmt limit q start end_ (.fresh bytes (limit + extra))) ↔
      q.desc = 0 ∨
        q.statusLine.length + (descDumpText fmt q (s32 start) (s32 end_)).length ≤ limit ∧
          FreeListInRing q (s32 start) (s32 end_) := by
  by_cases hdesc : q.desc = 0
  · refine iff_of_true (queueDump_inside_of_none (fun base buflen b => ?_) hlimit) (Or.inl hdesc)
    unfold qdmaDescqDumpDesc
    rw [if_pos hdesc]
    exact ⟨rfl, rfl⟩
  · rw [or_iff_right hdesc]
    apply queueDump_inside_iff honline horder ?_ ?_ hlimit
    · unfold descDumpText
      dsimp only
      split_ifs
      · exact List.append_ne_nil_of_right_ne_nil _
          (List.append_ne_nil_of_right_ne_nil _ (List.cons_ne_nil _ _))
      · exact List.append_ne_nil_of_right_ne_nil _ (statusHead_ne_nil _)
    · intro base b hbegin
      exact qdmaDescqDumpDesc_inside_iff (s32_range _).1 (s32_range _).2 (s32_range _).2 hdesc
        hbegin

/-- The dump of the completion entries of an online queue. -/
theorem queueDumpCmpt_inside_iff (honline : q.qState = .online) (horder : start ≤ end_)
    (hlimit : 0 < limit) :
    Inside q limit (qdmaQueueDumpCmpt fmt limit q start end_ (.fresh bytes (limit + extra))) ↔
      q.descCmpt = 0 ∨
        q.statusLine.length + (cmptDumpText fmt q (s32 start) (s32 end_)).length ≤ limit := by
  by_cases hcmpt : q.descCmpt = 0
  · refine iff_of_true (queueDump_inside_of_none (fun base buflen b => ?_) hlimit) (Or.inl hcmpt)
    unfold qdmaDescqDumpCmpt
    rw [if_pos hcmpt]
    exact ⟨rfl, rfl⟩
  · rw [or_iff_right hcmpt, ← and_true (_ ≤ limit)]
    apply queueDump_inside_iff honline horder ?_ ?_ hlimit
    · exact List.append_ne_nil_of_right_ne_nil _ (statusHead_ne_nil _)
    · intro base b hbegin
      rw [and_true]
      exact qdmaDescqDumpCmpt_inside_iff (s32_range _).1 (s32_range _).2 hcmpt hbegin

end QueueDump

end OnicDriver.Dump
