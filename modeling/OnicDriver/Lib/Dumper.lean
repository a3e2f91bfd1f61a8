import OnicDriver.Lib.Format
import Mathlib.Data.Int.Basic
import Mathlib.Order.Nat

/-!
# Dumps in a buffer

Lines of text and of bytes in hexadecimal digits are written behind each other, and the length so
far is taken from what the writer returns or from where the text ends. The room that is left is a
signed number, and one that is negative does not bound what is written.
-/

namespace OnicDriver.Lib

/-- The size that is given for the room that is left: a negative number becomes one that is larger
than any text. -/
def roomSize (room : ℤ) (t : List Char) : ℕ := if room < 0 then t.length + 1 else room.toNat

/-- A buffer and the length of the text that has been written to it. -/
structure Dumper where
  buf : TextBuffer
  len : ℕ

namespace Dumper

section

variable (base : ℕ) (buflen : ℤ)

/-- `len += snprintf(buf + len, buflen - len, ..)`. -/
def print (t : List Char) (s : Dumper) : Dumper :=
  { buf := s.buf.snprintf (base + s.len) (roomSize (buflen - s.len) t) t
    len := s.len + t.length }

/-- `hex_dump_to_buffer(.., buf + len, buflen - len, ..); len = strlen(buf)`. -/
def hexDump (t : List Char) (s : Dumper) : Dumper :=
  let b := s.buf.snprintf (base + s.len) (roomSize (buflen - s.len) t) t
  { buf := b, len := b.strlen base }

/-- `buf[len++] = '\n'`. -/
def newline (s : Dumper) : Dumper :=
  { buf := s.buf.store (base + s.len) ['\n'], len := s.len + 1 }

/-- A text and one or two dumps of bytes. -/
def hexLine (head first : List Char) (second : Option (List Char)) (s : Dumper) : Dumper :=
  let s := (s.print base buflen head).hexDump base buflen first
  match second with
  | some t => (s.print base buflen [' ']).hexDump base buflen t
  | none => s

end

/-- What a line of dumps reads. -/
def hexText (head first : List Char) : Option (List Char) → List Char
  | some t => head ++ first ++ [' '] ++ t
  | none => head ++ first

/-- A text without the character that ends texts. -/
def Plain (t : List Char) : Prop := nul ∉ t

theorem Plain.append {t u : List Char} (ht : Plain t) (hu : Plain u) : Plain (t ++ u) :=
  fun hmem => (List.mem_append.mp hmem).elim ht hu

theorem Plain.take {t : List Char} (ht : Plain t) (n : ℕ) : Plain (t.take n) :=
  fun hmem => ht (List.mem_of_mem_take hmem)

/-- The length of a text that ends within the memory. -/
theorem strlen_eq {b : TextBuffer} {pos : ℕ} {t : List Char} (h : b.Holds pos (t ++ [nul]))
    (ht : Plain t) (hfence : pos + t.length < b.fence) : b.strlen pos = t.length := by
  have hscan : ∀ (t : List Char) (pos n : ℕ), b.Holds pos (t ++ [nul]) → Plain t → t.length < n →
      TextBuffer.scan b.bytes pos n = t.length := by
    intro t
    induction t with
    | nil =>
      intro pos n h _ hn
      obtain ⟨n, rfl⟩ := Nat.exists_eq_succ_of_ne_zero (Nat.ne_of_gt hn)
      have hend : b.bytes pos = nul := h 0 Nat.zero_lt_one
      exact if_pos hend
    | cons c t ih =>
      intro pos n h hplain hn
      obtain ⟨n, rfl⟩ := Nat.exists_eq_succ_of_ne_zero (Nat.ne_of_gt (Nat.zero_lt_of_lt hn))
      have hc : b.bytes pos = c := h 0 (Nat.zero_lt_succ _)
      have hne : b.bytes pos ≠ nul := fun hnul =>
        hplain (List.mem_cons.mpr (Or.inl (hnul.symm.trans hc)))
      have hrest := ih (pos + 1) n (TextBuffer.Holds.right (t := [c]) h)
        (fun hmem => hplain (List.mem_cons_of_mem _ hmem)) (Nat.lt_of_succ_lt_succ hn)
      unfold TextBuffer.scan
      rw [if_neg hne, hrest, List.length_cons]
  exact hscan t pos _ h ht (by omega)

section

variable {base limit : ℕ} {t u : List Char} {s : Dumper}

/-- The text so far stands in the buffer in front of the limit. -/
structure Good (base limit : ℕ) (t : List Char) (s : Dumper) : Prop where
  len : s.len = t.length
  room : base + t.length < limit
  plain : Plain t
  holds : s.buf.Holds base t
  top : s.buf.top ≤ limit
  fence : limit ≤ s.buf.fence

/-- The text so far has been written, and is cut at the limit. -/
structure Printed (base limit : ℕ) (t : List Char) (s : Dumper) : Prop where
  len : s.len = t.length
  plain : Plain t
  below : base < limit
  holds : s.buf.Holds base (t.take (limit - 1 - base) ++ [nul])
  top : s.buf.top ≤ limit
  fence : limit ≤ s.buf.fence

/-- The length has come to the limit, or something was written beyond it. -/
def Spent (base limit : ℕ) (s : Dumper) : Prop := limit ≤ base + s.len ∨ limit < s.buf.top

theorem roomSize_of_le (h : base + s.len ≤ limit) :
    roomSize ((limit : ℤ) - base - s.len) u = limit - base - s.len := by
  unfold roomSize
  rw [if_neg (by omega)]
  omega

theorem roomSize_ne_zero (h : base + s.len ≠ limit) :
    roomSize ((limit : ℤ) - base - s.len) u ≠ 0 := by
  unfold roomSize
  split_ifs <;> omega

/-- What is written behind a text in front of the limit is cut at the limit. -/
theorem Good.snprintf (h : Good base limit t s) (u : List Char) :
    let b := s.buf.snprintf (base + s.len) (roomSize ((limit : ℤ) - base - s.len) u) u
    b.Holds base ((t ++ u).take (limit - 1 - base) ++ [nul]) ∧ b.top ≤ limit := by
  have hroom := h.room
  have hlen := h.len
  rw [roomSize_of_le (by omega), hlen]
  refine ⟨?_, TextBuffer.snprintf_top_le h.top (by omega)⟩
  rw [List.take_append, List.take_of_length_le (by omega), List.append_assoc]
  apply (h.holds.snprintf _ u).append
  have hsize : limit - base - t.length ≠ 0 := by omega
  have hnew : (s.buf.snprintf (base + t.length) (limit - base - t.length) u).Holds _ _ :=
    TextBuffer.snprintf_holds hsize
  rw [show limit - base - t.length - 1 = limit - 1 - base - t.length by omega] at hnew
  exact hnew

theorem Good.print (h : Good base limit t s) (hu : Plain u) :
    Printed base limit (t ++ u) (s.print base ((limit : ℤ) - base) u) where
  len := by
    rw [List.length_append, ← h.len]
    rfl
  plain := h.plain.append hu
  below := Nat.lt_of_le_of_lt (Nat.le_add_right _ _) h.room
  holds := (h.snprintf u).1
  top := (h.snprintf u).2
  fence := (TextBuffer.snprintf_fence (b := s.buf)).symm ▸ h.fence

/-- A printed text in front of the limit is whole. -/
theorem Printed.good (h : Printed base limit t s) (hlt : base + t.length < limit) :
    Good base limit t s where
  len := h.len
  room := hlt
  plain := h.plain
  holds := by
    have hholds := h.holds
    rw [List.take_of_length_le (by omega)] at hholds
    exact hholds.left
  top := h.top
  fence := h.fence

/-- A dump behind a printed text that has come to the limit at most. -/
theorem Printed.hexDump (h : Printed base limit t s) (hle : base + t.length ≤ limit)
    (hu : Plain u) :
    Good base limit ((t ++ u).take (limit - 1 - base))
      (s.hexDump base ((limit : ℤ) - base) u) := by
  have hbelow := h.below
  have hfence := h.fence
  have hplain : Plain ((t ++ u).take (limit - 1 - base)) := (h.plain.append hu).take _
  have hcut : ((t ++ u).take (limit - 1 - base)).length ≤ limit - 1 - base :=
    List.length_take_le _ _
  have hwritten : (s.hexDump base ((limit : ℤ) - base) u).buf.Holds base
        ((t ++ u).take (limit - 1 - base) ++ [nul]) ∧
      (s.hexDump base ((limit : ℤ) - base) u).buf.top ≤ limit := by
    rcases Nat.eq_or_lt_of_le hle with heq | hlt
    · have hsize : roomSize ((limit : ℤ) - base - s.len) u = 0 := by
        rw [roomSize_of_le (by rw [h.len]; omega), h.len]
        omega
      unfold Dumper.hexDump
      dsimp only
      rw [hsize, TextBuffer.snprintf_zero, List.take_append_of_le_length (by omega)]
      exact ⟨h.holds, h.top⟩
    · exact (h.good hlt).snprintf u
  have hfence' : limit ≤ (s.hexDump base ((limit : ℤ) - base) u).buf.fence :=
    (TextBuffer.snprintf_fence (b := s.buf)).symm ▸ hfence
  exact
    { len := strlen_eq hwritten.1 hplain (Nat.lt_of_lt_of_le (by omega) hfence')
      room := by omega
      plain := hplain
      holds := hwritten.1.left
      top := hwritten.2
      fence := hfence' }

/-! ## Beyond the limit -/

theorem top_le_snprintf (b : TextBuffer) (pos size : ℕ) (u : List Char) :
    b.top ≤ (b.snprintf pos size u).top := by
  by_cases hsize : size = 0
  · rw [hsize, TextBuffer.snprintf_zero]
  · rw [TextBuffer.snprintf_top hsize]
    exact Nat.le_max_left _ _

theorem top_le_newline (s : Dumper) : s.buf.top ≤ (s.newline base).buf.top := by
  unfold newline
  rw [TextBuffer.store_top (List.cons_ne_nil _ _)]
  exact Nat.le_max_left _ _

/-- A writer that is called beyond the limit writes there. -/
theorem limit_lt_snprintf (h : limit < base + s.len) (u : List Char) :
    limit < (s.buf.snprintf (base + s.len) (roomSize ((limit : ℤ) - base - s.len) u) u).top := by
  rw [TextBuffer.snprintf_top (roomSize_ne_zero (Nat.ne_of_gt h))]
  omega

theorem top_le_hexLine (head first : List Char) (second : Option (List Char)) (s : Dumper)
    {buflen : ℤ} : s.buf.top ≤ (s.hexLine base buflen head first second).buf.top := by
  have hstep : ∀ (s : Dumper) (t u : List Char),
      s.buf.top ≤ ((s.print base buflen t).hexDump base buflen u).buf.top := fun s t u =>
    (top_le_snprintf s.buf _ _ t).trans (top_le_snprintf (s.print base buflen t).buf _ _ u)
  unfold hexLine
  cases second with
  | none => exact hstep s head first
  | some u => exact (hstep s head first).trans (hstep _ [' '] u)

theorem take_take_append (t u : List Char) (n : ℕ) :
    (t.take n ++ u).take n = (t ++ u).take n := by
  rw [List.take_append, List.take_append, List.take_take, Nat.min_self, List.length_take]
  congr 2
  omega

/-- The dumps of a line whose first text ends beyond the limit are written there. -/
theorem hexLine_of_limit_lt {head : List Char}
    (hlong : limit < base + (s.print base ((limit : ℤ) - base) head).len) (first : List Char)
    (second : Option (List Char)) :
    limit < (s.hexLine base ((limit : ℤ) - base) head first second).buf.top := by
  have hfirst := limit_lt_snprintf hlong first
  unfold hexLine
  cases second with
  | none => exact hfirst
  | some u =>
    exact (hfirst.trans_le (top_le_snprintf _ _ _ [' '])).trans_le (top_le_snprintf _ _ _ u)

/-- A line that is begun at the limit is written beyond it. -/
theorem Spent.hexLine (h : Spent base limit s) {head : List Char} (hhead : head ≠ [])
    (first : List Char) (second : Option (List Char)) :
    limit < (s.hexLine base ((limit : ℤ) - base) head first second).buf.top := by
  rcases h with hlen | htop
  · have hpos := List.length_pos_iff.mpr hhead
    have hlong : limit < base + (s.print base ((limit : ℤ) - base) head).len := by
      unfold Dumper.print
      dsimp only
      omega
    exact hexLine_of_limit_lt hlong first second
  · exact htop.trans_le (top_le_hexLine head first second s)

/-- A line is written within the limit exactly if its first text comes to the limit at most; then
the line stands in the buffer, cut at the limit. -/
theorem Good.hexLine (h : Good base limit t s) {head first : List Char}
    {second : Option (List Char)} (hhead : Plain head) (hfirst : Plain first)
    (hsecond : ∀ u ∈ second, Plain u) :
    if base + t.length + head.length ≤ limit then
      Good base limit ((t ++ hexText head first second).take (limit - 1 - base))
        (s.hexLine base ((limit : ℤ) - base) head first second)
    else limit < (s.hexLine base ((limit : ℤ) - base) head first second).buf.top := by
  have hprinted := h.print hhead
  split_ifs with hle
  · have hone := hprinted.hexDump (by rw [List.length_append]; omega) hfirst
    cases second with
    | none =>
      rw [hexText, ← List.append_assoc]
      exact hone
    | some u =>
      have hspace : Plain [' '] := by
        unfold Plain
        decide
      have htwo := (hone.print hspace).hexDump (by
        have hroom := hone.room
        rw [List.length_append, List.length_singleton]
        omega) (hsecond u rfl)
      rw [List.append_assoc, take_take_append, List.append_assoc t] at htwo
      rw [hexText, List.append_assoc (head ++ first), ← List.append_assoc t]
      exact htwo
  · have hlong : limit < base + (s.print base ((limit : ℤ) - base) head).len := by
      rw [hprinted.len, List.length_append]
      omega
    exact hexLine_of_limit_lt hlong first second

/-! ## Lines -/

/-- After a text: it stands in front of the limit, if it fits there with its end, and else the
limit is reached. -/
def Continues (base limit : ℕ) (t : List Char) (s : Dumper) : Prop :=
  if base + t.length < limit then Good base limit t s else Spent base limit s

theorem Good.newline (h : Good base limit t s) :
    (s.newline base).buf.top ≤ limit ∧ Continues base limit (t ++ ['\n']) (s.newline base) := by
  have hroom := h.room
  have hlen := h.len
  have htop : (s.newline base).buf.top ≤ limit := by
    unfold Dumper.newline
    rw [TextBuffer.store_top (List.cons_ne_nil _ _)]
    exact Nat.max_le.mpr ⟨h.top, by rw [List.length_singleton]; omega⟩
  have hlen' : (s.newline base).len = (t ++ ['\n']).length := by
    rw [List.length_append, ← hlen]
    rfl
  refine ⟨htop, ?_⟩
  unfold Continues
  split_ifs with hlt
  · refine ⟨hlen', hlt, h.plain.append (by unfold Plain; decide), ?_, htop, h.fence⟩
    apply TextBuffer.Holds.append
    · intro i hi
      rw [Dumper.newline, TextBuffer.store_bytes_of_lt (by omega)]
      exact h.holds i hi
    · intro i hi
      rw [← hlen]
      exact TextBuffer.store_bytes hi
  · exact Or.inl (by rw [hlen']; omega)

theorem Good.print_continues (h : Good base limit t s) (hu : Plain u) :
    Continues base limit (t ++ u) (s.print base ((limit : ℤ) - base) u) := by
  have hprinted := h.print hu
  unfold Continues
  split_ifs with hlt
  · exact hprinted.good hlt
  · exact Or.inl (by rw [hprinted.len]; omega)

theorem Spent.of_top_lt {s' : Dumper} (h : limit < s.buf.top) (hle : s.buf.top ≤ s'.buf.top) :
    Spent base limit s' :=
  Or.inr (h.trans_le hle)

variable {head first : List Char} {second : Option (List Char)}

/-- A cut text that goes on with another one comes to the limit. -/
theorem Continues.of_take (hu : u ≠ []) (hbelow : base < limit)
    (h : Continues base limit (t.take (limit - 1 - base) ++ u) s) :
    Continues base limit (t ++ u) s := by
  have hpos := List.length_pos_iff.mpr hu
  rcases Nat.lt_or_ge (base + t.length) limit with hlt | hge
  · rwa [List.take_of_length_le (by omega)] at h
  · unfold Continues at h ⊢
    rw [List.length_append, List.length_take] at h
    rw [List.length_append, if_neg (by omega)]
    rwa [if_neg (by omega)] at h

/-- A line of dumps with what ends it, after a text that may have come to the limit. -/
theorem Continues.hexLine (h : Continues base limit t s)
    (hhead : Plain head) (hne : head ≠ []) (hfirst : Plain first) (hsecond : ∀ u ∈ second, Plain u)
    (hu : u ≠ []) {tail : Dumper → Dumper} (htop : ∀ s, s.buf.top ≤ (tail s).buf.top)
    (htail : ∀ t s, Good base limit t s → Continues base limit (t ++ u) (tail s)) :
    Continues base limit (t ++ (hexText head first second ++ u))
      (tail (s.hexLine base ((limit : ℤ) - base) head first second)) := by
  have hheadLe : head.length ≤ (hexText head first second).length := by
    unfold hexText
    cases second <;> simp only [List.length_append] <;> omega
  have hbeyond : limit < (s.hexLine base ((limit : ℤ) - base) head first second).buf.top →
      limit ≤ base + t.length + head.length → Continues base limit
        (t ++ (hexText head first second ++ u))
          (tail (s.hexLine base ((limit : ℤ) - base) head first second)) := by
    intro hlt hlong
    unfold Continues
    rw [List.length_append, List.length_append, if_neg (by omega)]
    exact .of_top_lt hlt (htop _)
  unfold Continues at h
  split_ifs at h with hlt
  · have hline := h.hexLine hhead hfirst hsecond
    split_ifs at hline with hle
    · rw [← List.append_assoc]
      exact (htail _ _ hline).of_take hu (by omega)
    · exact hbeyond hline (by omega)
  · exact hbeyond (h.hexLine hne first second) (by omega)

/-- The last line is written within the limit exactly if its first text comes to the limit at
most. -/
theorem Good.lastLine (h : Good base limit t s) (hhead : Plain head) (hfirst : Plain first)
    (hsecond : ∀ u ∈ second, Plain u) :
    ((s.hexLine base ((limit : ℤ) - base) head first second).newline base).buf.top ≤ limit ↔
      base + t.length + head.length ≤ limit := by
  have hline := h.hexLine hhead hfirst hsecond
  split_ifs at hline with hle
  · exact iff_of_true hline.newline.1 hle
  · exact iff_of_false (Nat.not_le.mpr (hline.trans_le (top_le_newline _))) hle

/-- The last line after a text that may have come to the limit. -/
theorem Continues.lastLine (h : Continues base limit t s) (hhead : Plain head) (hne : head ≠ [])
    (hfirst : Plain first) (hsecond : ∀ u ∈ second, Plain u) :
    ((s.hexLine base ((limit : ℤ) - base) head first second).newline base).buf.top ≤ limit ↔
      base + t.length + head.length ≤ limit := by
  unfold Continues at h
  split_ifs at h with hlt
  · exact h.lastLine hhead hfirst hsecond
  · have hpos := List.length_pos_iff.mpr hne
    have hbeyond := h.hexLine hne first second
    exact iff_of_false (Nat.not_le.mpr (hbeyond.trans_le (top_le_newline _))) (by omega)

end

end Dumper

end OnicDriver.Lib
