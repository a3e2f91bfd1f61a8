import Mathlib.Data.List.Basic

/-!
# Text in a buffer

The memory from the start of a buffer on, and the functions that write text to it. A text is cut
where the size that is given ends, and the length of the whole text is what the caller is told.
-/

namespace OnicDriver.Lib

/-- The character that ends a text. -/
def nul : Char := Char.ofNat 0

/-- Memory from the start of a buffer on up to its fence, and one past the last place written. -/
structure TextBuffer where
  bytes : ℕ → Char
  fence : ℕ
  top : ℕ

namespace TextBuffer

/-- Memory where nothing has been written yet. -/
def fresh (bytes : ℕ → Char) (fence : ℕ) : TextBuffer := { bytes, fence, top := 0 }

/-- The characters from a place on that are not the end of a text, at most `n`. -/
def scan (bytes : ℕ → Char) (pos : ℕ) : ℕ → ℕ
  | 0 => 0
  | n + 1 => if bytes pos = nul then 0 else scan bytes (pos + 1) n + 1

/-- `strlen`. -/
def strlen (b : TextBuffer) (pos : ℕ) : ℕ := scan b.bytes pos (b.fence - pos)

/-- Characters are written from a place on. -/
def store (b : TextBuffer) (pos : ℕ) (t : List Char) : TextBuffer :=
  { b with
    bytes := fun i => if pos ≤ i then (t[i - pos]?).getD (b.bytes i) else b.bytes i
    top := if t = [] then b.top else max b.top (pos + t.length) }

/-- `snprintf` of a text. -/
def snprintf (b : TextBuffer) (pos size : ℕ) (t : List Char) : TextBuffer :=
  if size = 0 then b else b.store pos (t.take (size - 1) ++ [nul])

/-- The text stands in the buffer from a place on. -/
def Holds (b : TextBuffer) (pos : ℕ) (t : List Char) : Prop :=
  ∀ i (hi : i < t.length), b.bytes (pos + i) = t[i]

section

variable {b : TextBuffer} {pos size n : ℕ} {t u : List Char}

theorem store_bytes_of_lt {i : ℕ} (hi : i < pos) : (b.store pos t).bytes i = b.bytes i :=
  if_neg (Nat.not_le.mpr hi)

theorem store_bytes {i : ℕ} (hi : i < t.length) : (b.store pos t).bytes (pos + i) = t[i] := by
  unfold store
  dsimp only
  rw [if_pos (Nat.le_add_right _ _), Nat.add_sub_cancel_left, List.getElem?_eq_getElem hi]
  rfl

theorem store_top (ht : t ≠ []) : (b.store pos t).top = max b.top (pos + t.length) :=
  if_neg ht

@[simp] theorem store_fence : (b.store pos t).fence = b.fence := rfl

@[simp] theorem snprintf_fence : (b.snprintf pos size t).fence = b.fence := by
  unfold snprintf
  split_ifs <;> rfl

theorem snprintf_zero : b.snprintf pos 0 t = b := rfl

/-- The end of what `snprintf` writes. -/
theorem snprintf_top (hsize : size ≠ 0) :
    (b.snprintf pos size t).top = max b.top (pos + min (size - 1) t.length + 1) := by
  unfold snprintf
  rw [if_neg hsize, store_top (List.append_ne_nil_of_right_ne_nil _ (List.cons_ne_nil _ _)),
    List.length_append, List.length_take, List.length_singleton, Nat.add_assoc]

/-- `snprintf` writes within the size it is given. -/
theorem snprintf_top_le {limit : ℕ} (htop : b.top ≤ limit) (hsize : pos + size ≤ limit) :
    (b.snprintf pos size t).top ≤ limit := by
  by_cases hzero : size = 0
  · rw [hzero, snprintf_zero]
    exact htop
  · rw [snprintf_top hzero]
    omega

theorem snprintf_bytes_of_lt {i : ℕ} (hi : i < pos) :
    (b.snprintf pos size t).bytes i = b.bytes i := by
  unfold snprintf
  split_ifs
  · rfl
  · exact store_bytes_of_lt hi

/-- What `snprintf` writes, a text that is cut to the size, and its end. -/
theorem snprintf_holds (hsize : size ≠ 0) :
    (b.snprintf pos size t).Holds pos (t.take (size - 1) ++ [nul]) := by
  intro i hi
  unfold snprintf
  rw [if_neg hsize]
  exact store_bytes hi

theorem Holds.nil : b.Holds pos [] := fun _ hi => absurd hi (Nat.not_lt_zero _)

/-- Texts that follow each other. -/
theorem Holds.append (ht : b.Holds pos t) (hu : b.Holds (pos + t.length) u) :
    b.Holds pos (t ++ u) := by
  intro i hi
  rcases Nat.lt_or_ge i t.length with hlt | hge
  · rw [List.getElem_append_left hlt]
    exact ht i hlt
  · rw [List.getElem_append_right hge]
    rw [List.length_append] at hi
    have hplace := hu (i - t.length) (by omega)
    rwa [Nat.add_assoc, Nat.add_sub_cancel' hge] at hplace

theorem Holds.left (h : b.Holds pos (t ++ u)) : b.Holds pos t := by
  intro i hi
  have hplace := h i (by rw [List.length_append]; omega)
  rwa [List.getElem_append_left hi] at hplace

theorem Holds.right (h : b.Holds pos (t ++ u)) : b.Holds (pos + t.length) u := by
  intro i hi
  have hplace := h (t.length + i) (by rw [List.length_append]; omega)
  rw [List.getElem_append_right (Nat.le_add_right _ _)] at hplace
  simpa only [Nat.add_sub_cancel_left, Nat.add_assoc] using hplace

/-- What stands before the place of a write stays. -/
theorem Holds.snprintf (h : b.Holds pos t) (size : ℕ) (u : List Char) :
    (b.snprintf (pos + t.length) size u).Holds pos t := by
  intro i hi
  rw [snprintf_bytes_of_lt (by omega)]
  exact h i hi

end

end TextBuffer

/-! ## Texts that follow each other -/

/-- A buffer with a cursor behind the texts written so far, whole or cut. -/
structure Cursor where
  buf : TextBuffer
  cur : ℕ

namespace Cursor

/-- `cur += snprintf(cur, end - cur, ..)`. -/
def print (limit : ℕ) (t : List Char) (s : Cursor) : Cursor :=
  { buf := s.buf.snprintf s.cur (limit - s.cur) t, cur := s.cur + t.length }

/-- Where the cursor has come to the end, the text from its start on is dropped. -/
def checked (start limit : ℕ) (s : Cursor) : Except Cursor Cursor :=
  if limit ≤ s.cur then .error { s with buf := s.buf.store start [nul] } else .ok s

/-- The cursor after a text, cut or not. -/
def merge : Except Cursor Cursor → Cursor
  | .ok s => s
  | .error s => s

/-- The text stands in the buffer, if it fits, and the cursor tells whether it does. -/
structure Prints (limit : ℕ) (t : List Char) (s : Cursor) : Prop where
  top : s.buf.top ≤ limit
  fits : t.length < limit → s.cur = t.length ∧ s.buf.Holds 0 (t ++ [nul])
  cut : limit ≤ t.length → limit ≤ s.cur

variable {limit start : ℕ} {t u : List Char} {s : Cursor}

/-- A text in front of the limit, which may lack its end. -/
theorem prints_print (htop : s.buf.top ≤ limit) (hcur : s.cur = t.length) (hlt : s.cur < limit)
    (ht : s.buf.Holds 0 t) (u : List Char) : Prints limit (t ++ u) (s.print limit u) where
  top := TextBuffer.snprintf_top_le htop (by omega)
  fits hfit := by
    rw [List.length_append] at hfit ⊢
    refine ⟨congrArg (· + u.length) hcur, ?_⟩
    have hsize : limit - s.cur ≠ 0 := by omega
    have hnew : (s.buf.snprintf s.cur (limit - s.cur) u).Holds s.cur _ :=
      TextBuffer.snprintf_holds hsize
    have hold := ht.snprintf (limit - s.cur) u
    rw [List.take_of_length_le (by omega)] at hnew
    rw [Nat.zero_add, ← hcur] at hold
    rw [List.append_assoc]
    apply hold.append
    rwa [Nat.zero_add, ← hcur]
  cut hfull := by
    rw [List.length_append, ← hcur] at hfull
    exact hfull

theorem Prints.length_lt (h : Prints limit t s) (hlt : s.cur < limit) : t.length < limit := by
  by_contra hge
  exact absurd (h.cut (Nat.not_lt.mp hge)) (Nat.not_le.mpr hlt)

theorem Prints.le_length (h : Prints limit t s) (hfull : limit ≤ s.cur) : limit ≤ t.length := by
  by_contra hfit
  rw [(h.fits (Nat.not_le.mp hfit)).1] at hfull
  exact hfit hfull

/-- The next text. -/
theorem Prints.print (h : Prints limit t s) (hlt : s.cur < limit) (u : List Char) :
    Prints limit (t ++ u) (s.print limit u) := by
  obtain ⟨hcur, ht⟩ := h.fits (h.length_lt hlt)
  exact prints_print h.top hcur hlt ht.left u

/-- A text that was cut is dropped, with those that were to follow. -/
theorem Prints.drop (h : Prints limit t s) (hstart : start < limit) (hfull : limit ≤ s.cur)
    (u : List Char) : Prints limit (t ++ u) { s with buf := s.buf.store start [nul] } where
  top := by
    rw [TextBuffer.store_top (List.cons_ne_nil _ _)]
    exact Nat.max_le.mpr ⟨h.top, hstart⟩
  fits hfit := by
    rw [List.length_append] at hfit
    have hcur := (h.fits (by omega)).1
    omega
  cut _ := hfull

/-- The rule of a check between two texts. -/
theorem Prints.checked_bind (h : Prints limit t s) (hstart : start < limit)
    {f : Cursor → Except Cursor Cursor}
    (hf : s.cur < limit → Prints limit (t ++ u) (merge (f s))) :
    Prints limit (t ++ u) (merge (s.checked start limit >>= f)) := by
  unfold checked
  split_ifs with hfull
  · exact h.drop hstart hfull u
  · exact hf (Nat.not_le.mp hfull)

/-- The rule of a check after the last text. -/
theorem Prints.checked (h : Prints limit t s) (hstart : start < limit) :
    Prints limit t (merge (s.checked start limit)) := by
  unfold Cursor.checked
  split_ifs with hfull
  · have hdrop := h.drop hstart hfull []
    rwa [List.append_nil] at hdrop
  · exact h

/-- A check does not move the fence. -/
theorem fence_checked_bind {f : Cursor → Except Cursor Cursor}
    (hf : ∀ s, (merge (f s)).buf.fence = s.buf.fence) (s : Cursor) :
    (merge (s.checked start limit >>= f)).buf.fence = s.buf.fence := by
  unfold Cursor.checked
  split_ifs
  · rfl
  · exact hf s

theorem fence_checked (s : Cursor) :
    (merge (s.checked start limit)).buf.fence = s.buf.fence := by
  unfold Cursor.checked
  split_ifs <;> rfl

end Cursor

end OnicDriver.Lib
