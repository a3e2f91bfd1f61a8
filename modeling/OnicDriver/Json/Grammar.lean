import OnicDriver.Json.Counting

/-!
# Strings and primitives

What the two scanning loops accept: the body of a string with its escapes, and
a run of plain characters. Each loop finds the end of what is accepted, and
accepts all that it finds the end of.
-/

namespace OnicDriver.Json

open Lib

/-- The brackets of an object or an array, and the type of its token. -/
def openChar (object : Bool) : Char := if object then '{' else '['
def closeChar (object : Bool) : Char := if object then '}' else ']'
def containerType (object : Bool) : Jsmntype := if object then .object else .array

/-- What may stand between the quotes of a string. -/
inductive StringBody : List Char → Prop
  | nil : StringBody []
  | plain {c : Char} {cs : List Char} (hnul : c ≠ nul) (hquote : c ≠ '"') (hslash : c ≠ '\\')
    (h : StringBody cs) : StringBody (c :: cs)
  | escape {c : Char} {cs : List Char} (hc : isEscape c) (h : StringBody cs) :
    StringBody ('\\' :: c :: cs)
  | code {a b c d : Char} {cs : List Char} (hhex : ∀ x ∈ [a, b, c, d], isHexDigit x)
    (h : StringBody cs) : StringBody ('\\' :: 'u' :: a :: b :: c :: d :: cs)

/-- A character of a primitive. -/
def isPlain (c : Char) : Bool := 32 ≤ c.toNat && c.toNat < 127 && !isDelimiter c

/-- A primitive: plain characters, of which the first begins no other token. -/
def PrimitiveText (text : List Char) : Prop :=
  (∀ c ∈ text, isPlain c) ∧ ∃ c ∈ text.head?, charCase c = .other

instance (text : List Char) : Decidable (PrimitiveText text) :=
  @instDecidableAnd _ _ (List.decidableBAll (fun c => isPlain c) text)
    (Option.decidableExistsMem text.head?)

/-! ## Brackets -/

theorem charCase_openChar (object : Bool) :
    charCase (openChar object) = .opening (containerType object) := by
  cases object <;> decide

theorem charCase_closeChar (object : Bool) :
    charCase (closeChar object) = .closing (containerType object) := by
  cases object <;> decide

theorem openChar_of_opening {c : Char} {type : Jsmntype} (h : charCase c = .opening type) :
    ∃ object, c = openChar object ∧ type = containerType object := by
  unfold charCase at h
  split at h
  · rename_i hc
    cases h
    exact ⟨true, hc, rfl⟩
  · split at h
    · rename_i hc
      cases h
      exact ⟨false, hc, rfl⟩
    · repeat' split at h
      all_goals cases h

theorem closeChar_of_closing {c : Char} {type : Jsmntype} (h : charCase c = .closing type) :
    ∃ object, c = closeChar object ∧ type = containerType object := by
  unfold charCase at h
  split at h
  · cases h
  · split at h
    · cases h
    · split at h
      · rename_i hc
        cases h
        exact ⟨true, hc, rfl⟩
      · split at h
        · rename_i hc
          cases h
          exact ⟨false, hc, rfl⟩
        · repeat' split at h
          all_goals cases h

theorem charCase_quote {c : Char} (h : charCase c = .quote) : c = '"' := by
  unfold charCase at h
  repeat' split at h
  all_goals first | assumption | cases h

theorem containerType_injective {object object' : Bool}
    (h : containerType object = containerType object') : object = object' := by
  cases object <;> cases object' <;> first | rfl | cases h

/-! ## Scanning -/

theorem isPlain_iff {c : Char} :
    isPlain c ↔ ¬ (c = nul ∨ isDelimiter c) ∧ ¬ (c.toNat < 32 ∨ 127 ≤ c.toNat) := by
  have hnul : c = nul → c.toNat < 32 := by
    rintro rfl
    decide
  unfold isPlain
  constructor
  · intro h
    simp only [Bool.and_eq_true, decide_eq_true_eq, Bool.not_eq_true'] at h
    obtain ⟨⟨hlow, hhigh⟩, hdelim⟩ := h
    refine ⟨?_, by omega⟩
    rintro (hc | hc)
    · exact absurd (hnul hc) (by omega)
    · rw [hdelim] at hc
      cases hc
  · rintro ⟨hdelim, hrange⟩
    simp only [Bool.and_eq_true, decide_eq_true_eq, Bool.not_eq_true']
    refine ⟨by omega, ?_⟩
    rw [← Bool.not_eq_true]
    exact fun hc => hdelim (.inr hc)

/-- A primitive ends where a delimiter or the end of the text follows it. -/
theorem primitiveEnd_eq {text rest : List Char} (htext : ∀ c ∈ text, isPlain c)
    (hrest : ∀ c ∈ rest.head?, c = nul ∨ isDelimiter c) (pos : ℕ) :
    primitiveEnd (text ++ rest) pos = some (pos + text.length) := by
  induction text generalizing pos with
  | nil =>
    cases rest with
    | nil => rfl
    | cons c rest =>
      rw [List.nil_append]
      unfold primitiveEnd
      exact if_pos (hrest c rfl)
  | cons c text ih =>
    obtain ⟨hdelim, hrange⟩ := isPlain_iff.mp (htext c List.mem_cons_self)
    rw [List.cons_append]
    unfold primitiveEnd
    rw [if_neg hdelim, if_neg hrange, ih (fun d hd => htext d (List.mem_cons_of_mem c hd)),
      List.length_cons]
    congr 1
    omega

/-- A digit of a code is taken. -/
theorem stringEnd_digit {c : Char} (hc : isHexDigit c) (digits : ℕ) (cs : List Char) (pos : ℕ) :
    stringEnd (digits + 1) (c :: cs) pos = stringEnd digits cs (pos + 1) := by
  have hnul : c ≠ nul := by
    rintro rfl
    exact absurd hc (by decide)
  conv_lhs => unfold stringEnd
  rw [if_neg hnul, if_pos hc]

/-- A string ends at the quote after its body. -/
theorem stringEnd_eq {body rest : List Char} (h : StringBody body) (pos : ℕ) :
    stringEnd 0 (body ++ '"' :: rest) pos = .ok (pos + body.length) := by
  induction h generalizing pos with
  | nil =>
    rw [List.nil_append]
    unfold stringEnd
    rw [if_neg (by decide), if_pos rfl]
    rfl
  | @plain c cs hnul hquote hslash h ih =>
    rw [List.cons_append]
    unfold stringEnd
    rw [if_neg hnul, if_neg hquote, if_neg hslash, ih, List.length_cons]
    congr 1
    omega
  | @escape c cs hc h ih =>
    rw [List.cons_append, List.cons_append]
    unfold stringEnd
    rw [if_neg (by decide), if_neg (by decide), if_pos rfl]
    dsimp only
    rw [if_pos hc, ih, List.length_cons, List.length_cons]
    congr 1
    omega
  | @code a b c d cs hhex h ih =>
    simp only [List.mem_cons, List.not_mem_nil, or_false, forall_eq_or_imp, forall_eq] at hhex
    obtain ⟨ha, hb, hc, hd⟩ := hhex
    simp only [List.cons_append]
    unfold stringEnd
    rw [if_neg (by decide), if_neg (by decide), if_pos rfl]
    dsimp only
    rw [if_neg (by decide), if_pos rfl, stringEnd_digit ha, stringEnd_digit hb, stringEnd_digit hc,
      stringEnd_digit hd, ih]
    simp only [List.length_cons]
    congr 1
    omega

/-- What the loop finds the end of is a run of plain characters. -/
theorem primitiveEnd_spec {cs : List Char} {pos e : ℕ} (h : primitiveEnd cs pos = some e) :
    e = pos + (cs.take (e - pos)).length ∧ ∀ c ∈ cs.take (e - pos), isPlain c := by
  induction cs generalizing pos with
  | nil =>
    cases h
    simp
  | cons c cs ih =>
    unfold primitiveEnd at h
    split at h
    · cases h
      simp
    · rename_i hdelim
      split at h
      · cases h
      · rename_i hrange
        have hlt := (primitiveEnd_ge h).1
        obtain ⟨hend, hplain⟩ := ih h
        have hsucc : e - pos = e - (pos + 1) + 1 := by omega
        rw [hsucc, List.take_succ_cons, List.length_cons]
        refine ⟨by omega, fun d hd => ?_⟩
        rcases List.mem_cons.mp hd with rfl | hd
        · exact isPlain_iff.mpr ⟨hdelim, hrange⟩
        · exact hplain d hd

/-- What the loop takes while digits of a code may come. -/
def Tail : ℕ → List Char → Prop
  | 0, body => StringBody body
  | _ + 1, [] => False
  | digits + 1, c :: body => isHexDigit c ∧ Tail digits body

theorem Tail.digit {digits : ℕ} {body : List Char} (h : Tail (digits + 1) body) :
    ∃ c body', body = c :: body' ∧ isHexDigit c ∧ Tail digits body' := by
  cases body with
  | nil => exact h.elim
  | cons c body => exact ⟨c, body, rfl, h⟩

/-- What the loop finds the end of is the body of a string. -/
theorem stringEnd_tail {digits : ℕ} {cs : List Char} {pos e : ℕ}
    (h : stringEnd digits cs pos = .ok e) :
    ∃ body rest, cs = body ++ '"' :: rest ∧ e = pos + body.length ∧ Tail digits body := by
  fun_induction stringEnd digits cs pos with
  | case1 digits pos => cases h
  | case2 digits cs pos => cases h
  | case3 digits c cs pos hnul hhex ih =>
    obtain ⟨body, rest, rfl, rfl, htail⟩ := ih h
    refine ⟨c :: body, rest, rfl, ?_, hhex, htail⟩
    rw [List.length_cons]
    omega
  | case4 digits c cs pos hnul hhex => cases h
  | case5 cs pos => cases h
  | case6 cs pos hnul =>
    cases h
    exact ⟨[], cs, rfl, rfl, .nil⟩
  | case7 pos hnul hquote => cases h
  | case8 pos d cs hescape hnul hquote ih =>
    obtain ⟨body, rest, rfl, rfl, htail⟩ := ih h
    refine ⟨'\\' :: d :: body, rest, rfl, ?_, .escape hescape htail⟩
    rw [List.length_cons, List.length_cons]
    omega
  | case9 pos cs hnul hquote hescape ih =>
    obtain ⟨body, rest, rfl, rfl, htail⟩ := ih h
    obtain ⟨a, b, c, d, body, rfl, ha, hb, hc, hd, hbody⟩ : ∃ a b c d body',
        body = a :: b :: c :: d :: body' ∧ isHexDigit a ∧ isHexDigit b ∧ isHexDigit c ∧
          isHexDigit d ∧ StringBody body' := by
      obtain ⟨a, body, rfl, ha, htail⟩ := htail.digit
      obtain ⟨b, body, rfl, hb, htail⟩ := htail.digit
      obtain ⟨c, body, rfl, hc, htail⟩ := htail.digit
      obtain ⟨d, body, rfl, hd, htail⟩ := htail.digit
      exact ⟨a, b, c, d, body, rfl, ha, hb, hc, hd, htail⟩
    refine ⟨'\\' :: 'u' :: a :: b :: c :: d :: body, rest, rfl, ?_, .code ?_ hbody⟩
    · simp only [List.length_cons]
      omega
    · simp [ha, hb, hc, hd]
  | case10 pos d cs hescape hu hnul hquote => cases h
  | case11 c cs pos hnul hquote hslash ih =>
    obtain ⟨body, rest, rfl, rfl, htail⟩ := ih h
    refine ⟨c :: body, rest, rfl, ?_, .plain hnul hquote hslash htail⟩
    rw [List.length_cons]
    omega

end OnicDriver.Json
