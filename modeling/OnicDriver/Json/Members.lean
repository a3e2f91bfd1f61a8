import OnicDriver.Json.Documents
import OnicDriver.Json.Settings
import Mathlib.Data.List.Forall2
import Mathlib.Data.List.TakeWhile

/-!
# What a configuration file says

In a well-formed file the members of the object are taken one after the other,
as long as no string elsewhere in it is one of the known keys.
-/

namespace OnicDriver.Json

open Lib

/-! ## What a document says -/

/-- The keys that are known. -/
def knownKeys : List (List Char) := macAddrKey :: settings.map Setting.key

mutual

/-- The strings and keys in a value. -/
def Value.strings : Value → List (List Char)
  | .primitive _ => []
  | .string body => [body]
  | .container _ _ items => items.strings

/-- The strings and keys in the items that are left. -/
def Items.strings : Items → List (List Char)
  | .nil => []
  | .cons _ key value _ rest => (key.map Key.body).toList ++ value.strings ++ rest.strings

end

/-- The strings and keys inside a value, apart from the value itself. -/
def Value.inside : Value → List (List Char)
  | .container _ _ items => items.strings
  | _ => []

/-- The text of a value as the driver reads it, without the quotes of a string. -/
def Value.shown : Value → List Char
  | .primitive text => text
  | .string body => body
  | .container object ws items => (Value.container object ws items).text

/-- A value that is neither an object nor an array. -/
def Value.isScalar : Value → Bool
  | .container _ _ _ => false
  | _ => true

/-- A value that is an array. -/
def Value.isArray : Value → Bool
  | .container false _ _ => true
  | _ => false

/-- The members of an object, or the elements of an array without keys. -/
def Items.members : Items → List (List Char × Value)
  | .nil => []
  | .cons _ key value _ rest => ((key.map Key.body).getD [], value) :: rest.members

/-- Octets of the address from the texts of the elements of an array. -/
def setOctets (k : Kstrto) : List (List Char) → ℕ → PlatformInfo → PlatformInfo
  | [], _, p => p
  | text :: texts, j, p =>
    setOctets k texts (j + 1) ((setOctet k (text.take (PARSEBUF_LEN - 1)) j p).getD p)

/-- What a member says of the address. -/
def setAddress (k : Kstrto) : Value → PlatformInfo → PlatformInfo
  | .container false _ items, p => setOctets k (items.members.map fun m => m.2.shown) 0 p
  | _, p => p

/-- What a member of the document says. -/
def applyMember (k : Kstrto) (p : PlatformInfo) (m : List Char × Value) : PlatformInfo :=
  match settings.find? fun s => m.1 == s.key with
  | some setting => setting.set k (m.2.shown.take (PARSEBUF_LEN - 1)) p
  | none => if m.1 = macAddrKey then setAddress k m.2 p else p

/-- A member in which no other string is taken for a key. -/
inductive Proper : List Char × Value → Prop
  | setting {key : List Char} {v : Value} (hkey : key ∈ settings.map Setting.key)
    (hinside : ∀ s ∈ v.inside, s ∉ knownKeys) : Proper (key, v)
  | address {ws : List Char} {items : Items} (hflat : ∀ m ∈ items.members, m.2.isScalar)
    (hsix : items.length ≤ 6) : Proper (macAddrKey, .container false ws items)
  | noAddress {v : Value} (harray : v.isArray = false) (hstrings : ∀ s ∈ v.strings, s ∉ knownKeys) :
    Proper (macAddrKey, v)
  | unknown {key : List Char} {v : Value} (hkey : key ∉ knownKeys)
    (hstrings : ∀ s ∈ v.strings, s ∉ knownKeys) : Proper (key, v)

/-! ## Texts of tokens -/

variable {k : Kstrto} {json s : List Char} {toks : List Jsmntok} {t : Jsmntok} {i j n : ℕ}
  {p p' : PlatformInfo}

/-- The token lies where the text stands. -/
def Shows (json : List Char) (t : Jsmntok) (s : List Char) : Prop :=
  ∃ start rest, t.start = (start : ℕ) ∧ t.end_ = (start + s.length : ℕ) ∧ start ≤ json.length ∧
    json.drop start = s ++ rest

/-- The token shows a text that is one of the strings if the token is a string. -/
def Text (json : List Char) (strings : List (List Char)) (t : Jsmntok) : Prop :=
  ∃ s, Shows json t s ∧ nul ∉ s ∧ (t.type = .string → s ∈ strings)

theorem Shows.printToken (h : Shows json t s) (hnul : nul ∉ s) : printToken json t = some s := by
  obtain ⟨start, rest, hstart, hend, hle, hdrop⟩ := h
  have hprecision : t.end_ - t.start = (s.length : ℕ) := by
    rw [hend, hstart]
    push_cast
    omega
  have hlength : s.length ≤ (json.drop start).length := by
    rw [hdrop, List.length_append]
    exact Nat.le_add_right _ _
  have hinside : ¬ (t.start < 0 ∨ (json.length : ℤ) < t.start) := by omega
  unfold Json.printToken
  rw [if_neg hinside]
  dsimp only
  rw [hprecision, if_neg (by omega), hstart, Int.toNat_natCast,
    if_pos (.inl (Int.ofNat_le.mpr hlength)), Int.toNat_natCast, hdrop, List.take_left]
  congr 1
  rw [List.takeWhile_eq_self_iff]
  intro c hc
  rw [decide_eq_true_iff]
  rintro rfl
  exact hnul hc

theorem Shows.jsoneq (h : Shows json t s) (key : List Char) :
    jsoneq json t key = (t.type == .string && s == key) := by
  obtain ⟨start, rest, hstart, hend, hle, hdrop⟩ := h
  have hprecision : t.end_ - t.start = (s.length : ℕ) := by
    rw [hend, hstart]
    push_cast
    omega
  unfold Json.jsoneq
  rw [hprecision, hstart, Int.toNat_natCast, hdrop, Bool.and_assoc]
  congr 1
  by_cases hkey : s = key
  · rw [hkey, List.take_left]
    simp
  · by_cases hlength : key.length = s.length
    · have hne : (s == key) = false := beq_eq_false_iff_ne.mpr hkey
      rw [hlength, List.take_left, hne, Bool.and_false]
    · have hne : ((key.length : ℤ) == (s.length : ℕ)) = false :=
        beq_eq_false_iff_ne.mpr (by exact_mod_cast hlength)
      rw [hne, beq_eq_false_iff_ne.mpr hkey, Bool.false_and]

/-! ### No value has a NUL -/

theorem nul_notMem_space {ws : List Char} (h : IsSpace ws) : nul ∉ ws := fun hc =>
  absurd (h nul hc) (by decide)

theorem nul_notMem_primitive {text : List Char} (h : PrimitiveText text) : nul ∉ text := fun hc =>
  absurd (h.1 nul hc) (by decide)

theorem nul_notMem_body {body : List Char} (h : StringBody body) : nul ∉ body := by
  induction h with
  | nil => exact List.not_mem_nil
  | plain hnul hquote hslash h ih => simp [ih, hnul.symm]
  | @escape c cs hc h ih =>
    have hne : nul ≠ c := by
      rintro rfl
      exact absurd hc (by decide)
    have hslash : nul ≠ '\\' := by decide
    simp [ih, hne, hslash]
  | @code a b c d cs hhex h ih =>
    have hdigits : nul ∉ [a, b, c, d] := fun hc => absurd (hhex nul hc) (by decide)
    have hcode : nul ∉ ['\\', 'u'] := by decide
    simp only [List.mem_cons, List.not_mem_nil, or_false, not_or] at hdigits hcode ⊢
    exact ⟨hcode.1, hcode.2, hdigits.1, hdigits.2.1, hdigits.2.2.1, hdigits.2.2.2, ih⟩

theorem nul_notMem_keyText {key : Option Key} (h : ∀ key' ∈ key, key'.Valid) :
    nul ∉ keyText key := by
  cases key with
  | none => exact List.not_mem_nil
  | some key =>
    obtain ⟨hbody, hbefore, hafter⟩ := h key rfl
    have hquote : nul ≠ '"' := by decide
    have hcolon : nul ≠ ':' := by decide
    simp [keyText, Key.text, nul_notMem_body hbody, nul_notMem_space hbefore,
      nul_notMem_space hafter, hquote, hcolon]

mutual

theorem Value.nul_notMem : ∀ v : Value, v.Valid → nul ∉ v.text
  | .primitive text, hv => by
    rw [Value.Valid] at hv
    rw [Value.text]
    exact nul_notMem_primitive hv
  | .string body, hv => by
    rw [Value.Valid] at hv
    have hquote : nul ≠ '"' := by decide
    simp [Value.text, nul_notMem_body hv, hquote]
  | .container object ws items, hv => by
    rw [Value.Valid] at hv
    have hopen : nul ≠ openChar object := by cases object <;> decide
    have hclose : nul ≠ closeChar object := by cases object <;> decide
    simp [Value.text, nul_notMem_space hv.1, Items.nul_notMem items true hv.2, hopen, hclose]

theorem Items.nul_notMem {object : Bool} :
    ∀ (items : Items) (first : Bool), items.Valid object → nul ∉ items.text first
  | .nil, first, hv => by
    rw [Items.text]
    exact List.not_mem_nil
  | .cons before key value after rest, first, hv => by
    rw [Items.Valid] at hv
    obtain ⟨hbefore, -, hkey, hvalue, hafter, hrest⟩ := hv
    have hseparator : nul ∉ separator first := by cases first <;> decide
    simp [Items.text, hseparator, nul_notMem_space hbefore, nul_notMem_keyText hkey,
      Value.nul_notMem value hvalue, nul_notMem_space hafter, Items.nul_notMem rest false hrest]

end

/-! ### The tokens of a value show its texts -/

theorem Shows.of_drop {start : ℕ} {rest : List Char} (hle : start ≤ json.length)
    (hdrop : json.drop start = s ++ rest) (hstart : t.start = (start : ℕ))
    (hend : t.end_ = (start + s.length : ℕ)) : Shows json t s :=
  ⟨start, rest, hstart, hend, hle, hdrop⟩

theorem Text.mono {strings strings' : List (List Char)} (h : Text json strings t)
    (hsub : ∀ s ∈ strings, s ∈ strings') : Text json strings' t := by
  obtain ⟨s, hshows, hnul, hstring⟩ := h
  exact ⟨s, hshows, hnul, fun htype => hsub s (hstring htype)⟩

theorem length_le_of_drop {c : Char} {cs : List Char} {pos : ℕ} (h : json.drop pos = c :: cs) :
    pos + 1 ≤ json.length := by
  have hlength := congrArg List.length h
  rw [List.length_drop, List.length_cons] at hlength
  omega

theorem key_shows {key : Key} {pos size : ℕ} {rest : List Char}
    (hdrop : json.drop pos = key.text ++ rest) :
    Shows json ⟨.string, pos + 1, (pos + 1 + key.body.length : ℕ), size⟩ key.body := by
  have hquote : json.drop pos = ['"'] ++ (key.body ++
      ('"' :: key.beforeColon ++ ':' :: key.afterColon ++ rest)) := by
    rw [hdrop]
    simp [Key.text]
  exact .of_drop (length_le_of_drop hquote) (drop_append hquote) rfl rfl

/-- The first token of a value. -/
def Value.head (pos : ℕ) : Value → Jsmntok
  | .primitive text => ⟨.primitive, pos, (pos + text.length : ℕ), 0⟩
  | .string body => ⟨.string, pos + 1, (pos + 1 + body.length : ℕ), 0⟩
  | .container object ws items =>
    ⟨containerType object, pos, (pos + (Value.container object ws items).text.length : ℕ),
      items.length⟩

/-- The tokens inside a value. -/
def Value.insideTokens (pos : ℕ) : Value → List Jsmntok
  | .container _ ws items => items.tokens (pos + 1 + ws.length) true
  | _ => []

theorem Value.tokens_eq (v : Value) (pos : ℕ) :
    v.tokens pos = v.head pos :: v.insideTokens pos := by
  cases v <;> rw [Value.tokens] <;> rfl

theorem Value.text_cons {v : Value} (hv : v.Valid) : ∃ c cs, v.text = c :: cs := by
  cases v with
  | primitive text =>
    rw [Value.Valid] at hv
    obtain ⟨-, c, hc, -⟩ := hv
    obtain ⟨cs, hcs⟩ := List.head?_eq_some_iff.mp hc
    exact ⟨c, cs, by rw [Value.text, hcs]⟩
  | string body => exact ⟨_, _, by rw [Value.text]; rfl⟩
  | container object ws items => exact ⟨_, _, by rw [Value.text]; rfl⟩

theorem Value.head_shows {v : Value} (hv : v.Valid) {pos : ℕ} {rest : List Char}
    (hdrop : json.drop pos = v.text ++ rest) : Shows json (v.head pos) v.shown := by
  obtain ⟨c, cs, htext⟩ := Value.text_cons hv
  have hle : pos + 1 ≤ json.length := length_le_of_drop (hdrop.trans (by rw [htext]; rfl))
  cases v with
  | primitive text =>
    rw [Value.text] at hdrop
    exact .of_drop (by omega) hdrop rfl rfl
  | string body =>
    have hquote : json.drop pos = ['"'] ++ (body ++ ('"' :: rest)) := by
      rw [hdrop, Value.text]
      simp
    exact .of_drop hle (drop_append hquote) rfl rfl
  | container object ws items => exact .of_drop (by omega) hdrop rfl rfl

theorem Value.nul_notMem_shown {v : Value} (hv : v.Valid) : nul ∉ v.shown := by
  cases v with
  | primitive text =>
    rw [Value.Valid] at hv
    exact nul_notMem_primitive hv
  | string body =>
    rw [Value.Valid] at hv
    exact nul_notMem_body hv
  | container object ws items => exact Value.nul_notMem _ hv

theorem Value.head_text {v : Value} (hv : v.Valid) {pos : ℕ} {rest : List Char}
    (hdrop : json.drop pos = v.text ++ rest) : Text json v.strings (v.head pos) := by
  refine ⟨v.shown, Value.head_shows hv hdrop, Value.nul_notMem_shown hv, fun htype => ?_⟩
  cases v with
  | primitive text => cases htype
  | string body =>
    rw [Value.strings]
    exact List.mem_singleton_self _
  | container object ws items => cases object <;> cases htype

theorem keyTokens_text {key : Option Key} (hkey : ∀ k ∈ key, k.Valid) {pos : ℕ} {rest : List Char}
    (hdrop : json.drop pos = keyText key ++ rest) :
    ∀ t ∈ keyTokens pos key, Text json (key.map Key.body).toList t := by
  intro t ht
  cases key with
  | none => cases ht
  | some key =>
    rw [List.mem_singleton.mp ht]
    exact ⟨key.body, key_shows hdrop, nul_notMem_body (hkey key rfl).body,
      fun _ => List.mem_singleton_self _⟩

mutual

/-- Every token of a value shows a text, which is one of the strings of the value if the token is a
string. -/
theorem Value.texts : ∀ v : Value, v.Valid → ∀ (pos : ℕ) (rest : List Char),
    json.drop pos = v.text ++ rest → ∀ t ∈ v.tokens pos, Text json v.strings t
  | .primitive text, hv, pos, rest, hdrop, t, ht => by
    rw [Value.tokens, List.mem_singleton] at ht
    rw [ht]
    exact Value.head_text (v := .primitive text) hv hdrop
  | .string body, hv, pos, rest, hdrop, t, ht => by
    rw [Value.tokens, List.mem_singleton] at ht
    rw [ht]
    exact Value.head_text (v := .string body) hv hdrop
  | .container object ws items, hv, pos, rest, hdrop, t, ht => by
    rw [Value.tokens_eq, List.mem_cons] at ht
    rcases ht with rfl | ht
    · exact Value.head_text hv hdrop
    · rw [Value.Valid] at hv
      have hopen : json.drop pos = [openChar object] ++
          (ws ++ (items.text true ++ ([closeChar object] ++ rest))) := by
        rw [hdrop, Value.text]
        simp
      rw [Value.strings]
      exact Items.texts items hv.2 _ true _ (drop_append (drop_append hopen)) t ht

theorem Items.texts {object : Bool} : ∀ items : Items, items.Valid object →
    ∀ (pos : ℕ) (first : Bool) (rest : List Char), json.drop pos = items.text first ++ rest →
      ∀ t ∈ items.tokens pos first, Text json items.strings t
  | .nil, hv, pos, first, rest, hdrop, t, ht => by
    rw [Items.tokens] at ht
    cases ht
  | .cons before key value after items, hv, pos, first, rest, hdrop, t, ht => by
    rw [Items.Valid] at hv
    obtain ⟨-, -, hkey, hvalue, -, hitems⟩ := hv
    have hseparator : json.drop pos = separator first ++ (before ++ (keyText key ++ (value.text ++
        (after ++ (items.text false ++ rest))))) := by
      rw [hdrop, Items.text]
      simp
    have hatKey := drop_append (drop_append hseparator)
    have hatValue := drop_append hatKey
    rw [Items.tokens, List.mem_append, List.mem_append] at ht
    rw [Items.strings]
    rcases ht with (ht | ht) | ht
    · exact (keyTokens_text hkey hatKey t ht).mono fun s hs => by simp [hs]
    · exact (Value.texts value hvalue _ _ hatValue t ht).mono fun s hs => by simp [hs]
    · exact (Items.texts items hitems _ false _ (drop_append (drop_append hatValue)) t ht).mono
        fun s hs => by simp [hs]

end

/-- Every token inside a value shows a text, which is one of the strings inside if the token is a
string. -/
theorem Value.insideTokens_texts {v : Value} (hv : v.Valid) {pos : ℕ} {rest : List Char}
    (hdrop : json.drop pos = v.text ++ rest) :
    ∀ t ∈ v.insideTokens pos, Text json v.inside t := by
  intro t ht
  cases v with
  | primitive text => cases ht
  | string body => cases ht
  | container object ws items =>
    rw [Value.Valid] at hv
    have hopen : json.drop pos = [openChar object] ++
        (ws ++ (items.text true ++ ([closeChar object] ++ rest))) := by
      rw [hdrop, Value.text]
      simp
    exact Items.texts items hv.2 _ true _ (drop_append (drop_append hopen)) t ht

/-! ## What a pass does -/

theorem parsingBuffer_shows (h : Shows json t s) (hnul : nul ∉ s) :
    parsingBuffer json t = some (s.take (PARSEBUF_LEN - 1)) := by
  unfold parsingBuffer
  rw [h.printToken hnul]
  rfl

theorem find_shows (h : Shows json t s) :
    (settings.find? fun e => jsoneq json t e.key) =
      if t.type = .string then settings.find? fun e => s == e.key else none := by
  simp only [h.jsoneq]
  by_cases htype : t.type = .string
  · rw [htype, if_pos rfl]
    rfl
  · rw [if_neg htype, List.find?_eq_none]
    intro e _
    simp [htype]

/-- The keys with one value do not have the key of the address among them. -/
theorem find_settings_eq_none : (settings.find? fun e => s == e.key) = none ↔
    s ∉ settings.map Setting.key := by
  rw [List.find?_eq_none, List.mem_map]
  constructor
  · rintro h ⟨e, he, rfl⟩
    exact h e he (beq_self_eq_true _)
  · intro h e he hkey
    exact h ⟨e, he, (beq_iff_eq.mp hkey).symm⟩

theorem macAddrKey_notMem : macAddrKey ∉ settings.map Setting.key := by decide

/-- A token that is no known key is passed over. -/
theorem pass_unknown {strings : List (List Char)} (ht : toks[i]? = some t)
    (htext : Text json strings t) (hunknown : ∀ s ∈ strings, s ∉ knownKeys) :
    settingPass k json toks i p = some (i + 1, p) := by
  obtain ⟨s, hshows, hnul, hstring⟩ := htext
  have hknown : t.type = .string → s ∉ knownKeys := fun htype => hunknown s (hstring htype)
  have hfind : (settings.find? fun e => jsoneq json t e.key) = none := by
    rw [find_shows hshows]
    split
    · rename_i htype
      exact find_settings_eq_none.mpr fun hmem => hknown htype (List.mem_cons_of_mem _ hmem)
    · rfl
  have hmac : jsoneq json t macAddrKey = false := by
    rw [hshows.jsoneq]
    by_cases htype : t.type = .string
    · have hne : s ≠ macAddrKey := fun heq => hknown htype (heq ▸ List.mem_cons_self)
      rw [beq_eq_false_iff_ne.mpr hne, Bool.and_false]
    · rw [beq_eq_false_iff_ne.mpr htype, Bool.false_and]
  unfold settingPass
  rw [ht]
  simp only [Option.bind_eq_bind, Option.bind_some]
  rw [hfind, hmac, hshows.printToken hnul]
  rfl

/-- A key with one value takes the text of the next token. -/
theorem pass_setting {key : List Char} {u : Jsmntok} {e : Setting} (ht : toks[i]? = some t)
    (hkey : Shows json t key) (htype : t.type = .string)
    (hfind : (settings.find? fun e => key == e.key) = some e) (hu : toks[i + 1]? = some u)
    (hvalue : Shows json u s) (hnul : nul ∉ s) :
    settingPass k json toks i p = some (i + 2, e.set k (s.take (PARSEBUF_LEN - 1)) p) := by
  unfold settingPass
  rw [ht]
  simp only [Option.bind_eq_bind, Option.bind_some]
  rw [find_shows hkey, if_pos htype, hfind, hu]
  simp only [Option.bind_some]
  rw [parsingBuffer_shows hvalue hnul]
  rfl

/-- The key of the address looks at the next token. -/
theorem pass_address {u : Jsmntok} (ht : toks[i]? = some t) (hkey : Shows json t macAddrKey)
    (htype : t.type = .string) (hu : toks[i + 1]? = some u) :
    settingPass k json toks i p =
      if u.type ≠ .array then some (i + 1, p)
      else (octetLoop k json toks i u.size 0 p).map (i + u.size + 2, ·) := by
  have hfind : (settings.find? fun e => macAddrKey == e.key) = none :=
    find_settings_eq_none.mpr macAddrKey_notMem
  unfold settingPass
  rw [ht]
  simp only [Option.bind_eq_bind, Option.bind_some]
  rw [find_shows hkey, if_pos htype, hfind, hkey.jsoneq, htype, hu]
  simp only [beq_self_eq_true, Bool.and_self, if_true, Option.bind_some]
  split
  · rfl
  · cases octetLoop k json toks i u.size 0 p <;> rfl

/-! ## Runs over parts of a document -/

theorem getElem?_of_drop_cons {ts : List Jsmntok} (h : toks.drop i = t :: ts) :
    toks[i]? = some t ∧ toks.drop (i + 1) = ts := by
  constructor
  · rw [← List.head?_drop, h]
    rfl
  · rw [← List.drop_drop, h]
    rfl

/-- Tokens that are no known keys are passed over. -/
theorem settingsFrom_unknown {strings : List (List Char)} {ts post : List Jsmntok}
    (hdrop : toks.drop i = ts ++ post) (htexts : ∀ t ∈ ts, Text json strings t)
    (hunknown : ∀ s ∈ strings, s ∉ knownKeys) (hn : i + ts.length ≤ n) :
    settingsFrom k json toks n i p = settingsFrom k json toks n (i + ts.length) p := by
  induction ts generalizing i with
  | nil => rfl
  | cons t ts ih =>
    obtain ⟨ht, hrest⟩ := getElem?_of_drop_cons hdrop
    rw [List.length_cons] at hn
    rw [settingsFrom_step (by omega) (pass_unknown ht (htexts t List.mem_cons_self) hunknown),
      ih hrest (fun u hu => htexts u (List.mem_cons_of_mem t hu)) (by omega), List.length_cons]
    congr 1
    omega

/-- The elements of the address set its octets. -/
theorem octetLoop_shows {ts post : List Jsmntok} {texts : List (List Char)}
    (hdrop : toks.drop (i + j + 2) = ts ++ post)
    (htexts : List.Forall₂ (fun t s => Shows json t s ∧ nul ∉ s) ts texts)
    (hsix : j + ts.length ≤ 6) :
    octetLoop k json toks i ts.length j p = some (setOctets k texts j p) := by
  induction htexts generalizing j p with
  | nil => rfl
  | @cons t s ts texts hts _ ih =>
    obtain ⟨ht, hrest⟩ := getElem?_of_drop_cons hdrop
    rw [List.length_cons] at hsix ⊢
    have hoctet : setOctet k (s.take (PARSEBUF_LEN - 1)) j p =
        some ((setOctet k (s.take (PARSEBUF_LEN - 1)) j p).getD p) := by
      unfold setOctet
      cases k.u8 (s.take (PARSEBUF_LEN - 1)) 16 with
      | none => rfl
      | some octet =>
        dsimp only
        rw [dif_pos (by omega)]
        rfl
    unfold octetLoop setOctets
    rw [ht]
    simp only [Option.bind_eq_bind, Option.bind_some]
    rw [parsingBuffer_shows hts.1 hts.2]
    simp only [Option.bind_some]
    rw [hoctet]
    simp only [Option.bind_some, Option.getD_some]
    refine ih ?_ (by omega)
    rw [show i + (j + 1) + 2 = i + j + 2 + 1 by omega]
    exact hrest

/-- The elements of a flat array have one token each. -/
theorem Items.flat_shows : ∀ items : Items, items.Valid false →
    (∀ m ∈ items.members, m.2.isScalar) → ∀ (pos : ℕ) (first : Bool) (rest : List Char),
      json.drop pos = items.text first ++ rest →
      List.Forall₂ (fun t s => Shows json t s ∧ nul ∉ s) (items.tokens pos first)
        (items.members.map fun m => m.2.shown)
  | .nil, hv, hflat, pos, first, rest, hdrop => by
    rw [Items.tokens]
    exact .nil
  | .cons before key value after items, hv, hflat, pos, first, rest, hdrop => by
    rw [Items.Valid] at hv
    obtain ⟨-, hkey, -, hvalue, -, hitems⟩ := hv
    obtain rfl : key = none := by
      cases key with
      | none => rfl
      | some key => cases hkey
    have hseparator : json.drop pos = separator first ++ (before ++ (keyText none ++ (value.text ++
        (after ++ (items.text false ++ rest))))) := by
      rw [hdrop, Items.text]
      simp
    have hatValue := drop_append (drop_append (drop_append hseparator))
    have hone : value.insideTokens (pos + (separator first).length + before.length +
        (keyText none).length) = [] := by
      have hscalar := hflat _ List.mem_cons_self
      cases value with
      | primitive text => rfl
      | string body => rfl
      | container object ws items => cases hscalar
    rw [Items.tokens, Value.tokens_eq, hone]
    refine .cons ⟨Value.head_shows hvalue hatValue, Value.nul_notMem_shown hvalue⟩ ?_
    exact Items.flat_shows items hitems (fun m hm => hflat m (List.mem_cons_of_mem _ hm)) _ false _
      (drop_append (drop_append hatValue))

theorem Items.length_members : ∀ items : Items, items.members.length = items.length
  | .nil => rfl
  | .cons _ _ _ _ rest => by
    rw [Items.members, List.length_cons, rest.length_members, Items.length]

/-- A member is taken as it says. -/
theorem settingsFrom_member {v : Value} {key : List Char} {pos : ℕ} {rest : List Char}
    {post : List Jsmntok} (hv : v.Valid) (hproper : Proper (key, v)) (hnul : nul ∉ key)
    (hkey : Shows json t key) (htype : t.type = .string)
    (hdrop : json.drop pos = v.text ++ rest) (htoks : toks.drop i = t :: (v.tokens pos ++ post))
    (hn : i + 1 + (v.tokens pos).length ≤ n) :
    settingsFrom k json toks n i p =
      settingsFrom k json toks n (i + 1 + (v.tokens pos).length) (applyMember k p (key, v)) := by
  obtain ⟨ht, hvalue⟩ := getElem?_of_drop_cons htoks
  rw [Value.tokens_eq, List.cons_append] at hvalue
  obtain ⟨hhead, hinside⟩ := getElem?_of_drop_cons hvalue
  rw [Value.tokens_eq, List.length_cons] at hn ⊢
  have hpassed : (∀ s ∈ v.strings, s ∉ knownKeys) → settingsFrom k json toks n (i + 1) p =
      settingsFrom k json toks n (i + 1 + ((v.insideTokens pos).length + 1)) p := by
    intro hunknown
    rw [← List.cons_append, ← Value.tokens_eq] at hvalue
    have hpass := settingsFrom_unknown (k := k) (p := p) (n := n) hvalue
      (v.texts hv pos rest hdrop) hunknown (by rw [Value.tokens_eq, List.length_cons]; omega)
    rwa [Value.tokens_eq, List.length_cons] at hpass
  cases hproper with
  | setting hsetting hunknown =>
    obtain ⟨e, hfind⟩ : ∃ e, (settings.find? fun e => key == e.key) = some e := by
      rw [← Option.ne_none_iff_exists']
      exact fun hnone => find_settings_eq_none.mp hnone hsetting
    rw [settingsFrom_step (by omega) (pass_setting ht hkey htype hfind hhead
      (Value.head_shows hv hdrop) (Value.nul_notMem_shown hv)), settingsFrom_unknown hinside
      (v.insideTokens_texts hv hdrop) hunknown (by omega), applyMember, hfind]
    congr 1
    omega
  | @address ws items hflat hsix =>
    rw [Value.Valid] at hv
    have hopen : json.drop pos = [openChar false] ++
        (ws ++ (items.text true ++ ([closeChar false] ++ rest))) := by
      rw [hdrop, Value.text]
      simp
    have hshows := items.flat_shows hv.2 hflat _ true _ (drop_append (drop_append hopen))
    have hlength : ((Value.container false ws items).insideTokens pos).length = items.length := by
      refine Eq.trans hshows.length_eq ?_
      rw [List.length_map, items.length_members]
    have hloop := octetLoop_shows (k := k) (p := p) (j := 0) hinside hshows
      (by rw [hlength]; omega)
    have hpass := pass_address (k := k) (p := p) ht hkey htype hhead
    have harray : ¬ ((Value.container false ws items).head pos).type ≠ .array :=
      not_not.mpr rfl
    rw [if_neg harray] at hpass
    have hsize : ((Value.container false ws items).head pos).size = items.length := rfl
    have happly : applyMember k p (macAddrKey, .container false ws items) =
        setOctets k (items.members.map fun m => m.2.shown) 0 p := by
      rw [applyMember, find_settings_eq_none.mpr macAddrKey_notMem]
      dsimp only
      rw [if_pos rfl]
      rfl
    rw [hlength] at hloop hn ⊢
    rw [hsize, hloop] at hpass
    rw [settingsFrom_step (by omega) hpass, happly]
    congr 1
    omega
  | noAddress harray hunknown =>
    have hnot : (v.head pos).type ≠ .array := by
      cases v with
      | primitive text => intro h; cases h
      | string body => intro h; cases h
      | container object ws items =>
        cases object with
        | true => intro h; cases h
        | false => cases harray
    have happly : applyMember k p (macAddrKey, v) = p := by
      rw [applyMember, find_settings_eq_none.mpr macAddrKey_notMem]
      dsimp only
      rw [if_pos rfl]
      cases v with
      | primitive text => rfl
      | string body => rfl
      | container object ws items =>
        cases object with
        | true => rfl
        | false => cases harray
    have hpass := pass_address (k := k) (p := p) ht hkey htype hhead
    rw [if_pos hnot] at hpass
    rw [settingsFrom_step (by omega) hpass, hpassed hunknown, happly]
  | unknown hnot hunknown =>
    have hpass : settingPass k json toks i p = some (i + 1, p) :=
      @pass_unknown _ _ _ _ _ _ [key] ht ⟨key, hkey, hnul, fun _ => List.mem_singleton_self _⟩
        fun s hs => (by rw [List.mem_singleton.mp hs]; exact hnot)
    have happly : applyMember k p (key, v) = p := by
      rw [applyMember, find_settings_eq_none.mpr fun hmem => hnot (List.mem_cons_of_mem _ hmem)]
      dsimp only
      exact if_neg fun heq : key = macAddrKey => hnot (heq ▸ List.mem_cons_self)
    rw [settingsFrom_step (by omega) hpass, hpassed hunknown, happly]

/-- The members that are left are taken in their order. -/
theorem settingsFrom_items : ∀ items : Items, items.Valid true →
    (∀ m ∈ items.members, Proper m) → ∀ (i pos : ℕ) (first : Bool) (rest : List Char)
      (p : PlatformInfo), json.drop pos = items.text first ++ rest →
      toks.drop i = items.tokens pos first → i + (items.tokens pos first).length ≤ n →
      settingsFrom k json toks n i p =
        settingsFrom k json toks n (i + (items.tokens pos first).length)
          (items.members.foldl (applyMember k) p)
  | .nil, hv, hproper, i, pos, first, rest, p, hdrop, htoks, hn => by
    rw [Items.tokens]
    rfl
  | .cons before key value after items, hv, hproper, i, pos, first, rest, p, hdrop, htoks, hn => by
    rw [Items.Valid] at hv
    obtain ⟨-, hsome, hkey, hvalue, -, hitems⟩ := hv
    obtain ⟨key, rfl⟩ := Option.isSome_iff_exists.mp hsome
    have hseparator : json.drop pos = separator first ++ (before ++ (keyText (some key) ++
        (value.text ++ (after ++ (items.text false ++ rest))))) := by
      rw [hdrop, Items.text]
      simp
    have hatKey := drop_append (drop_append hseparator)
    have hatValue := drop_append hatKey
    rw [Items.tokens, keyTokens, List.append_assoc] at htoks
    rw [Items.tokens, keyTokens, List.append_assoc, List.length_append, List.length_singleton,
      List.length_append] at hn ⊢
    have hmember := settingsFrom_member (k := k) (p := p) (n := n) hvalue
      (hproper (key.body, value) List.mem_cons_self) (nul_notMem_body (hkey key rfl).body)
      (key_shows hatKey) rfl hatValue htoks (by omega)
    rw [hmember]
    have hrest := (getElem?_of_drop_cons htoks).2
    have hrun := settingsFrom_items items hitems
      (fun m hm => hproper m (List.mem_cons_of_mem _ hm)) _ _ false _
      (applyMember k p (key.body, value)) (drop_append (drop_append hatValue)) (drop_append hrest)
    rw [hrun (by omega), Items.members, List.foldl_cons]
    congr 1
    omega

/-! ## Configuration files -/

theorem length_keyTokens (pos : ℕ) (key : Option Key) :
    (keyTokens pos key).length ≤ (keyText key).length := by
  cases key with
  | none => exact le_rfl
  | some key =>
    simp only [keyTokens, keyText, Key.text, List.length_cons, List.length_nil,
      List.length_append]
    omega

mutual

/-- A value has no more tokens than characters. -/
theorem Value.length_tokens (pos : ℕ) :
    ∀ v : Value, v.Valid → (v.tokens pos).length ≤ v.text.length
  | .primitive text, hv => by
    obtain ⟨c, cs, htext⟩ := Value.text_cons hv
    rw [Value.tokens, htext, List.length_cons, List.length_cons]
    exact Nat.succ_le_succ (Nat.zero_le _)
  | .string body, hv => by
    rw [Value.tokens, Value.text]
    simp
  | .container object ws items, hv => by
    rw [Value.Valid] at hv
    have hitems := Items.length_tokens (pos + 1 + ws.length) items true hv.2
    simp only [Value.tokens, Value.text, List.length_cons, List.length_append]
    omega

theorem Items.length_tokens (pos : ℕ) {object : Bool} : ∀ (items : Items) (first : Bool),
    items.Valid object → (items.tokens pos first).length ≤ (items.text first).length
  | .nil, first, hv => by
    rw [Items.tokens, Items.text]
    exact le_rfl
  | .cons before key value after items, first, hv => by
    rw [Items.Valid] at hv
    obtain ⟨-, -, -, hvalue, -, hitems⟩ := hv
    have hkeyLength := length_keyTokens (pos + (separator first).length + before.length) key
    have hvalueLength := Value.length_tokens
      (pos + (separator first).length + before.length + (keyText key).length) value hvalue
    have hitemsLength := Items.length_tokens (pos + (separator first).length + before.length +
      (keyText key).length + value.text.length + after.length) items false hitems
    simp only [Items.tokens, Items.text, List.length_append]
    omega

end

/-- A configuration file in which no other string is taken for a key sets what its members say, in
their order; no token outside the array and no character outside the file is read. -/
theorem onicGetPlatformInfo_document {ws₀ ws ws' : List Char} {items : Items}
    (hv : (Value.container true ws₀ items).Valid) (hws : IsSpace ws) (hws' : IsSpace ws')
    (hsize : ((Value.container true ws₀ items).document ws ws').length < 2 ^ 16)
    (hproper : ∀ m ∈ items.members, Proper m) (k : Kstrto) (p : PlatformInfo) :
    onicGetPlatformInfo k (.ok ((Value.container true ws₀ items).document ws ws')) true p =
      some (0, items.members.foldl (applyMember k) p) := by
  set v := Value.container true ws₀ items with hvdef
  have htokens := v.length_tokens ws.length hv
  have hlength : (v.document ws ws').length = ws.length + (v.text.length + ws'.length) := by
    rw [Value.document, List.length_append, List.length_append]
  have hlt : (v.tokens ws.length).length < 2 ^ 16 := by omega
  have hcounted : numTokens (jsmnParse (v.document ws ws') none {}) =
      (v.tokens ws.length).length := by
    rw [numTokens, count_document hv hws hws']
    exact Nat.mod_eq_of_lt hlt
  have hparsed := parse_document hv hws hws' le_rfl
  have hnum : numTokens ((.ok (v.tokens ws.length).length, v.parsed ws ws') : JsmnResult) =
      (v.tokens ws.length).length := Nat.mod_eq_of_lt hlt
  have htoks : v.tokens ws.length = v.head ws.length :: v.insideTokens ws.length :=
    v.tokens_eq ws.length
  have hpos : ¬ (v.tokens ws.length).length < 1 := by
    rw [htoks, List.length_cons]
    omega
  have hroot : (v.tokens ws.length)[0]?.map Jsmntok.type = some .object := by
    rw [htoks]
    rfl
  have hall : (v.parsed ws ws').toks ++
      List.replicate ((v.tokens ws.length).length - (v.parsed ws ws').toks.length)
        ({} : Jsmntok) = v.tokens ws.length := by
    have hself : (v.tokens ws.length).length - (v.parsed ws ws').toks.length = 0 := Nat.sub_self _
    rw [hself]
    exact List.append_nil _
  have hopen : (v.document ws ws').drop ws.length = [openChar true] ++
      (ws₀ ++ (items.text true ++ ([closeChar true] ++ ws'))) := by
    rw [Value.document, List.drop_left, hvdef, Value.text]
    simp
  have hv' := hv
  rw [hvdef, Value.Valid] at hv'
  have hend : 1 + (items.tokens (ws.length + [openChar true].length + ws₀.length) true).length =
      (v.tokens ws.length).length := by
    rw [htoks, List.length_cons, Nat.add_comm]
    rfl
  have hrun := @settingsFrom_items k (v.document ws ws') (v.tokens ws.length)
    (v.tokens ws.length).length items hv'.2 hproper 1 _ true _ p
    (drop_append (drop_append hopen)) (by rw [htoks]; rfl) hend.le
  rw [settingsFrom_end hend.ge] at hrun
  have hloop : settingLoop k (v.document ws ws') (v.tokens ws.length) (v.tokens ws.length).length
      (v.tokens ws.length).length 1 p = some (items.members.foldl (applyMember k) p) := by
    rw [settingLoop_eq (Nat.sub_le _ _), hrun]
  unfold onicGetPlatformInfo
  dsimp only
  rw [Nat.mod_eq_of_lt hsize, List.take_length, hcounted, if_neg hpos, hparsed, hnum, hall, hroot,
    hloop]
  rw [if_neg (by simp), if_neg (by simp [hpos])]
  rfl

theorem StringBody.of_all {cs : List Char}
    (h : (cs.all fun c => c ≠ nul ∧ c ≠ '"' ∧ c ≠ '\\') = true) : StringBody cs := by
  induction cs with
  | nil => exact .nil
  | cons c cs ih =>
    rw [List.all_cons, Bool.and_eq_true] at h
    obtain ⟨hnul, hquote, hslash⟩ := of_decide_eq_true h.1
    exact .plain hnul hquote hslash (ih h.2)

/-- Two octets of an address after the number of a register bar. -/
def smallMembers : Items :=
  .cons [] (some ⟨"qdma_bar".toList, [], [' ']⟩) (.primitive ['2']) []
    (.cons [' '] (some ⟨macAddrKey, [], []⟩)
      (.container false []
        (.cons [] none (.string ['0', 'a']) []
          (.cons [] none (.string ['3', '5']) [] .nil))) ['\n'] .nil)

theorem onicGetPlatformInfo_document_small :
    onicGetPlatformInfo kernelKstrto
      (.ok ((Value.container true [] smallMembers).document [] ['\n'])) true {} =
        some (0, { qdmaBar := 2, macAddr := #v[0x0a, 0x35, 0, 0, 0, 0] }) := by
  have hvalid : (Value.container true [] smallMembers).Valid := by
    refine ⟨by decide, by decide, rfl, ?_, ?_, by decide, by decide, rfl, ?_, ⟨by decide, by decide,
      rfl, ?_, ?_, by decide, by decide, rfl, ?_, ?_, by decide, trivial⟩, by decide, trivial⟩
    · rintro key ⟨⟩
      exact ⟨.of_all (by decide), by decide, by decide⟩
    · exact (by decide : PrimitiveText ['2'])
    · rintro key ⟨⟩
      exact ⟨.of_all (by decide), by decide, by decide⟩
    · rintro key ⟨⟩
    · exact (.of_all (by decide) : StringBody ['0', 'a'])
    · rintro key ⟨⟩
    · exact (.of_all (by decide) : StringBody ['3', '5'])
  have hproper : ∀ m ∈ smallMembers.members, Proper m := by
    intro m hm
    simp only [smallMembers, Items.members, List.mem_cons, List.not_mem_nil, or_false] at hm
    rcases hm with rfl | rfl
    · exact .setting (by decide) (by decide)
    · exact .address (by decide) (by decide)
  refine (onicGetPlatformInfo_document hvalid (by decide) (by decide) (by decide) hproper
    kernelKstrto {}).trans ?_
  decide

end OnicDriver.Json
