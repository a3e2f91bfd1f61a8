import OnicDriver.Json.Tokens

/-!
# Documents

The tokens of a well-formed text are those of the document that it writes, with
any white space between its parts. An item of an object has a key, which counts
its value as a child; the object counts the keys.
-/

namespace OnicDriver.Json

open Lib

/-! ## Documents and their texts -/

/-- The key of an item with the white space up to its value. -/
structure Key where
  body : List Char
  beforeColon : List Char
  afterColon : List Char
  deriving DecidableEq, Repr

mutual

/-- A value with its layout. -/
inductive Value
  | primitive (text : List Char)
  | string (body : List Char)
  | container (object : Bool) (ws : List Char) (items : Items)

/-- The items of an array or an object. -/
inductive Items
  | nil
  | cons (before : List Char) (key : Option Key) (value : Value) (after : List Char) (rest : Items)

end

/-- The text of a key. -/
def Key.text (key : Key) : List Char :=
  '"' :: key.body ++ '"' :: key.beforeColon ++ ':' :: key.afterColon

/-- The text of a key, if there is one. -/
def keyText : Option Key → List Char
  | none => []
  | some key => key.text

/-- The comma before an item that is not the first one. -/
def separator (first : Bool) : List Char := if first then [] else [',']

mutual

/-- The text of a value. -/
def Value.text : Value → List Char
  | .primitive text => text
  | .string body => '"' :: body ++ ['"']
  | .container object ws items =>
    openChar object :: ws ++ (items.text true ++ [closeChar object])

/-- The text of the items that are left. -/
def Items.text : Items → Bool → List Char
  | .nil, _ => []
  | .cons before key value after rest, first =>
    separator first ++ before ++ keyText key ++ value.text ++ after ++ rest.text false

end

/-- The number of items. -/
def Items.length : Items → ℕ
  | .nil => 0
  | .cons _ _ _ _ rest => rest.length + 1

/-- The token of a key at a position. -/
def keyTokens (pos : ℕ) : Option Key → List Jsmntok
  | none => []
  | some key => [⟨.string, pos + 1, (pos + 1 + key.body.length : ℕ), 1⟩]

mutual

/-- The tokens of a value at a position. -/
def Value.tokens (pos : ℕ) : Value → List Jsmntok
  | .primitive text => [⟨.primitive, pos, (pos + text.length : ℕ), 0⟩]
  | .string body => [⟨.string, pos + 1, (pos + 1 + body.length : ℕ), 0⟩]
  | .container object ws items =>
    ⟨containerType object, pos, (pos + (Value.container object ws items).text.length : ℕ),
      items.length⟩ :: items.tokens (pos + 1 + ws.length) true

/-- The tokens of the items that are left. -/
def Items.tokens (pos : ℕ) : Items → Bool → List Jsmntok
  | .nil, _ => []
  | .cons before key value after rest, first =>
    let atKey := pos + (separator first).length + before.length
    let atValue := atKey + (keyText key).length
    keyTokens atKey key ++ value.tokens atValue ++
      rest.tokens (atValue + value.text.length + after.length) false

end

/-! ## Well-formed documents -/

/-- White space. -/
def IsSpace (ws : List Char) : Prop := ∀ c ∈ ws, charCase c = .space

instance (ws : List Char) : Decidable (IsSpace ws) :=
  List.decidableBAll (fun c => charCase c = .space) ws

/-- A well-formed key. -/
structure Key.Valid (key : Key) : Prop where
  body : StringBody key.body
  beforeColon : IsSpace key.beforeColon
  afterColon : IsSpace key.afterColon

mutual

/-- A well-formed value. -/
def Value.Valid : Value → Prop
  | .primitive text => PrimitiveText text
  | .string body => StringBody body
  | .container object ws items => IsSpace ws ∧ items.Valid object

/-- Well-formed items of an object or an array. -/
def Items.Valid (object : Bool) : Items → Prop
  | .nil => True
  | .cons before key value after rest =>
    IsSpace before ∧ key.isSome = object ∧ (∀ k ∈ key, k.Valid) ∧ value.Valid ∧ IsSpace after ∧
      rest.Valid object

end

/-! ## Passes over parts of a document -/

variable {js rest : List Char} {p q : JsmnParser} {n count pos : ℕ} {t : Jsmntok}

theorem getElem?_of_drop {c : Char} (h : js.drop pos = c :: rest) : js[pos]? = some c := by
  rw [← List.head?_drop, h]
  rfl

theorem drop_append {α : Type*} {l text rest : List α} {pos : ℕ} (h : l.drop pos = text ++ rest) :
    l.drop (pos + text.length) = rest := by
  rw [← List.drop_drop, h, List.drop_left]

/-- White space is skipped. -/
theorem parse_space {ws : List Char} (hws : IsSpace ws) (h : js.drop p.pos = ws ++ rest) :
    parseFrom js (some n) p count =
      parseFrom js (some n) { p with pos := p.pos + ws.length } count := by
  induction ws generalizing p with
  | nil => rfl
  | cons c ws ih =>
    have hc : charCase c = .space := hws c List.mem_cons_self
    have hne : c ≠ nul := by
      rintro rfl
      exact absurd hc (by decide)
    have hbody : jsmnBody js (some n) p (charCase c) = .ok (p, 0) := by
      rw [hc]
      rfl
    rw [parseFrom_step (getElem?_of_drop h) hne hbody, Nat.add_zero count,
      ih (p := { p with pos := p.pos + 1 }) (fun d hd => hws d (List.mem_cons_of_mem c hd))
        (@drop_append _ _ [c] _ _ h)]
    rw [List.length_cons]
    congr 2
    dsimp only
    omega

/-- A token that is read where there is room for it is added. -/
theorem parse_token {c : Char} {e : ℕ} (hc : js[p.pos]? = some c) (hne : c ≠ nul)
    (hread : tokenAt js p.pos (charCase c) = some (.ok (t, e))) (hroom : p.toks.length < n) :
    parseFrom js (some n) p count =
      parseFrom js (some n)
        { pos := e + 1
          toks := countChild p.toksuper p.toks ++ [t]
          toksuper := match charCase c with
            | .opening _ => some p.toks.length
            | _ => p.toksuper }
        (count + 1) := by
  have hadd : p.add (some n) t =
      some { p with toks := countChild p.toksuper p.toks ++ [t] } := if_neg (not_le.mpr hroom)
  have hbody := @jsmnBody_tokenAt _ (some n) _ _ _ hread
  unfold addRead at hbody
  dsimp only at hbody
  rw [hadd] at hbody
  rw [parseFrom_step hc hne hbody]
  congr 2
  cases charCase c with
  | opening type =>
    show some _ = some _
    rw [List.length_append, length_countChild]
    rfl
  | _ => rfl

theorem lastIdx_split {α : Type*} {f : α → Bool} {pre post : List α} {a : α} (ha : f a)
    (hpost : ∀ b ∈ post, f b = false) : lastIdx f (pre ++ a :: post) = some pre.length := by
  induction pre with
  | nil =>
    rw [List.nil_append]
    unfold lastIdx
    rw [lastIdx_eq_none.mpr hpost]
    dsimp only
    rw [if_pos ha]
    rfl
  | cons b pre ih =>
    rw [List.cons_append]
    unfold lastIdx
    rw [ih]
    rfl

theorem lastIdx_congr {α β : Type*} {f : α → Bool} {g : β → Bool} {l : List α} {m : List β}
    (h : l.map f = m.map g) : lastIdx f l = lastIdx g m := by
  induction l generalizing m with
  | nil =>
    cases m with
    | nil => rfl
    | cons b m => cases h
  | cons a l ih =>
    cases m with
    | nil => cases h
    | cons b m =>
      rw [List.map_cons, List.map_cons, List.cons.injEq] at h
      unfold lastIdx
      rw [ih h.2, h.1]

/-- Whether a token is open does not depend on its children. -/
theorem lastIdx_countChild (toksuper : Option ℕ) (toks : List Jsmntok) :
    lastIdx Jsmntok.isOpen (countChild toksuper toks) = lastIdx Jsmntok.isOpen toks := by
  have hopen : ∀ l : List Jsmntok,
      l.map Jsmntok.isOpen = (l.map Jsmntok.bare).map Jsmntok.isOpen := by
    intro l
    rw [List.map_map]
    rfl
  apply lastIdx_congr
  rw [hopen, map_bare_countChild, ← hopen]

/-! ## Tokens of a document -/

theorem isOpen_of_end (h : 0 ≤ t.end_) : t.isOpen = false := by
  have hne : (t.end_ == -1) = false := beq_eq_false_iff_ne.mpr (by omega)
  exact Bool.and_eq_false_iff.mpr (.inr hne)

theorem keyTokens_closed {key : Option Key} (ht : t ∈ keyTokens pos key) : t.isOpen = false := by
  cases key with
  | none => cases ht
  | some key =>
    rw [List.mem_singleton.mp ht]
    exact isOpen_of_end (Int.natCast_nonneg _)

mutual

/-- All tokens of a value are complete. -/
theorem Value.tokens_closed (pos : ℕ) : ∀ (v : Value), ∀ t ∈ v.tokens pos, t.isOpen = false
  | .primitive text, t, ht => by
    rw [Value.tokens, List.mem_singleton] at ht
    rw [ht]
    exact isOpen_of_end (Int.natCast_nonneg _)
  | .string body, t, ht => by
    rw [Value.tokens, List.mem_singleton] at ht
    rw [ht]
    exact isOpen_of_end (Int.natCast_nonneg _)
  | .container object ws items, t, ht => by
    rw [Value.tokens, List.mem_cons] at ht
    rcases ht with rfl | ht
    · exact isOpen_of_end (Int.natCast_nonneg _)
    · exact Items.tokens_closed _ items true t ht

theorem Items.tokens_closed (pos : ℕ) :
    ∀ (items : Items) (first : Bool), ∀ t ∈ items.tokens pos first, t.isOpen = false
  | .nil, first, t, ht => by
    rw [Items.tokens] at ht
    cases ht
  | .cons before key value after rest, first, t, ht => by
    rw [Items.tokens, List.mem_append, List.mem_append] at ht
    rcases ht with (ht | ht) | ht
    · exact keyTokens_closed ht
    · exact Value.tokens_closed _ value t ht
    · exact Items.tokens_closed _ rest false t ht

end

/-- The token above after a value. -/
def Value.superAfter (p : JsmnParser) : Value → Option ℕ
  | .container _ _ _ => lastIdx Jsmntok.isOpen p.toks
  | _ => p.toksuper

/-- The parser behind a value. -/
def Value.behind (v : Value) (p : JsmnParser) : JsmnParser where
  pos := p.pos + v.text.length
  toks := countChild p.toksuper p.toks ++ v.tokens p.pos
  toksuper := v.superAfter p

/-- What may follow a value: a primitive ends only where a delimiter comes. -/
def Value.Ends (rest : List Char) : Value → Prop
  | .primitive _ => ∀ c ∈ rest.head?, c = nul ∨ isDelimiter c
  | _ => True

/-- The run reads the items inside an open container. -/
structure Inside (p : JsmnParser) (first : Bool) (pre : List Jsmntok) (t : Jsmntok)
    (post : List Jsmntok) : Prop where
  toks : p.toks = pre ++ t :: post
  isOpen : t.isOpen
  isContainer : t.isContainer
  closed : ∀ u ∈ post, u.isOpen = false
  toksuper : p.toksuper = some pre.length ∨
    first = false ∧ ∃ j u, p.toksuper = some j ∧ p.toks[j]? = some u ∧ u.isContainer = false

/-- A comma goes back to the container. -/
theorem Inside.comma {pre post : List Jsmntok} {first : Bool} (h : Inside p first pre t post) :
    comma (some n) p = { p with toksuper := some pre.length } := by
  have hget : p.toks[pre.length]? = some t := by
    rw [h.toks]
    simp
  have hlast : lastIdx (fun t => t.isContainer && t.isOpen) p.toks = some pre.length := by
    rw [h.toks]
    refine lastIdx_split ?_ fun u hu => ?_
    · rw [h.isOpen, h.isContainer]
      rfl
    · rw [h.closed u hu, Bool.and_false]
  unfold Json.comma
  rw [if_neg (Option.some_ne_none n)]
  rcases h.toksuper with hsuper | ⟨-, j, u, hsuper, hu, hcontainer⟩
  · have hbind : (p.toksuper.bind fun i => p.toks[i]?) = some t := by
      rw [hsuper]
      exact hget
    rw [hbind, ← hsuper]
    dsimp only
    rw [if_pos h.isContainer]
  · have hbind : (p.toksuper.bind fun i => p.toks[i]?) = some u := by
      rw [hsuper]
      exact hu
    rw [hbind]
    dsimp only
    rw [hcontainer, hlast]
    rfl

/-- An opening bracket. -/
theorem parse_open {object : Bool} {text : List Char}
    (h : js.drop p.pos = openChar object :: text) (hroom : p.toks.length < n) :
    parseFrom js (some n) p count =
      parseFrom js (some n)
        { pos := p.pos + 1
          toks := countChild p.toksuper p.toks ++ [⟨containerType object, p.pos, -1, 0⟩]
          toksuper := some p.toks.length }
        (count + 1) := by
  have hne : openChar object ≠ nul := by cases object <;> decide
  have hread : tokenAt js p.pos (charCase (openChar object)) =
      some (.ok (⟨containerType object, p.pos, -1, 0⟩, p.pos)) := by
    rw [charCase_openChar]
    rfl
  rw [parse_token (getElem?_of_drop h) hne hread hroom, charCase_openChar]

/-- A closing bracket. -/
theorem parse_close {object : Bool} {pre post : List Jsmntok} {first : Bool} {text : List Char}
    (h : js.drop p.pos = closeChar object :: text) (hin : Inside p first pre t post)
    (htype : t.type = containerType object) :
    parseFrom js (some n) p count =
      parseFrom js (some n)
        { pos := p.pos + 1
          toks := pre ++ { t with end_ := p.pos + 1 } :: post
          toksuper := lastIdx Jsmntok.isOpen pre }
        count := by
  have hne : closeChar object ≠ nul := by cases object <;> decide
  have hclose : closeBracket (some n) p (containerType object) =
      .ok { p with
        toks := pre ++ { t with end_ := p.pos + 1 } :: post
        toksuper := lastIdx Jsmntok.isOpen pre } := by
    refine closeBracket_some.mpr ⟨pre.length, t, ?_, ?_, htype, ?_⟩
    · rw [hin.toks]
      exact lastIdx_split hin.isOpen hin.closed
    · rw [hin.toks]
      simp
    · rw [hin.toks, modify_append, List.take_left]
  have hbody : jsmnBody js (some n) p (charCase (closeChar object)) =
      .ok ({ p with
        toks := pre ++ { t with end_ := p.pos + 1 } :: post
        toksuper := lastIdx Jsmntok.isOpen pre }, 0) := by
    rw [charCase_closeChar, jsmnBody, hclose]
    rfl
  rw [parseFrom_step (getElem?_of_drop h) hne hbody]
  rfl

/-- A string. -/
theorem parse_string {body : List Char} (hbody : StringBody body)
    (h : js.drop p.pos = '"' :: body ++ '"' :: rest) (hroom : p.toks.length < n) :
    parseFrom js (some n) p count =
      parseFrom js (some n)
        { p with
          pos := p.pos + (body.length + 2)
          toks := countChild p.toksuper p.toks ++
            [⟨.string, p.pos + 1, (p.pos + 1 + body.length : ℕ), 0⟩] }
        (count + 1) := by
  have hdrop : js.drop (p.pos + 1) = body ++ '"' :: rest := @drop_append _ _ ['"'] _ _ h
  have hread : tokenAt js p.pos (charCase '"') =
      some (.ok (⟨.string, p.pos + 1, (p.pos + 1 + body.length : ℕ), 0⟩,
        p.pos + 1 + body.length)) := by
    show some _ = some _
    rw [hdrop, stringEnd_eq hbody]
    rfl
  rw [parse_token (getElem?_of_drop h) (by decide) hread hroom]
  congr 2
  omega

/-- A primitive. -/
theorem parse_primitive {text : List Char} (htext : PrimitiveText text)
    (h : js.drop p.pos = text ++ rest) (hrest : ∀ c ∈ rest.head?, c = nul ∨ isDelimiter c)
    (hroom : p.toks.length < n) :
    parseFrom js (some n) p count =
      parseFrom js (some n)
        { p with
          pos := p.pos + text.length
          toks := countChild p.toksuper p.toks ++
            [⟨.primitive, p.pos, (p.pos + text.length : ℕ), 0⟩] }
        (count + 1) := by
  obtain ⟨hplain, c, hhead, hother⟩ := htext
  obtain ⟨cs, rfl⟩ : ∃ cs, text = c :: cs := by
    cases text with
    | nil => cases hhead
    | cons d cs =>
      cases hhead
      exact ⟨cs, rfl⟩
  have hne : c ≠ nul := by
    rintro rfl
    exact absurd (hplain nul List.mem_cons_self) (by decide)
  have hread : tokenAt js p.pos (charCase c) =
      some (.ok (⟨.primitive, p.pos, (p.pos + (c :: cs).length : ℕ), 0⟩,
        p.pos + (c :: cs).length - 1)) := by
    rw [hother]
    show some _ = some _
    rw [h, primitiveEnd_eq hplain hrest]
  rw [parse_token (getElem?_of_drop h) hne hread hroom, hother]
  congr 2

/-- A colon. -/
theorem parse_colon (h : js.drop p.pos = ':' :: rest) (hne : p.toks ≠ []) :
    parseFrom js (some n) p count =
      parseFrom js (some n)
        { p with pos := p.pos + 1, toksuper := some (p.toks.length - 1) } count := by
  have hbody : jsmnBody js (some n) p (charCase ':') =
      .ok ({ p with toksuper := some (p.toks.length - 1) }, 0) := by
    show Except.ok _ = Except.ok _
    rw [if_neg hne]
  rw [parseFrom_step (getElem?_of_drop h) (by decide) hbody]
  rfl

/-- The comma before an item, if there is one. -/
theorem parse_separator {first : Bool} {pre post : List Jsmntok} (hin : Inside p first pre t post)
    (h : js.drop p.pos = separator first ++ rest) :
    parseFrom js (some n) p count =
      parseFrom js (some n)
        { p with
          pos := p.pos + (separator first).length
          toksuper := some pre.length } count := by
  cases first with
  | true =>
    obtain hsuper | ⟨hfirst, -⟩ := hin.toksuper
    · rw [← hsuper]
      rfl
    · cases hfirst
  | false =>
    have hbody : jsmnBody js (some n) p (charCase ',') =
        .ok ({ p with toksuper := some pre.length }, 0) := by
      show Except.ok _ = Except.ok _
      rw [hin.comma]
    rw [parseFrom_step (getElem?_of_drop h) (by decide) hbody]
    rfl

/-- A key with its colon. -/
theorem parse_key {key : Key} (hkey : key.Valid) (h : js.drop p.pos = key.text ++ rest)
    (hroom : p.toks.length < n) :
    parseFrom js (some n) p count =
      parseFrom js (some n)
        { pos := p.pos + key.text.length
          toks := countChild p.toksuper p.toks ++
            [⟨.string, p.pos + 1, (p.pos + 1 + key.body.length : ℕ), 0⟩]
          toksuper := some p.toks.length } (count + 1) := by
  have htext : key.text =
      ('"' :: key.body ++ ['"']) ++ (key.beforeColon ++ ([':'] ++ key.afterColon)) := by
    simp [Key.text]
  rw [htext, List.append_assoc] at h
  have hstring : js.drop p.pos = '"' :: key.body ++ '"' ::
      (key.beforeColon ++ ([':'] ++ key.afterColon) ++ rest) := by
    rw [h]
    simp
  have h₁ := drop_append h
  rw [List.append_assoc] at h₁
  have h₂ := drop_append h₁
  rw [List.append_assoc] at h₂
  have h₃ := drop_append h₂
  have hlength : ('"' :: key.body ++ ['"']).length = key.body.length + 2 := by simp
  rw [hlength] at h₁ h₂ h₃
  rw [parse_string hkey.body hstring hroom, parse_space hkey.beforeColon h₁,
    parse_colon h₂ (by simp), parse_space hkey.afterColon h₃]
  congr 2
  · rw [htext]
    simp
    omega
  · simp

/-- The characters between a value and the next one, or the bracket, end a primitive. -/
theorem isDelimiter_space {c : Char} (h : charCase c = .space) : isDelimiter c := by
  unfold charCase at h
  repeat' split at h
  all_goals try cases h
  rename_i hc
  rcases hc with rfl | rfl | rfl | rfl <;> decide

theorem Items.text_head {items : Items} {tail : List Char}
    (htail : ∀ c ∈ tail.head?, isDelimiter c) :
    ∀ c ∈ (items.text false ++ tail).head?, isDelimiter c := by
  cases items with
  | nil => exact htail
  | cons before key value after rest =>
    intro c hc
    rw [Items.text] at hc
    cases hc
    decide

theorem countChild_split (pre : List Jsmntok) (t : Jsmntok) (post : List Jsmntok) :
    countChild (some pre.length) (pre ++ t :: post) =
      pre ++ { t with size := t.size + 1 } :: post := modify_append ..

/-- A value that the run reads behind any parser. -/
def Reads (js : List Char) (n : ℕ) (v : Value) : Prop :=
  ∀ (p : JsmnParser) (count : ℕ) (rest : List Char), js.drop p.pos = v.text ++ rest →
    v.Ends rest → p.toks.length + (v.tokens p.pos).length ≤ n →
    parseFrom js (some n) p count =
      parseFrom js (some n) (v.behind p) (count + (v.tokens p.pos).length)

/-- The token of a key or a value after the values below it were counted. -/
theorem countChild_key (toks : List Jsmntok) (key : Key) (pos : ℕ) :
    countChild (some toks.length)
        (toks ++ [⟨.string, pos + 1, (pos + 1 + key.body.length : ℕ), 0⟩]) =
      toks ++ keyTokens pos (some key) := modify_append ..

/-- The part of an item up to its value. The value is then counted in the container or in the key,
which the container has counted already. -/
theorem parse_header {before : List Char} {key : Option Key} {first : Bool}
    {pre post : List Jsmntok} (hin : Inside p first pre t post) (hbefore : IsSpace before)
    (hkey : ∀ k ∈ key, k.Valid)
    (h : js.drop p.pos = separator first ++ (before ++ (keyText key ++ rest)))
    (hroom : p.toks.length + (keyTokens pos key).length ≤ n) :
    ∃ q, q.pos = p.pos + (separator first).length + before.length + (keyText key).length ∧
      countChild q.toksuper q.toks = pre ++ { t with size := t.size + 1 } :: (post ++
        keyTokens (p.pos + (separator first).length + before.length) key) ∧
      (q.toksuper = some pre.length ∨ q.toksuper = some p.toks.length ∧ key.isSome) ∧
      parseFrom js (some n) p count =
        parseFrom js (some n) q (count + (keyTokens pos key).length) := by
  have h₂ := drop_append h
  have h₃ := drop_append h₂
  have hspace : parseFrom js (some n) p count = parseFrom js (some n)
      { pos := p.pos + (separator first).length + before.length
        toks := p.toks, toksuper := some pre.length } count := by
    rw [parse_separator hin h, parse_space hbefore h₂]
  have hcount : countChild (some pre.length) p.toks =
      pre ++ { t with size := t.size + 1 } :: post := by
    rw [hin.toks, countChild_split]
  cases key with
  | none =>
    refine ⟨_, rfl, ?_, .inl rfl, hspace⟩
    dsimp only
    rw [hcount, keyTokens, List.append_nil]
  | some key =>
    rw [parse_key (p := { pos := p.pos + (separator first).length + before.length
                          toks := p.toks, toksuper := some pre.length }) (hkey key rfl) h₃ hroom]
      at hspace
    refine ⟨_, rfl, ?_, .inr ⟨rfl, rfl⟩, hspace⟩
    have hlength : p.toks.length = (countChild (some pre.length) p.toks).length :=
      (length_countChild _ _).symm
    dsimp only
    rw [hlength, countChild_key, hcount]
    simp

/-- An item that is read leaves the parser inside its container. -/
theorem parse_item {before after : List Char} {key : Option Key} {value : Value} {first : Bool}
    {pre post : List Jsmntok} (hin : Inside p first pre t post) (hbefore : IsSpace before)
    (hkey : ∀ k ∈ key, k.Valid) (hvalue : Reads js n value) (hafter : IsSpace after)
    (h : js.drop p.pos =
      separator first ++ (before ++ (keyText key ++ (value.text ++ (after ++ rest)))))
    (hends : value.Ends (after ++ rest)) {atKey atValue : ℕ}
    (hatKey : atKey = p.pos + (separator first).length + before.length)
    (hatValue : atValue = atKey + (keyText key).length)
    (hroom : p.toks.length + (keyTokens atKey key ++ value.tokens atValue).length ≤ n) :
    ∃ q, q.pos = atValue + value.text.length + after.length ∧
      Inside q false pre { t with size := t.size + 1 }
        (post ++ (keyTokens atKey key ++ value.tokens atValue)) ∧
      parseFrom js (some n) p count =
        parseFrom js (some n) q
          (count + (keyTokens atKey key ++ value.tokens atValue).length) := by
  have hroomKey : p.toks.length + (keyTokens atKey key).length ≤ n := by
    rw [List.length_append] at hroom
    omega
  obtain ⟨q, hpos, hcount, hsuper, hrun⟩ :=
    @parse_header _ _ _ _ count _ _ _ _ _ _ _ hin hbefore hkey h hroomKey
  rw [← hatKey] at hpos hcount
  rw [← hatValue] at hpos
  have hlength : q.toks.length = p.toks.length + (keyTokens atKey key).length := by
    rw [← length_countChild q.toksuper, hcount, hin.toks]
    simp only [List.length_append, List.length_cons]
    omega
  have hdrop : js.drop q.pos = value.text ++ (after ++ rest) := by
    rw [hpos, hatValue, hatKey]
    exact drop_append (drop_append (drop_append h))
  have hread := hvalue q (count + (keyTokens atKey key).length) _ hdrop hends
    (by rw [hpos, hlength]; rw [List.length_append] at hroom; omega)
  rw [parse_space (p := value.behind q) hafter (drop_append hdrop)] at hread
  have hclosed : ∀ u ∈ post ++ (keyTokens atKey key ++ value.tokens atValue), u.isOpen = false := by
    intro u hu
    simp only [List.mem_append] at hu
    rcases hu with hu | hu | hu
    · exact hin.closed u hu
    · exact keyTokens_closed hu
    · exact value.tokens_closed atValue u hu
  have htoks : (value.behind q).toks = pre ++ { t with size := t.size + 1 } ::
      (post ++ (keyTokens atKey key ++ value.tokens atValue)) := by
    show countChild q.toksuper q.toks ++ value.tokens q.pos = _
    rw [hcount, hpos]
    simp
  have hlast : lastIdx Jsmntok.isOpen q.toks = some pre.length := by
    rw [← lastIdx_countChild q.toksuper, hcount]
    refine lastIdx_split hin.isOpen fun u hu => ?_
    rcases List.mem_append.mp hu with hu | hu
    · exact hin.closed u hu
    · exact keyTokens_closed hu
  have hkeySuper : q.toksuper = some p.toks.length → key.isSome →
      ∃ j u, q.toksuper = some j ∧ (value.behind q).toks[j]? = some u ∧ u.isContainer = false := by
    intro hat hsome
    obtain ⟨k, rfl⟩ := Option.isSome_iff_exists.mp hsome
    refine ⟨_, ⟨.string, atKey + 1, (atKey + 1 + k.body.length : ℕ), 1⟩, hat, ?_, ?_⟩
    · rw [htoks, hin.toks]
      simp [keyTokens]
    · rfl
  refine ⟨{ value.behind q with pos := (value.behind q).pos + after.length }, ?_,
    ⟨htoks, hin.isOpen, hin.isContainer, hclosed, ?_⟩, ?_⟩
  · show q.pos + value.text.length + after.length = _
    rw [hpos]
  · show value.superAfter q = _ ∨ _ ∧ ∃ j u, value.superAfter q = _ ∧ _
    cases value with
    | container object ws items => exact .inl hlast
    | primitive text =>
      rcases hsuper with hsuper | ⟨hsuper, hsome⟩
      · exact .inl hsuper
      · exact .inr ⟨rfl, hkeySuper hsuper hsome⟩
    | string body =>
      rcases hsuper with hsuper | ⟨hsuper, hsome⟩
      · exact .inl hsuper
      · exact .inr ⟨rfl, hkeySuper hsuper hsome⟩
  · rw [hrun, hread, hpos, List.length_append]
    congr 1
    omega

theorem Value.ends_of_head {value : Value} {tail : List Char}
    (h : ∀ c ∈ tail.head?, isDelimiter c) : value.Ends tail := by
  cases value with
  | primitive text => exact fun c hc => .inr (h c hc)
  | string body => trivial
  | container object ws items => trivial

theorem head_space {ws tail : List Char} (hws : IsSpace ws)
    (htail : ∀ c ∈ tail.head?, isDelimiter c) : ∀ c ∈ (ws ++ tail).head?, isDelimiter c := by
  cases ws with
  | nil => exact htail
  | cons d ws =>
    intro c hc
    cases hc
    exact isDelimiter_space (hws d List.mem_cons_self)

mutual

/-- A well-formed value is read. -/
theorem Value.reads (n : ℕ) : ∀ v : Value, v.Valid → Reads js n v
  | .primitive text, hv => by
    intro p count rest h hends hroom
    rw [Value.Valid] at hv
    rw [Value.text] at h
    exact parse_primitive hv h hends hroom
  | .string body, hv => by
    intro p count rest h hends hroom
    rw [Value.Valid] at hv
    rw [Value.text] at h
    have h' : js.drop p.pos = '"' :: body ++ '"' :: rest := by
      rw [h]
      simp
    rw [parse_string hv h' hroom]
    simp [Value.behind, Value.text, Value.tokens, Value.superAfter]
  | .container object ws items, hv => by
    intro p count rest h hends hroom
    rw [Value.Valid] at hv
    obtain ⟨hws, hitems⟩ := hv
    have h₁ : js.drop p.pos = [openChar object] ++
        (ws ++ (items.text true ++ ([closeChar object] ++ rest))) := by
      rw [h, Value.text]
      simp
    have h₂ := drop_append h₁
    have h₃ := drop_append h₂
    have h₄ := drop_append h₃
    rw [Value.tokens, List.length_cons] at hroom ⊢
    rw [parse_open h₁ (by omega), parse_space hws h₂]
    set inner : JsmnParser := {
      pos := p.pos + 1 + ws.length
      toks := countChild p.toksuper p.toks ++ [⟨containerType object, p.pos, -1, 0⟩]
      toksuper := some p.toks.length }
    have hin : Inside inner true (countChild p.toksuper p.toks)
        ⟨containerType object, p.pos, -1, 0⟩ [] := by
      have hbegun := (@Begun.container _ _ _ 0 (getElem?_of_drop h₁)).isOpen
      refine ⟨rfl, hbegun.1, hbegun.2, fun u hu => (by cases hu), .inl ?_⟩
      rw [length_countChild]
    have hclose : ∀ c ∈ ([closeChar object] ++ rest).head?, isDelimiter c := by
      intro c hc
      cases hc
      cases object <;> decide
    have hinner : inner.toks.length = p.toks.length + 1 := by simp [inner]
    obtain ⟨q, hpos, hq, hrun⟩ := Items.reads n items hitems _ _ _ _ _ (count + 1) _ hin h₃ hclose
      (by rw [hinner]; dsimp only [inner]; omega)
    have h₅ : js.drop q.pos = closeChar object :: rest := by
      rw [hpos]
      exact h₄
    rw [hrun, parse_close h₅ hq rfl]
    have hend : q.pos + 1 = p.pos + (Value.container object ws items).text.length := by
      rw [hpos, Value.text]
      simp only [inner, List.length_append, List.length_cons, List.length_nil]
      omega
    congr 1
    · unfold Value.behind Value.superAfter
      rw [Value.tokens, ← hend, lastIdx_countChild]
      dsimp only [inner]
      rw [Nat.zero_add, List.nil_append]
      push_cast
      rfl
    · dsimp only [inner]
      omega

/-- Well-formed items are read, and counted in their container. -/
theorem Items.reads (n : ℕ) {object : Bool} : ∀ items : Items, items.Valid object →
    ∀ (p : JsmnParser) (first : Bool) (pre post : List Jsmntok) (t : Jsmntok) (count : ℕ)
      (rest : List Char), Inside p first pre t post → js.drop p.pos = items.text first ++ rest →
      (∀ c ∈ rest.head?, isDelimiter c) →
      p.toks.length + (items.tokens p.pos first).length ≤ n →
      ∃ q, q.pos = p.pos + (items.text first).length ∧
        Inside q false pre { t with size := t.size + items.length }
          (post ++ items.tokens p.pos first) ∧
        parseFrom js (some n) p count =
          parseFrom js (some n) q (count + (items.tokens p.pos first).length)
  | .nil, hv => by
    intro p first pre post t count rest hin h hrest hroom
    refine ⟨p, ?_, ⟨?_, hin.isOpen, hin.isContainer, ?_, ?_⟩, ?_⟩
    · rw [Items.text]
      rfl
    · rw [Items.tokens, List.append_nil]
      exact hin.toks
    · rw [Items.tokens, List.append_nil]
      exact hin.closed
    · rcases hin.toksuper with hsuper | ⟨-, hsuper⟩
      · exact .inl hsuper
      · exact .inr ⟨rfl, hsuper⟩
    · rw [Items.tokens]
      rfl
  | .cons before key value after rest, hv => by
    intro p first pre post t count tail hin h htail hroom
    rw [Items.Valid] at hv
    obtain ⟨hbefore, -, hkey, hvalue, hafter, hrest⟩ := hv
    have hitem : js.drop p.pos = separator first ++ (before ++ (keyText key ++ (value.text ++
        (after ++ (rest.text false ++ tail))))) := by
      rw [h, Items.text]
      simp
    have hends : value.Ends (after ++ (rest.text false ++ tail)) :=
      Value.ends_of_head (head_space hafter (Items.text_head htail))
    rw [Items.tokens] at hroom ⊢
    rw [Items.text]
    rw [List.length_append] at hroom
    obtain ⟨q, hpos, hq, hrun⟩ := @parse_item _ _ _ _ count _ _ _ _ _ _ _ _ hin
      hbefore hkey (Value.reads n value hvalue) hafter hitem hends _ _ rfl rfl (by omega)
    have hdrop : js.drop q.pos = rest.text false ++ tail := by
      rw [hpos]
      exact drop_append (drop_append (drop_append (drop_append (drop_append hitem))))
    have hlength : q.toks.length = p.toks.length +
        (keyTokens (p.pos + (separator first).length + before.length) key ++
          value.tokens (p.pos + (separator first).length + before.length +
            (keyText key).length)).length := by
      rw [hq.toks, hin.toks]
      simp only [List.length_append, List.length_cons]
      omega
    obtain ⟨r, hposr, hr, hrunr⟩ := Items.reads n rest hrest _ _ _ _ _ _ _ hq hdrop htail
      (by rw [hlength, hpos]; omega)
    refine ⟨r, ?_, ?_, ?_⟩
    · rw [hposr, hpos]
      simp only [List.length_append]
      omega
    · rw [hpos] at hr
      have hsize : t.size + 1 + rest.length =
          t.size + (Items.cons before key value after rest).length := by
        rw [Items.length]
        omega
      dsimp only at hr
      rw [hsize, List.append_assoc] at hr
      exact hr
    · rw [hrun, hrunr, hpos]
      congr 1
      simp only [List.length_append]
      omega

end

/-! ## Whole texts -/

/-- The text of a document between white space. -/
def Value.document (v : Value) (ws ws' : List Char) : List Char := ws ++ (v.text ++ ws')

/-- The parser at the end of a document. -/
def Value.parsed (v : Value) (ws ws' : List Char) : JsmnParser where
  pos := (v.document ws ws').length
  toks := v.tokens ws.length

/-- A run with room for the tokens of a document gives them. -/
theorem parse_document {v : Value} (hv : v.Valid) {ws ws' : List Char} (hws : IsSpace ws)
    (hws' : IsSpace ws') (hroom : (v.tokens ws.length).length ≤ n) :
    jsmnParse (v.document ws ws') (some n) {} =
      (.ok (v.tokens ws.length).length, v.parsed ws ws') := by
  have h : (v.document ws ws').drop ({} : JsmnParser).pos = ws ++ (v.text ++ ws') := rfl
  have hstart : parseFrom (v.document ws ws') (some n) {} 0 =
      parseFrom (v.document ws ws') (some n) { pos := ws.length } 0 := by
    rw [parse_space hws h, Nat.zero_add]
  have hvalue : (v.document ws ws').drop ws.length = v.text ++ ws' := List.drop_left
  have hspace : (v.document ws ws').drop (v.behind { pos := ws.length }).pos = ws' ++ [] := by
    rw [List.append_nil]
    exact drop_append hvalue
  have hends : v.Ends ws' := by
    refine Value.ends_of_head ?_
    rw [← List.append_nil ws']
    exact head_space hws' fun c hc => (by cases hc)
  have hread := Value.reads n v hv { pos := ws.length } 0 ws' hvalue hends
    (by rw [List.length_nil, Nat.zero_add]; exact hroom)
  have hend : ws.length + v.text.length + ws'.length = (v.document ws ws').length := by
    simp only [Value.document, List.length_append]
    omega
  have hbehind : { v.behind { pos := ws.length } with
      pos := (v.behind { pos := ws.length }).pos + ws'.length } = v.parsed ws ws' := by
    show JsmnParser.mk (ws.length + v.text.length + ws'.length) _ _ = _
    rw [hend]
    cases v <;> rfl
  rw [jsmnParse_eq, List.length_nil, hstart, hread, parse_space hws' hspace, hbehind,
    parseFrom_finish, jsmnFinish, if_neg, Nat.zero_add]
  · show ¬ (_ ∧ (lastIdx Jsmntok.isOpen (v.tokens ws.length)).isSome)
    rw [lastIdx_eq_none.mpr (v.tokens_closed _)]
    rintro ⟨-, hnone⟩
    cases hnone
  · intro c hc
    rw [Value.parsed, List.getElem?_eq_none le_rfl] at hc
    cases hc

/-- A run without an array counts them. -/
theorem count_document {v : Value} (hv : v.Valid) {ws ws' : List Char} (hws : IsSpace ws)
    (hws' : IsSpace ws') :
    (jsmnParse (v.document ws ws') none {}).1 = .ok (v.tokens ws.length).length := by
  have hparse := parse_document hv hws hws' le_rfl
  have hcounted := @counted_parseFrom (v.document ws ws')
    (v.tokens ws.length).length {} 0 rfl (Nat.zero_le _)
  exact (hcounted.count _ (congrArg Prod.fst hparse)).1

/-- The two runs over a well-formed document: the first counts its tokens, and the second, with that
many or more, gives them. -/
theorem jsmnParse_document {v : Value} (hv : v.Valid) {ws ws' : List Char} (hws : IsSpace ws)
    (hws' : IsSpace ws') :
    (jsmnParse (v.document ws ws') none {}).1 = .ok (v.tokens ws.length).length ∧
      ∀ n, (v.tokens ws.length).length ≤ n →
        jsmnParse (v.document ws ws') (some n) {} =
          (.ok (v.tokens ws.length).length, v.parsed ws ws') :=
  ⟨count_document hv hws hws', fun _ hroom => parse_document hv hws hws' hroom⟩

/-- An object with one item, an array. -/
def smallDocument : Value :=
  .container true [' '] (.cons [] (some ⟨['a'], [], [' ']⟩)
    (.container false [] (.cons [] none (.primitive ['1']) [] .nil)) [] .nil)

theorem jsmnParse_document_small :
    (jsmnParse (smallDocument.document [] ['\n']) none {}).1 = .ok 4 ∧
      ∀ n, 4 ≤ n → jsmnParse (smallDocument.document [] ['\n']) (some n) {} =
        (.ok 4, smallDocument.parsed [] ['\n']) := by
  have hkey : StringBody ['a'] := .plain (by decide) (by decide) (by decide) .nil
  have hprimitive : PrimitiveText ['1'] := by decide
  refine @jsmnParse_document smallDocument ⟨by decide, by decide, rfl, ?_, ?_,
    by decide, trivial⟩ [] _ (by decide) (by decide)
  · rintro k ⟨⟩
    exact ⟨hkey, by decide, by decide⟩
  · exact ⟨by decide, by decide, rfl, fun k hk => (by cases hk), hprimitive, by decide, trivial⟩

end OnicDriver.Json
