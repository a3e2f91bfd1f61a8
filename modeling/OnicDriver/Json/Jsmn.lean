import OnicDriver.Lib.Format
import Mathlib.Data.Int.Basic

/-!
# The tokens of a configuration file

`jsmn` cuts a text into tokens without recursion: the open brackets are the
tokens that have no end yet. It runs twice, first without an array to count the
tokens and then with an array of that size. Positions do not wrap, since the
length of a file is a number of 16 bits.
-/

namespace OnicDriver.Json

open Lib

/-- `jsmntype_t`. -/
inductive Jsmntype
  | undefined
  | object
  | array
  | string
  | primitive
  deriving DecidableEq, Repr

/-- `enum jsmnerr`. -/
inductive Jsmnerr
  | nomem
  | inval
  | part
  deriving DecidableEq, Repr

/-- `jsmntok_t`. -/
structure Jsmntok where
  type : Jsmntype := .undefined
  start : ℤ := 0
  end_ : ℤ := 0
  size : ℕ := 0
  deriving DecidableEq, Repr

/-- The token was begun and has no end yet. -/
def Jsmntok.isOpen (t : Jsmntok) : Bool := t.start != -1 && t.end_ == -1

/-- The token is an object or an array. -/
def Jsmntok.isContainer (t : Jsmntok) : Bool := t.type == .object || t.type == .array

/-- `jsmn_parser`, with the tokens allocated so far in place of their number `toknext`. -/
structure JsmnParser where
  pos : ℕ := 0
  toks : List Jsmntok := []
  toksuper : Option ℕ := none
  deriving DecidableEq, Repr

/-- What a call returns: an error, or the number of tokens. -/
abbrev JsmnResult := Except Jsmnerr ℕ × JsmnParser

/-- The last element with a property. -/
def lastIdx {α : Type*} (p : α → Bool) : List α → Option ℕ
  | [] => none
  | a :: l =>
    match lastIdx p l with
    | some i => some (i + 1)
    | none => if p a then some 0 else none

/-- The token above gets one more child. -/
def countChild (toksuper : Option ℕ) (toks : List Jsmntok) : List Jsmntok :=
  match toksuper with
  | some i => toks.modify i fun t => { t with size := t.size + 1 }
  | none => toks

/-- `jsmn_alloc_token` and `jsmn_fill_token`, and the count in the token above. Without an array
nothing is allocated; the result is none if the array is full. -/
def JsmnParser.add (p : JsmnParser) (room : Option ℕ) (t : Jsmntok) : Option JsmnParser :=
  match room with
  | none => some p
  | some n =>
    if n ≤ p.toks.length then none
    else some { p with toks := countChild p.toksuper p.toks ++ [t] }

/-! ## Primitives and strings -/

/-- The characters that end a primitive. -/
def isDelimiter (c : Char) : Bool := c ∈ [':', '\t', '\r', '\n', ' ', ',', ']', '}']

/-- The loop of `jsmn_parse_primitive`: the position of the end, if no character is invalid. -/
def primitiveEnd : List Char → ℕ → Option ℕ
  | [], pos => some pos
  | c :: cs, pos =>
    if c = nul ∨ isDelimiter c then some pos
    else if c.toNat < 32 ∨ 127 ≤ c.toNat then none
    else primitiveEnd cs (pos + 1)

/-- The characters that may follow a backslash, apart from that of a code. -/
def isEscape (c : Char) : Bool := c ∈ ['"', '/', '\\', 'b', 'f', 'r', 'n', 't']

/-- A hexadecimal digit. -/
def isHexDigit (c : Char) : Bool :=
  48 ≤ c.toNat && c.toNat ≤ 57 || 65 ≤ c.toNat && c.toNat ≤ 70 || 97 ≤ c.toNat && c.toNat ≤ 102

/-- The loop of `jsmn_parse_string`: the position of the closing quote. The number is that of the
digits of a code that may still come. -/
def stringEnd : ℕ → List Char → ℕ → Except Jsmnerr ℕ
  | _, [], _ => .error .part
  | digits + 1, c :: cs, pos =>
    if c = nul then .error .part
    else if isHexDigit c then stringEnd digits cs (pos + 1)
    else .error .inval
  | 0, c :: cs, pos =>
    if c = nul then .error .part
    else if c = '"' then .ok pos
    else if c = '\\' then
      match cs with
      -- a backslash at the end of the text is skipped
      | [] => .error .part
      | d :: ds =>
        if isEscape d then stringEnd 0 ds (pos + 2)
        else if d = 'u' then stringEnd 4 ds (pos + 2)
        else .error .inval
    else stringEnd 0 cs (pos + 1)

/-- `jsmn_parse_primitive`. -/
def jsmnParsePrimitive (js : List Char) (room : Option ℕ) (p : JsmnParser) :
    Except Jsmnerr JsmnParser :=
  match primitiveEnd (js.drop p.pos) p.pos with
  | none => .error .inval
  | some pos =>
    match p.add room { type := .primitive, start := p.pos, end_ := pos } with
    | none => .error .nomem
    | some p => .ok { p with pos := pos - 1 }

/-- `jsmn_parse_string`. -/
def jsmnParseString (js : List Char) (room : Option ℕ) (p : JsmnParser) :
    Except Jsmnerr JsmnParser :=
  match stringEnd 0 (js.drop (p.pos + 1)) (p.pos + 1) with
  | .error e => .error e
  | .ok pos =>
    match p.add room { type := .string, start := p.pos + 1, end_ := pos } with
    | none => .error .nomem
    | some p => .ok { p with pos := pos }

/-! ## The loop over the text -/

/-- An opening bracket. -/
def openBracket (room : Option ℕ) (p : JsmnParser) (type : Jsmntype) :
    Except Jsmnerr JsmnParser :=
  match p.add room { type := type, start := p.pos, end_ := -1 } with
  | none => .error .nomem
  | some q => .ok (if room.isSome then { q with toksuper := some (q.toks.length - 1) } else q)

/-- A closing bracket ends the last open token, and the open token before it is the one above. -/
def closeBracket (room : Option ℕ) (p : JsmnParser) (type : Jsmntype) :
    Except Jsmnerr JsmnParser :=
  if room = none then .ok p
  else
    match lastIdx Jsmntok.isOpen p.toks with
    | none => .error .inval
    | some i =>
      if (p.toks[i]?.map Jsmntok.type) ≠ some type then .error .inval
      else
        .ok { p with
          toks := p.toks.modify i fun t => { t with end_ := p.pos + 1 }
          toksuper := lastIdx Jsmntok.isOpen (p.toks.take i) }

/-- A comma goes back from the value of a member to the object. -/
def comma (room : Option ℕ) (p : JsmnParser) : JsmnParser :=
  if room = none then p
  else
    match p.toksuper.bind (p.toks[·]?) with
    | some t =>
      if t.isContainer then p
      else
        match lastIdx (fun t => t.isContainer && t.isOpen) p.toks with
        | some i => { p with toksuper := some i }
        | none => p
    | none => p

/-- The cases of the switch of `jsmn_parse`. -/
inductive CharCase
  | opening (type : Jsmntype)
  | closing (type : Jsmntype)
  | quote
  | space
  | colon
  | comma
  | other
  deriving DecidableEq, Repr

/-- The case of a character. -/
def charCase (c : Char) : CharCase :=
  if c = '{' then .opening .object
  else if c = '[' then .opening .array
  else if c = '}' then .closing .object
  else if c = ']' then .closing .array
  else if c = '"' then .quote
  else if c = '\t' ∨ c = '\r' ∨ c = '\n' ∨ c = ' ' then .space
  else if c = ':' then .colon
  else if c = ',' then .comma
  else .other

/-- The body of the loop of `jsmn_parse`: the parser, and how many tokens there are more. -/
def jsmnBody (js : List Char) (room : Option ℕ) (p : JsmnParser) :
    CharCase → Except Jsmnerr (JsmnParser × ℕ)
  | .opening type => (openBracket room p type).map (·, 1)
  | .closing type => (closeBracket room p type).map (·, 0)
  | .quote => (jsmnParseString js room p).map (·, 1)
  | .space => .ok (p, 0)
  | .colon =>
    .ok ({ p with toksuper := if p.toks = [] then none else some (p.toks.length - 1) }, 0)
  | .comma => .ok (comma room p, 0)
  | .other => (jsmnParsePrimitive js room p).map (·, 1)

/-- The end of `jsmn_parse`: no bracket may be open. -/
def jsmnFinish (room : Option ℕ) (p : JsmnParser) (count : ℕ) : JsmnResult :=
  if room.isSome ∧ (lastIdx Jsmntok.isOpen p.toks).isSome then (.error .part, p) else (.ok count, p)

/-- The loop of `jsmn_parse`, of which every pass moves on by a character at least. -/
def jsmnLoop (js : List Char) (room : Option ℕ) : ℕ → JsmnParser → ℕ → JsmnResult
  | 0, p, count => jsmnFinish room p count
  | fuel + 1, p, count =>
    match js[p.pos]? with
    | none => jsmnFinish room p count
    | some c =>
      if c = nul then jsmnFinish room p count
      else
        match jsmnBody js room p (charCase c) with
        | .error e => (.error e, p)
        | .ok (q, more) => jsmnLoop js room fuel { q with pos := q.pos + 1 } (count + more)

/-- `jsmn_parse` with an array of `room` tokens, or without one. -/
def jsmnParse (js : List Char) (room : Option ℕ) (p : JsmnParser) : JsmnResult :=
  jsmnLoop js room (js.length - p.pos) p p.toks.length

/-! ## Passes of the loop -/

/-- `jsmn_parse` from a position in the middle of the text. -/
def parseFrom (js : List Char) (room : Option ℕ) (p : JsmnParser) (count : ℕ) : JsmnResult :=
  jsmnLoop js room (js.length - p.pos) p count

variable {js : List Char} {room : Option ℕ} {p q : JsmnParser} {c : Char} {count more : ℕ}

theorem jsmnParse_eq : jsmnParse js room p = parseFrom js room p p.toks.length := rfl

theorem jsmnLoop_finish (h : ∀ c, js[p.pos]? = some c → c = nul) (fuel : ℕ) :
    jsmnLoop js room fuel p count = jsmnFinish room p count := by
  cases fuel with
  | zero => rfl
  | succ fuel =>
    unfold jsmnLoop
    split
    · rfl
    · rename_i c hc
      rw [if_pos (h c hc)]

/-- The loop ends at the end of the text. -/
theorem parseFrom_finish (h : ∀ c, js[p.pos]? = some c → c = nul) :
    parseFrom js room p count = jsmnFinish room p count :=
  jsmnLoop_finish h _

theorem parseFrom_error (hc : js[p.pos]? = some c) (hne : c ≠ nul) {e : Jsmnerr}
    (h : jsmnBody js room p (charCase c) = .error e) :
    parseFrom js room p count = (.error e, p) := by
  have hlt : p.pos < js.length := (List.getElem?_eq_some_iff.mp hc).1
  unfold parseFrom
  obtain ⟨fuel, hfuel⟩ := Nat.exists_eq_succ_of_ne_zero (Nat.sub_ne_zero_of_lt hlt)
  rw [hfuel, jsmnLoop, hc]
  dsimp only
  rw [if_neg hne, h]

/-! ### Positions -/

theorem primitiveEnd_ge {cs : List Char} {pos e : ℕ} (h : primitiveEnd cs pos = some e) :
    pos ≤ e ∧ e ≤ pos + cs.length := by
  induction cs generalizing pos with
  | nil =>
    cases h
    exact ⟨le_rfl, le_rfl⟩
  | cons c cs ih =>
    unfold primitiveEnd at h
    split at h
    · cases h
      exact ⟨le_rfl, Nat.le_add_right _ _⟩
    · split at h
      · cases h
      · obtain ⟨hle, hend⟩ := ih h
        rw [List.length_cons]
        omega

theorem stringEnd_ge {digits : ℕ} {cs : List Char} {pos e : ℕ}
    (h : stringEnd digits cs pos = .ok e) : pos ≤ e ∧ e < pos + cs.length := by
  fun_induction stringEnd digits cs pos <;> simp_all <;> omega

/-- A character that is no case of its own ends no primitive. -/
theorem isDelimiter_of_other (h : charCase c = .other) : isDelimiter c = false := by
  unfold charCase at h
  simp only [isDelimiter, List.mem_cons, List.not_mem_nil, or_false, decide_eq_false_iff_not]
  rintro (rfl | rfl | rfl | rfl | rfl | rfl | rfl | rfl) <;> revert h <;> decide

/-- The brackets that open are those of objects and arrays. -/
theorem charCase_opening {type : Jsmntype} (h : charCase c = .opening type) :
    type = .object ∨ type = .array := by
  unfold charCase at h
  repeat' split at h
  all_goals cases h
  · exact .inl rfl
  · exact .inr rfl

/-- A primitive has a character. -/
theorem lt_primitiveEnd {pos e : ℕ} (hc : js[pos]? = some c) (hne : c ≠ nul)
    (hother : charCase c = .other) (h : primitiveEnd (js.drop pos) pos = some e) :
    pos < e ∧ e ≤ js.length := by
  obtain ⟨hlt, hget⟩ := List.getElem?_eq_some_iff.mp hc
  rw [List.drop_eq_getElem_cons hlt, hget] at h
  unfold primitiveEnd at h
  rw [isDelimiter_of_other hother, if_neg (by simpa using hne)] at h
  split at h
  · cases h
  · obtain ⟨hle, hend⟩ := primitiveEnd_ge h
    rw [List.length_drop] at hend
    omega

theorem JsmnParser.add_pos {t : Jsmntok} (h : p.add room t = some q) : q.pos = p.pos := by
  unfold JsmnParser.add at h
  split at h
  · cases h
    rfl
  · split at h <;> cases h
    rfl

theorem openBracket_pos {type : Jsmntype} (h : openBracket room p type = .ok q) :
    q.pos = p.pos := by
  unfold openBracket at h
  split at h <;> cases h
  rename_i r hadd
  have hpos := JsmnParser.add_pos hadd
  split <;> exact hpos

theorem closeBracket_pos {type : Jsmntype} (h : closeBracket room p type = .ok q) :
    q.pos = p.pos := by
  unfold closeBracket at h
  split at h
  · cases h
    rfl
  · split at h
    · cases h
    · split at h <;> cases h
      rfl

theorem comma_pos : (comma room p).pos = p.pos := by
  unfold comma
  repeat' split
  all_goals rfl

theorem jsmnParseString_pos (h : jsmnParseString js room p = .ok q) :
    p.pos < q.pos ∧ q.pos < js.length := by
  unfold jsmnParseString at h
  split at h
  · cases h
  · rename_i e hend
    split at h <;> cases h
    obtain ⟨hle, hlt⟩ := stringEnd_ge hend
    rw [List.length_drop] at hlt
    dsimp only
    omega

theorem jsmnParsePrimitive_pos (hc : js[p.pos]? = some c) (hne : c ≠ nul)
    (hother : charCase c = .other) (h : jsmnParsePrimitive js room p = .ok q) :
    p.pos ≤ q.pos ∧ q.pos < js.length := by
  unfold jsmnParsePrimitive at h
  split at h
  · cases h
  · rename_i e hend
    split at h <;> cases h
    obtain ⟨hlt, hle⟩ := lt_primitiveEnd hc hne hother hend
    dsimp only
    omega

/-- A pass ends within the text and does not go back. -/
theorem jsmnBody_pos (hc : js[p.pos]? = some c) (hne : c ≠ nul)
    (h : jsmnBody js room p (charCase c) = .ok (q, more)) :
    p.pos ≤ q.pos ∧ q.pos < js.length := by
  have hlt : p.pos < js.length := (List.getElem?_eq_some_iff.mp hc).1
  have hstay : q.pos = p.pos → p.pos ≤ q.pos ∧ q.pos < js.length := fun hpos => by omega
  have hmap : ∀ {r : Except Jsmnerr JsmnParser} {k : ℕ}, r.map (·, k) = .ok (q, more) →
      r = .ok q := by
    intro r k hr
    cases r <;> cases hr
    rfl
  cases hcase : charCase c with
  | opening type =>
    rw [hcase] at h
    exact hstay (openBracket_pos (hmap h))
  | closing type =>
    rw [hcase] at h
    exact hstay (closeBracket_pos (hmap h))
  | quote =>
    rw [hcase] at h
    have hpos := jsmnParseString_pos (hmap h)
    omega
  | other =>
    rw [hcase] at h
    exact jsmnParsePrimitive_pos hc hne hcase (hmap h)
  | space =>
    rw [hcase] at h
    cases h
    exact hstay rfl
  | colon =>
    rw [hcase] at h
    cases h
    exact hstay rfl
  | comma =>
    rw [hcase] at h
    cases h
    exact hstay comma_pos

/-! ### Tokens of a pass -/

/-- The token that is read at a position, and the last position of the pass. -/
def tokenAt (js : List Char) (pos : ℕ) : CharCase → Option (Except Jsmnerr (Jsmntok × ℕ))
  | .opening type => some (.ok ({ type := type, start := pos, end_ := -1 }, pos))
  | .quote =>
    some ((stringEnd 0 (js.drop (pos + 1)) (pos + 1)).map fun e : ℕ =>
      ({ type := .string, start := pos + 1, end_ := e }, e))
  | .other =>
    some (match primitiveEnd (js.drop pos) pos with
      | none => .error .inval
      | some e => .ok ({ type := .primitive, start := pos, end_ := e }, e - 1))
  | _ => none

/-- The token above after a token was added. -/
def superAfter (room : Option ℕ) (k : CharCase) (q : JsmnParser) : Option ℕ :=
  match k with
  | .opening _ => if room.isSome then some (q.toks.length - 1) else q.toksuper
  | _ => q.toksuper

/-- What is left of a pass when a token was read, or not. -/
def addRead (room : Option ℕ) (p : JsmnParser) (k : CharCase) :
    Except Jsmnerr (Jsmntok × ℕ) → Except Jsmnerr (JsmnParser × ℕ)
  | .error e => .error e
  | .ok (t, pos) =>
    match p.add room t with
    | none => .error .nomem
    | some q => .ok ({ q with pos := pos, toksuper := superAfter room k q }, 1)

theorem jsmnBody_tokenAt {k : CharCase} {r : Except Jsmnerr (Jsmntok × ℕ)}
    (h : tokenAt js p.pos k = some r) : jsmnBody js room p k = addRead room p k r := by
  cases k with
  | opening type =>
    cases h
    show (openBracket room p type).map (·, 1) = _
    unfold openBracket addRead
    dsimp only
    cases hadd : p.add room { type := type, start := p.pos, end_ := -1 } with
    | none => rfl
    | some q =>
      have hpos := JsmnParser.add_pos hadd
      rw [← hpos]
      cases room <;> rfl
  | quote =>
    cases h
    show (jsmnParseString js room p).map (·, 1) = _
    unfold jsmnParseString
    cases stringEnd 0 (js.drop (p.pos + 1)) (p.pos + 1) with
    | error e => rfl
    | ok e =>
      unfold addRead
      dsimp only [Except.map]
      cases p.add room { type := .string, start := p.pos + 1, end_ := e } <;> rfl
  | other =>
    cases h
    show (jsmnParsePrimitive js room p).map (·, 1) = _
    unfold jsmnParsePrimitive
    cases primitiveEnd (js.drop p.pos) p.pos with
    | none => rfl
    | some e =>
      unfold addRead
      dsimp only
      cases p.add room { type := .primitive, start := p.pos, end_ := e } <;> rfl
  | closing type => cases h
  | space => cases h
  | colon => cases h
  | comma => cases h

/-- A closing bracket ends the last open token, which has its type. -/
theorem closeBracket_some {n : ℕ} {type : Jsmntype} :
    closeBracket (some n) p type = .ok q ↔
      ∃ i t, lastIdx Jsmntok.isOpen p.toks = some i ∧ p.toks[i]? = some t ∧ t.type = type ∧
        q = { p with
          toks := p.toks.modify i fun t => { t with end_ := p.pos + 1 }
          toksuper := lastIdx Jsmntok.isOpen (p.toks.take i) } := by
  unfold closeBracket
  rw [if_neg (Option.some_ne_none n)]
  cases lastIdx Jsmntok.isOpen p.toks with
  | none => simp
  | some i =>
    dsimp only
    constructor
    · intro h
      split at h
      · cases h
      · rename_i htype
        cases h
        cases hget : p.toks[i]? with
        | none => simp [hget] at htype
        | some t => exact ⟨i, t, rfl, hget, by simpa [hget] using htype, rfl⟩
    · rintro ⟨j, t, hj, hget, htype, rfl⟩
      cases hj
      rw [if_neg (by simp [hget, htype])]

theorem closeBracket_error {n : ℕ} {type : Jsmntype} {e : Jsmnerr}
    (h : closeBracket (some n) p type = .error e) : e = .inval := by
  unfold closeBracket at h
  rw [if_neg (Option.some_ne_none n)] at h
  split at h
  · cases h
    rfl
  · split at h <;> cases h
    rfl

/-! ### The rule of the loop -/

/-- Every fuel that is enough gives the same result. -/
theorem jsmnLoop_eq {fuel : ℕ} (hfuel : js.length - p.pos ≤ fuel) :
    jsmnLoop js room fuel p count = parseFrom js room p count := by
  suffices hall : ∀ fuel fuel' (p : JsmnParser) count, js.length - p.pos ≤ fuel →
      js.length - p.pos ≤ fuel' →
      jsmnLoop js room fuel p count = jsmnLoop js room fuel' p count from
    hall _ _ p count hfuel le_rfl
  intro fuel
  induction fuel with
  | zero =>
    intro fuel' p count hzero _
    have hend : js[p.pos]? = none := List.getElem?_eq_none (by omega)
    rw [jsmnLoop_finish (by simp [hend]), jsmnLoop_finish (by simp [hend])]
  | succ fuel ih =>
    intro fuel' p count h h'
    by_cases hfinish : ∀ c, js[p.pos]? = some c → c = nul
    · rw [jsmnLoop_finish hfinish, jsmnLoop_finish hfinish]
    · push Not at hfinish
      obtain ⟨c, hc, hne⟩ := hfinish
      have hlt : p.pos < js.length := (List.getElem?_eq_some_iff.mp hc).1
      obtain ⟨fuel', rfl⟩ : ∃ k, fuel' = k + 1 := ⟨fuel' - 1, by omega⟩
      unfold jsmnLoop
      rw [hc]
      dsimp only
      rw [if_neg hne, if_neg hne]
      cases hbody : jsmnBody js room p (charCase c) with
      | error e => rfl
      | ok r =>
        obtain ⟨q, more⟩ := r
        have hpos := jsmnBody_pos hc hne hbody
        exact ih _ _ _ (by dsimp only; omega) (by dsimp only; omega)

/-- A pass of the loop. -/
theorem parseFrom_step (hc : js[p.pos]? = some c) (hne : c ≠ nul)
    (h : jsmnBody js room p (charCase c) = .ok (q, more)) :
    parseFrom js room p count = parseFrom js room { q with pos := q.pos + 1 } (count + more) := by
  have hlt : p.pos < js.length := (List.getElem?_eq_some_iff.mp hc).1
  have hpos := jsmnBody_pos hc hne h
  obtain ⟨fuel, hfuel⟩ := Nat.exists_eq_succ_of_ne_zero (Nat.sub_ne_zero_of_lt hlt)
  rw [parseFrom, hfuel, jsmnLoop, hc]
  dsimp only
  rw [if_neg hne, h]
  exact jsmnLoop_eq (by dsimp only; omega)

/-- What holds at the end, holds at an error and is taken over from the next pass holds from every
position on. -/
theorem passes_induction {motive : JsmnParser → ℕ → Prop}
    (finish : ∀ p count, (∀ c, js[p.pos]? = some c → c = nul) → motive p count)
    (error : ∀ p count c e, js[p.pos]? = some c → c ≠ nul →
      jsmnBody js room p (charCase c) = .error e → motive p count)
    (step : ∀ p count c q more, js[p.pos]? = some c → c ≠ nul →
      jsmnBody js room p (charCase c) = .ok (q, more) →
      motive { q with pos := q.pos + 1 } (count + more) → motive p count)
    (p : JsmnParser) (count : ℕ) : motive p count := by
  induction hleft : js.length - p.pos using Nat.strong_induction_on generalizing p count with
  | _ left ih =>
    by_cases hfinish : ∀ c, js[p.pos]? = some c → c = nul
    · exact finish p count hfinish
    · push Not at hfinish
      obtain ⟨c, hc, hne⟩ := hfinish
      have hlt : p.pos < js.length := (List.getElem?_eq_some_iff.mp hc).1
      cases hbody : jsmnBody js room p (charCase c) with
      | error e => exact error p count c e hc hne hbody
      | ok r =>
        obtain ⟨q, more⟩ := r
        have hpos := jsmnBody_pos hc hne hbody
        exact step p count c q more hc hne hbody (ih _ (by dsimp only; omega) _ _ rfl)

end OnicDriver.Json
