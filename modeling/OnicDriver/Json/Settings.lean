import OnicDriver.Kernel
import OnicDriver.Json.Counting
import OnicDriver.Json.Platform

/-!
# The settings of a configuration file

The driver walks over the tokens by their numbers. It takes the token after a
key that it knows for the value, and reports every other token as an unexpected
key. Reading or writing outside of the tokens, the file or the address gives no
result.
-/

namespace OnicDriver.Json

open Lib

/-- `PARSEBUF_LEN`. -/
def PARSEBUF_LEN : ℕ := 32

/-- `kstrtou8`, `kstrtou16` and `kstrtoint`: none where nothing is stored. -/
structure Kstrto where
  u8 : List Char → ℕ → Option UInt8
  u16 : List Char → ℕ → Option UInt16
  int : List Char → ℕ → Option ℤ

/-- The value of a digit. -/
def digitValue (base : ℕ) (c : Char) : Option ℕ :=
  let value :=
    if '0' ≤ c ∧ c ≤ '9' then c.toNat - 48
    else if 'a' ≤ c ∧ c ≤ 'f' then c.toNat - 87
    else if 'A' ≤ c ∧ c ≤ 'F' then c.toNat - 55
    else base
  if value < base then some value else none

/-- A number without its sign. A base of 16 allows `0x`, and the text may end with a line feed. -/
def unsignedValue (s : List Char) (base : ℕ) : Option ℕ :=
  let s := if base = 16 ∧ ['0', 'x'] = (s.take 2).map Char.toLower then s.drop 2 else s
  let s := if s.getLast? = some '\n' then s.dropLast else s
  if s = [] then none
  else (s.mapM (digitValue base)).map (List.foldl (fun n d => n * base + d) 0)

/-- The conversions as the kernel documents them. -/
def kernelKstrto : Kstrto :=
  let unsigned (s : List Char) (base : ℕ) :=
    unsignedValue (if s.head? = some '+' then s.tail else s) base
  { u8 := fun s base => (unsigned s base).bind fun n =>
      if n < 2 ^ 8 then some (UInt8.ofNat n) else none
    u16 := fun s base => (unsigned s base).bind fun n =>
      if n < 2 ^ 16 then some (UInt16.ofNat n) else none
    int := fun s base =>
      if s.head? = some '-' then
        (unsignedValue s.tail base).bind fun n => if n ≤ 2 ^ 31 then some (-(n : ℤ)) else none
      else (unsigned s base).bind fun n => if n < 2 ^ 31 then some (n : ℤ) else none }

/-- What `"%.*s"` prints of a token, if all that it reads lies in the file. -/
def printToken (json : List Char) (t : Jsmntok) : Option (List Char) :=
  if t.start < 0 ∨ (json.length : ℤ) < t.start then none
  else
    let text := json.drop t.start.toNat
    let precision := t.end_ - t.start
    -- a negative precision is none: the text goes on to its NUL
    if precision < 0 then
      if nul ∈ text then some (text.takeWhile (· ≠ nul)) else none
    else if precision ≤ text.length ∨ nul ∈ text then
      some ((text.take precision.toNat).takeWhile (· ≠ nul))
    else none

/-- The text of a token in the parsing buffer. -/
def parsingBuffer (json : List Char) (t : Jsmntok) : Option (List Char) :=
  (printToken json t).map (List.take (PARSEBUF_LEN - 1))

/-- `jsoneq`. -/
def jsoneq (json : List Char) (tok : Jsmntok) (s : List Char) : Bool :=
  tok.type == .string && (s.length : ℤ) == tok.end_ - tok.start &&
    (json.drop tok.start.toNat).take s.length == s

/-- A flag is set unless its text begins like a zero or like `false`. -/
def flag (text : List Char) : Bool :=
  text.head? != some '0' && text.head? != some 'f' && text.head? != some 'F'

/-- A key with one value, and what the text of the value does. -/
structure Setting where
  key : List Char
  set : Kstrto → List Char → PlatformInfo → PlatformInfo

/-- The keys with one value. -/
def settings : List Setting := [
  ⟨"qdma_bar".toList, fun k s p => { p with qdmaBar := (k.u8 s 10).getD p.qdmaBar }⟩,
  ⟨"user_bar".toList, fun k s p => { p with userBar := (k.u8 s 10).getD p.userBar }⟩,
  ⟨"queue_base".toList, fun k s p => { p with queueBase := (k.u16 s 10).getD p.queueBase }⟩,
  ⟨"queue_max".toList, fun k s p => { p with queueMax := (k.u16 s 10).getD p.queueMax }⟩,
  ⟨"used_queues".toList, fun k s p => { p with usedQueues := (k.u16 s 10).getD p.usedQueues }⟩,
  ⟨"pci_msix_user_cnt".toList,
    fun k s p => { p with pciMsixUserCnt := (k.u8 s 10).getD p.pciMsixUserCnt }⟩,
  ⟨"pci_master_pf".toList, fun _ s p => { p with pciMasterPf := flag s }⟩,
  ⟨"poll_mode".toList, fun _ s p => { p with pollMode := flag s }⟩,
  ⟨"intr_mod_en".toList, fun _ s p => { p with intrModEn := flag s }⟩,
  ⟨"ring_sz".toList, fun k s p => { p with ringSz := (k.int s 10).getD p.ringSz }⟩,
  ⟨"c2h_tmr_cnt".toList, fun k s p => { p with c2hTmrCnt := (k.int s 10).getD p.c2hTmrCnt }⟩,
  ⟨"c2h_cnt_thr".toList, fun k s p => { p with c2hCntThr := (k.int s 10).getD p.c2hCntThr }⟩,
  ⟨"c2h_buf_sz".toList, fun k s p => { p with c2hBufSz := (k.int s 10).getD p.c2hBufSz }⟩,
  ⟨"rsfec_en".toList, fun _ s p => { p with rsfecEn := flag s }⟩,
  ⟨"port_id".toList, fun k s p => { p with portId := (k.u8 s 10).getD p.portId }⟩]

/-- The key of the address. -/
def macAddrKey : List Char := "mac_addr".toList

/-- An octet of the address, where the address has six. -/
def setOctet (k : Kstrto) (text : List Char) (j : ℕ) (p : PlatformInfo) : Option PlatformInfo :=
  match k.u8 text 16 with
  | none => some p
  | some octet => if h : j < 6 then some { p with macAddr := p.macAddr.set j octet h } else none

/-- The loop over the elements of the address. -/
def octetLoop (k : Kstrto) (json : List Char) (toks : List Jsmntok) (i : ℕ) :
    ℕ → ℕ → PlatformInfo → Option PlatformInfo
  | 0, _, p => some p
  | left + 1, j, p => do
    let t ← toks[i + j + 2]?
    let text ← parsingBuffer json t
    let p ← setOctet k text j p
    octetLoop k json toks i left (j + 1) p

/-- A pass of the loop over the keys: the number of the next key. -/
def settingPass (k : Kstrto) (json : List Char) (toks : List Jsmntok) (i : ℕ) (p : PlatformInfo) :
    Option (ℕ × PlatformInfo) := do
  let key ← toks[i]?
  match settings.find? fun s => jsoneq json key s.key with
  | some setting =>
    let value ← toks[i + 1]?
    let text ← parsingBuffer json value
    some (i + 2, setting.set k text p)
  | none =>
    if jsoneq json key macAddrKey then
      let value ← toks[i + 1]?
      if value.type ≠ .array then some (i + 1, p)
      else
        let p ← octetLoop k json toks i value.size 0 p
        some (i + value.size + 2, p)
    else
      let _ ← printToken json key
      some (i + 1, p)

/-- The loop over the keys, which moves on by a token at least. -/
def settingLoop (k : Kstrto) (json : List Char) (toks : List Jsmntok) (numTokens : ℕ) :
    ℕ → ℕ → PlatformInfo → Option PlatformInfo
  | 0, _, p => some p
  | fuel + 1, i, p =>
    if i < numTokens then do
      let (i, p) ← settingPass k json toks i p
      settingLoop k json toks numTokens fuel i p
    else some p

/-- The value of an error. -/
def Jsmnerr.code : Jsmnerr → ℤ
  | .nomem => -1
  | .inval => -2
  | .part => -3

/-- What `numTokens` is after a run, with its 16 bits. -/
def numTokens (r : JsmnResult) : ℕ :=
  match r.1 with
  | .ok m => m % 2 ^ 16
  | .error e => (e.code % 2 ^ 16).toNat

/-- `onic_get_platform_info` of a file that may be missing. -/
def onicGetPlatformInfo (k : Kstrto) (fw : Except ℤ (List Char)) (allocated : Bool)
    (p : PlatformInfo) : Option (ℤ × PlatformInfo) :=
  match fw with
  | .error err => some (err, p)
  | .ok json =>
    let js := json.take (json.length % 2 ^ 16)
    let counted := numTokens (jsmnParse js none {})
    if counted < 1 then some (-EINVAL, p)
    else if !allocated then some (-ENOMEM, p)
    else
      let parsed := jsmnParse js (some counted) {}
      -- the tokens are zero before the second run fills them
      let toks := parsed.2.toks ++ List.replicate (counted - parsed.2.toks.length) {}
      let num := numTokens parsed
      if num < 1 ∨ toks[0]?.map Jsmntok.type ≠ some .object then some (-EINVAL, p)
      else (settingLoop k json toks num num 1 p).map (0, ·)

/-! ## Passes over the keys -/

variable {k : Kstrto} {json : List Char} {toks : List Jsmntok} {i j n : ℕ} {p p' : PlatformInfo}

/-- The loop over the keys from a token on. -/
def settingsFrom (k : Kstrto) (json : List Char) (toks : List Jsmntok) (n i : ℕ)
    (p : PlatformInfo) : Option PlatformInfo :=
  settingLoop k json toks n (n - i) i p

/-- A pass moves on. -/
theorem settingPass_lt (h : settingPass k json toks i p = some (j, p')) : i < j := by
  unfold settingPass at h
  simp only [Option.bind_eq_bind, Option.bind_eq_some_iff] at h
  obtain ⟨key, -, h⟩ := h
  split at h
  · simp only [Option.bind_eq_some_iff] at h
    obtain ⟨value, -, text, -, h⟩ := h
    cases h
    omega
  · split at h
    · simp only [Option.bind_eq_some_iff] at h
      obtain ⟨value, -, h⟩ := h
      split at h
      · cases h
        omega
      · simp only [Option.bind_eq_some_iff] at h
        obtain ⟨p, -, h⟩ := h
        cases h
        omega
    · simp only [Option.bind_eq_some_iff] at h
      obtain ⟨text, -, h⟩ := h
      cases h
      omega

theorem settingLoop_end (h : n ≤ i) (fuel : ℕ) : settingLoop k json toks n fuel i p = some p := by
  cases fuel with
  | zero => rfl
  | succ fuel => exact if_neg (by omega)

/-- Every fuel that is enough gives the same result. -/
theorem settingLoop_eq {fuel : ℕ} (hfuel : n - i ≤ fuel) :
    settingLoop k json toks n fuel i p = settingsFrom k json toks n i p := by
  suffices hall : ∀ fuel fuel' i p, n - i ≤ fuel → n - i ≤ fuel' →
      settingLoop k json toks n fuel i p = settingLoop k json toks n fuel' i p from
    hall _ _ i p hfuel le_rfl
  intro fuel
  induction fuel with
  | zero =>
    intro fuel' i p hzero _
    rw [settingLoop_end (by omega), settingLoop_end (by omega)]
  | succ fuel ih =>
    intro fuel' i p h h'
    by_cases hi : i < n
    · obtain ⟨fuel', rfl⟩ : ∃ m, fuel' = m + 1 := ⟨fuel' - 1, by omega⟩
      unfold settingLoop
      rw [if_pos hi, if_pos hi]
      cases hpass : settingPass k json toks i p with
      | none => rfl
      | some r =>
        obtain ⟨j, p'⟩ := r
        have hlt := settingPass_lt hpass
        exact ih _ j p' (by omega) (by omega)
    · rw [settingLoop_end (by omega), settingLoop_end (by omega)]

theorem settingsFrom_end (h : n ≤ i) : settingsFrom k json toks n i p = some p :=
  settingLoop_end h _

theorem settingsFrom_step (hi : i < n) (h : settingPass k json toks i p = some (j, p')) :
    settingsFrom k json toks n i p = settingsFrom k json toks n j p' := by
  have hlt := settingPass_lt h
  obtain ⟨fuel, hfuel⟩ := Nat.exists_eq_succ_of_ne_zero (Nat.sub_ne_zero_of_lt hi)
  rw [settingsFrom, hfuel, settingLoop, if_pos hi, h]
  exact settingLoop_eq (by omega)

theorem settingsFrom_none (hi : i < n) (h : settingPass k json toks i p = none) :
    settingsFrom k json toks n i p = none := by
  obtain ⟨fuel, hfuel⟩ := Nat.exists_eq_succ_of_ne_zero (Nat.sub_ne_zero_of_lt hi)
  rw [settingsFrom, hfuel, settingLoop, if_pos hi, h]
  rfl

/-! ## Files with unmatched brackets -/

theorem octetLoop_le {left : ℕ} (h : octetLoop k json toks i left j p = some p')
    (hleft : 0 < left) : i + j + left + 2 ≤ toks.length := by
  induction left generalizing j p with
  | zero => exact absurd hleft (lt_irrefl 0)
  | succ left ih =>
    unfold octetLoop at h
    simp only [Option.bind_eq_bind, Option.bind_eq_some_iff] at h
    obtain ⟨t, ht, text, -, q, -, hrest⟩ := h
    have hlt := (List.getElem?_eq_some_iff.mp ht).1
    rcases Nat.eq_zero_or_pos left with rfl | hpos
    · omega
    · have hle := ih hrest hpos
      omega

/-- A pass that reads nothing outside the tokens goes to a token or to their end. -/
theorem settingPass_le (h : settingPass k json toks i p = some (j, p')) : j ≤ toks.length := by
  unfold settingPass at h
  simp only [Option.bind_eq_bind, Option.bind_eq_some_iff] at h
  obtain ⟨key, hkey, h⟩ := h
  have hi := (List.getElem?_eq_some_iff.mp hkey).1
  split at h
  · simp only [Option.bind_eq_some_iff] at h
    obtain ⟨value, hvalue, text, -, h⟩ := h
    have hlt := (List.getElem?_eq_some_iff.mp hvalue).1
    cases h
    omega
  · split at h
    · simp only [Option.bind_eq_some_iff] at h
      obtain ⟨value, hvalue, h⟩ := h
      have hlt := (List.getElem?_eq_some_iff.mp hvalue).1
      split at h
      · cases h
        omega
      · simp only [Option.bind_eq_some_iff] at h
        obtain ⟨q, hloop, h⟩ := h
        cases h
        rcases Nat.eq_zero_or_pos value.size with hzero | hpos
        · omega
        · have hle := octetLoop_le hloop hpos
          omega
    · simp only [Option.bind_eq_some_iff] at h
      obtain ⟨text, -, h⟩ := h
      cases h
      omega

/-- The loop leaves the tokens if it counts more than there are. -/
theorem settingsFrom_outside (hi : i ≤ toks.length) (hn : toks.length < n) :
    settingsFrom k json toks n i p = none := by
  induction hleft : toks.length - i using Nat.strong_induction_on generalizing i p with
  | _ left ih =>
    cases hpass : settingPass k json toks i p with
    | none => exact settingsFrom_none (by omega) hpass
    | some r =>
      obtain ⟨j, q⟩ := r
      have hlt := settingPass_lt hpass
      have hle := settingPass_le hpass
      rw [settingsFrom_step (by omega) hpass]
      exact ih _ (by omega) hle rfl

/-- A pass reads one token at most. -/
theorem jsmnBody_more {js : List Char} {room : Option ℕ} {q r : JsmnParser} {c : CharCase}
    {more : ℕ} (h : jsmnBody js room q c = .ok (r, more)) : more ≤ 1 := by
  have hmap : ∀ {x : Except Jsmnerr JsmnParser} {m : ℕ}, m ≤ 1 →
      x.map (·, m) = .ok (r, more) → more ≤ 1 := by
    intro x m hm hx
    cases x <;> cases hx
    exact hm
  cases c with
  | opening type => exact hmap le_rfl h
  | closing type => exact hmap (Nat.zero_le _) h
  | quote => exact hmap le_rfl h
  | other => exact hmap le_rfl h
  | space => cases h; exact Nat.zero_le _
  | colon => cases h; exact Nat.zero_le _
  | comma => cases h; exact Nat.zero_le _

/-- A run reads at most as many tokens as characters. -/
theorem parseFrom_le {js : List Char} {room : Option ℕ} (q : JsmnParser) (count : ℕ)
    (hpos : q.pos ≤ js.length) (hcount : count ≤ q.pos) :
    ∀ m, (parseFrom js room q count).1 = .ok m → m ≤ js.length := by
  induction q, count using @passes_induction js room with
  | finish q count hend =>
    intro m hm
    rw [parseFrom_finish hend] at hm
    unfold jsmnFinish at hm
    split at hm
    · cases hm
    · cases hm
      omega
  | error q count c e hc hne hbody =>
    intro m hm
    rw [parseFrom_error hc hne hbody] at hm
    cases hm
  | step q count c r more hc hne hbody ih =>
    intro m hm
    rw [parseFrom_step hc hne hbody] at hm
    have hrange := jsmnBody_pos hc hne hbody
    have hmore := jsmnBody_more hbody
    exact ih (by dsimp only; omega) (by dsimp only; omega) m hm

/-- A run fills no more tokens than there are. -/
theorem length_parseFrom_le {js : List Char} {room : ℕ} (q : JsmnParser) (count : ℕ)
    (hlength : q.toks.length ≤ room) :
    (parseFrom js (some room) q count).2.toks.length ≤ room := by
  induction q, count using @passes_induction js (some room) with
  | finish q count hend =>
    rw [parseFrom_finish hend]
    unfold jsmnFinish
    split <;> exact hlength
  | error q count c e hc hne hbody =>
    rw [parseFrom_error hc hne hbody]
    exact hlength
  | step q count c r more hc hne hbody ih =>
    rw [parseFrom_step hc hne hbody]
    exact ih ((jsmnBody_counter hbody).2.2 hlength)

/-- An error is a large number of tokens. -/
theorem le_numTokens_error {r : JsmnResult} {e : Jsmnerr} (h : r.1 = .error e) :
    2 ^ 16 - 3 ≤ numTokens r := by
  unfold numTokens
  rw [h]
  cases e <;> decide

/-- A file whose tokens can be counted, but whose brackets the second run refuses, is not refused:
the error is taken for a number of tokens, and the loop over the keys leaves the array. -/
theorem onicGetPlatformInfo_unmatched {m : ℕ} {e : Jsmnerr} (hsize : json.length < 2 ^ 16 - 3)
    (hcounted : (jsmnParse json none {}).1 = .ok m)
    (herror : (jsmnParse json (some m) {}).1 = .error e)
    (hobject : (jsmnParse json (some m) {}).2.toks[0]?.map Jsmntok.type = some .object)
    (k : Kstrto) (p : PlatformInfo) : onicGetPlatformInfo k (.ok json) true p = none := by
  have hm : m ≤ json.length := parseFrom_le {} 0 (Nat.zero_le _) le_rfl m hcounted
  have hmod : numTokens (jsmnParse json none {}) = m := by
    rw [numTokens, hcounted]
    exact Nat.mod_eq_of_lt (by omega)
  have hnum := le_numTokens_error herror
  have hlength : (jsmnParse json (some m) {}).2.toks.length ≤ m :=
    length_parseFrom_le {} 0 (Nat.zero_le m)
  set parsed := jsmnParse json (some m) {}
  have hfirst : 0 < parsed.2.toks.length := by
    cases htoks : parsed.2.toks with
    | nil =>
      rw [htoks] at hobject
      cases hobject
    | cons t ts => exact Nat.succ_pos _
  obtain ⟨toks, htoks⟩ : ∃ toks, toks = parsed.2.toks ++
      List.replicate (m - parsed.2.toks.length) ({} : Jsmntok) := ⟨_, rfl⟩
  have hroot : toks[0]?.map Jsmntok.type = some .object := by
    rw [htoks, List.getElem?_append_left hfirst]
    exact hobject
  have hall : toks.length = m := by
    rw [htoks, List.length_append, List.length_replicate]
    omega
  have hloop : settingLoop k json toks (numTokens parsed) (numTokens parsed) 1 p = none := by
    rw [settingLoop_eq (Nat.sub_le _ 1)]
    exact settingsFrom_outside (by omega) (by omega)
  have haccepted : ¬ (numTokens parsed < 1 ∨ some Jsmntype.object ≠ some .object) := by
    rintro (hlt | hne)
    · omega
    · exact hne rfl
  unfold onicGetPlatformInfo
  dsimp only
  rw [Nat.mod_eq_of_lt (by omega), List.take_length, hmod, if_neg (by omega), if_neg (by simp),
    ← htoks, hroot, hloop, if_neg haccepted]
  rfl

theorem onicGetPlatformInfo_unmatched_small :
    onicGetPlatformInfo kernelKstrto (.ok ['{', '"', 'a', '"', ':', '1']) true {} = none :=
  onicGetPlatformInfo_unmatched (m := 3) (e := .part) (by decide) (by decide) (by decide)
    (by decide) kernelKstrto {}

end OnicDriver.Json
