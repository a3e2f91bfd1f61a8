import OnicDriver.Json.Jsmn
import Mathlib.Order.Nat

/-!
# Counting first

The first run of `jsmn` only counts the tokens. An array of that size is never
too small for the second run, and a run for which the array was too small can
be continued with a larger one.
-/

namespace OnicDriver.Json

open Lib

variable {js : List Char} {room : Option ℕ} {p q : JsmnParser} {c : Char} {k : CharCase}
  {n count more : ℕ}

/-- The run that counts where another run is. -/
def JsmnParser.counter (p : JsmnParser) : JsmnParser := { pos := p.pos }

/-! ## Allocation -/

@[simp] theorem length_countChild (toksuper : Option ℕ) (toks : List Jsmntok) :
    (countChild toksuper toks).length = toks.length := by
  unfold countChild
  split
  · exact List.length_modify ..
  · rfl

/-- A token is allocated where there is room for it. -/
theorem JsmnParser.add_some {t : Jsmntok} (h : p.add (some n) t = some q) :
    p.toks.length < n ∧ q = { p with toks := countChild p.toksuper p.toks ++ [t] } := by
  unfold JsmnParser.add at h
  dsimp only at h
  split at h
  · cases h
  · rename_i hroom
    cases h
    exact ⟨not_le.mp hroom, rfl⟩

theorem JsmnParser.add_full {t : Jsmntok} (h : p.add (some n) t = none) : n ≤ p.toks.length := by
  unfold JsmnParser.add at h
  dsimp only at h
  split at h
  · assumption
  · cases h

/-- A larger array has room for what a smaller one had room for. -/
theorem JsmnParser.add_mono {m : ℕ} (hroom : n ≤ m) {t : Jsmntok}
    (h : p.add (some n) t = some q) : p.add (some m) t = some q := by
  obtain ⟨hlt, rfl⟩ := p.add_some h
  unfold JsmnParser.add
  exact if_neg (by omega)

theorem stringEnd_ne_nomem (digits : ℕ) (cs : List Char) (pos : ℕ) :
    stringEnd digits cs pos ≠ .error .nomem := by
  fun_induction stringEnd digits cs pos <;> simp_all

/-! ## Passes with and without an array -/

/-- What is read does not depend on the array. -/
theorem read_ne_nomem {pos : ℕ} {r : Except Jsmnerr (Jsmntok × ℕ)}
    (h : tokenAt js pos k = some r) : r ≠ .error .nomem := by
  rintro rfl
  cases k <;> simp only [tokenAt, Option.some.injEq, reduceCtorEq] at h
  · cases hend : stringEnd 0 (js.drop (pos + 1)) (pos + 1) with
    | error e =>
      rw [hend] at h
      cases h
      exact stringEnd_ne_nomem _ _ _ hend
    | ok e =>
      rw [hend] at h
      cases h
  · split at h <;> cases h

/-- A pass that reads no token keeps the position and the number of tokens. -/
theorem jsmnBody_length (h : tokenAt js p.pos k = none)
    (hbody : jsmnBody js (some n) p k = .ok (q, more)) :
    q.pos = p.pos ∧ more = 0 ∧ q.toks.length = p.toks.length := by
  cases k with
  | opening type => cases h
  | quote => cases h
  | other => cases h
  | closing type =>
    cases hclose : closeBracket (some n) p type with
    | error e =>
      rw [jsmnBody, hclose] at hbody
      cases hbody
    | ok r =>
      rw [jsmnBody, hclose] at hbody
      cases hbody
      obtain ⟨i, t, -, -, -, rfl⟩ := closeBracket_some.mp hclose
      exact ⟨rfl, rfl, List.length_modify ..⟩
  | space =>
    cases hbody
    exact ⟨rfl, rfl, rfl⟩
  | colon =>
    cases hbody
    exact ⟨rfl, rfl, rfl⟩
  | comma =>
    cases hbody
    refine ⟨comma_pos, rfl, ?_⟩
    unfold comma
    repeat' split
    all_goals rfl

theorem jsmnBody_ne_nomem (h : tokenAt js p.pos k = none) :
    jsmnBody js (some n) p k ≠ .error .nomem := by
  intro hbody
  cases k with
  | opening type => cases h
  | quote => cases h
  | other => cases h
  | closing type =>
    cases hclose : closeBracket (some n) p type with
    | error e =>
      rw [jsmnBody, hclose] at hbody
      cases hbody
      cases closeBracket_error hclose
    | ok r =>
      rw [jsmnBody, hclose] at hbody
      cases hbody
  | space => cases hbody
  | colon => cases hbody
  | comma => cases hbody

/-- The run that counts makes the same passes, and its count is the number of tokens. -/
theorem jsmnBody_counter (h : jsmnBody js (some n) p k = .ok (q, more)) :
    jsmnBody js none p.counter k = .ok (q.counter, more) ∧
      q.toks.length = p.toks.length + more ∧ (p.toks.length ≤ n → q.toks.length ≤ n) := by
  cases hread : tokenAt js p.pos k with
  | none =>
    obtain ⟨hpos, rfl, hlength⟩ := jsmnBody_length hread h
    refine ⟨?_, hlength, fun hle => hlength.trans_le hle⟩
    unfold JsmnParser.counter
    rw [hpos]
    cases k <;> first | rfl | cases hread
  | some r =>
    rw [jsmnBody_tokenAt hread] at h
    rw [jsmnBody_tokenAt (p := p.counter) hread]
    cases r with
    | error e => cases h
    | ok r =>
      obtain ⟨t, pos⟩ := r
      unfold addRead at h
      dsimp only at h
      cases hadd : p.add (some n) t with
      | none =>
        rw [hadd] at h
        cases h
      | some s =>
        rw [hadd] at h
        cases h
        obtain ⟨hlt, rfl⟩ := p.add_some hadd
        have hlength : (countChild p.toksuper p.toks ++ [t]).length = p.toks.length + 1 := by simp
        refine ⟨?_, hlength, fun _ => hlength.trans_le hlt⟩
        cases k <;> rfl

/-- A run ends for want of room where the array is full and the count goes on. -/
theorem jsmnBody_nomem (h : jsmnBody js (some n) p k = .error .nomem) :
    n ≤ p.toks.length ∧ ∃ q, jsmnBody js none p.counter k = .ok (JsmnParser.counter q, 1) := by
  cases hread : tokenAt js p.pos k with
  | none => exact absurd h (jsmnBody_ne_nomem hread)
  | some r =>
    rw [jsmnBody_tokenAt hread] at h
    rw [jsmnBody_tokenAt (p := p.counter) hread]
    cases r with
    | error e =>
      cases h
      exact absurd rfl (read_ne_nomem hread)
    | ok r =>
      obtain ⟨t, pos⟩ := r
      unfold addRead at h
      dsimp only at h
      cases hadd : p.add (some n) t with
      | none =>
        refine ⟨p.add_full hadd, { pos := pos }, ?_⟩
        cases k <;> rfl
      | some s =>
        rw [hadd] at h
        cases h

/-! ## Runs -/

/-- The count only grows. -/
theorem le_parseFrom (p : JsmnParser) (count : ℕ) :
    ∀ m, (parseFrom js room p count).1 = .ok m → count ≤ m := by
  induction p, count using @passes_induction js room with
  | finish p count hend =>
    intro m hm
    rw [parseFrom_finish hend] at hm
    unfold jsmnFinish at hm
    split at hm <;> cases hm
    rfl
  | error p count c e hc hne hbody =>
    intro m hm
    rw [parseFrom_error hc hne hbody] at hm
    cases hm
  | step p count c q more hc hne hbody ih =>
    intro m hm
    rw [parseFrom_step hc hne hbody] at hm
    exact (Nat.le_add_right _ _).trans (ih m hm)

/-- What the run that counts tells of the run with an array. -/
structure Counted (n : ℕ) (counted parsed : JsmnResult) : Prop where
  count : ∀ m, parsed.1 = .ok m → counted.1 = .ok m ∧ parsed.2.toks.length = m ∧ m ≤ n
  room : ∀ m, counted.1 = .ok m → m ≤ n → parsed.1 ≠ .error .nomem

theorem counted_parseFrom (p : JsmnParser) (count : ℕ) (hcount : count = p.toks.length)
    (hle : count ≤ n) :
    Counted n (parseFrom js none p.counter count) (parseFrom js (some n) p count) := by
  induction p, count using @passes_induction js (some n) with
  | finish p count hend =>
    have hcounter : parseFrom js none p.counter count = (.ok count, p.counter) := by
      rw [parseFrom_finish (p := p.counter) hend]
      rfl
    rw [parseFrom_finish hend, hcounter]
    unfold jsmnFinish
    split
    · exact ⟨fun m hm => (by cases hm), fun m _ _ hm => (by cases hm)⟩
    · refine ⟨fun m hm => ?_, fun m _ _ hm => (by cases hm)⟩
      cases hm
      exact ⟨rfl, hcount.symm, hle⟩
  | error p count c e hc hne hbody =>
    rw [parseFrom_error hc hne hbody]
    refine ⟨fun m hm => (by cases hm), fun m hm hmn he => ?_⟩
    cases he
    obtain ⟨hfull, q, hcounter⟩ := jsmnBody_nomem hbody
    rw [parseFrom_step (p := p.counter) hc hne hcounter] at hm
    have hmore := le_parseFrom _ _ m hm
    omega
  | step p count c q more hc hne hbody ih =>
    obtain ⟨hcounter, hlength, hroom⟩ := jsmnBody_counter hbody
    rw [parseFrom_step hc hne hbody, parseFrom_step (p := p.counter) hc hne hcounter]
    refine ih ?_ ?_
    · rw [hcount]
      exact hlength.symm
    · rw [hcount, ← hlength]
      exact hroom (hcount ▸ hle)

/-- The first run, without an array, tells the number of tokens of the second: a run with an array
that succeeds has as many tokens as were counted, and no run is short of room for those. -/
theorem jsmnParse_counted (js : List Char) (n : ℕ) :
    Counted n (jsmnParse js none {}) (jsmnParse js (some n) {}) :=
  counted_parseFrom {} 0 rfl (Nat.zero_le n)

/-! ## Continued runs -/

/-- A larger array changes no pass that had room. -/
theorem jsmnBody_mono {m : ℕ} (hroom : n ≤ m)
    (h : jsmnBody js (some n) p k = .ok (q, more)) : jsmnBody js (some m) p k = .ok (q, more) := by
  cases hread : tokenAt js p.pos k with
  | none =>
    rw [← h]
    cases k <;> first | rfl | cases hread
  | some r =>
    rw [jsmnBody_tokenAt hread] at h ⊢
    cases r with
    | error e => cases h
    | ok r =>
      obtain ⟨t, pos⟩ := r
      unfold addRead at h ⊢
      dsimp only at h ⊢
      cases hadd : p.add (some n) t with
      | none =>
        rw [hadd] at h
        cases h
      | some s =>
        rw [hadd] at h
        rw [JsmnParser.add_mono hroom hadd, ← h]
        cases k <;> rfl

theorem parseFrom_resume {m : ℕ} (hroom : n ≤ m) (p : JsmnParser) (count : ℕ)
    (hcount : count = p.toks.length) :
    ∀ q, parseFrom js (some n) p count = (.error .nomem, q) →
      parseFrom js (some m) q q.toks.length = parseFrom js (some m) p count := by
  induction p, count using @passes_induction js (some n) with
  | finish p count hend =>
    intro q hq
    rw [parseFrom_finish hend] at hq
    unfold jsmnFinish at hq
    split at hq <;> cases hq
  | error p count c e hc hne hbody =>
    intro q hq
    rw [parseFrom_error hc hne hbody] at hq
    cases hq
    rw [hcount]
  | step p count c q more hc hne hbody ih =>
    intro r hr
    rw [parseFrom_step hc hne hbody] at hr
    rw [parseFrom_step hc hne (jsmnBody_mono hroom hbody)]
    refine ih ?_ r hr
    rw [hcount]
    exact (jsmnBody_counter hbody).2.1.symm

/-- A run for which the array was too small goes on with a larger one to the result that the larger
one would have given from the start. -/
theorem jsmnParse_resume {m : ℕ} (hroom : n ≤ m)
    (h : jsmnParse js (some n) p = (.error .nomem, q)) :
    jsmnParse js (some m) q = jsmnParse js (some m) p :=
  parseFrom_resume hroom p _ rfl q h

theorem jsmnParse_resume_small :
    jsmnParse ['[', '1', ']'] (some 2)
        (jsmnParse ['[', '1', ']'] (some 1) {}).2 = jsmnParse ['[', '1', ']'] (some 2) {} :=
  jsmnParse_resume (n := 1) (by decide) (by decide)

/-! ### More text -/

/-- A primitive that ends before the end of the text does so in a longer one. -/
theorem primitiveEnd_append {cs ds : List Char} {pos e : ℕ} (h : primitiveEnd cs pos = some e)
    (hlt : e < pos + cs.length) : primitiveEnd (cs ++ ds) pos = some e := by
  induction cs generalizing pos with
  | nil =>
    cases h
    exact absurd hlt (lt_irrefl _)
  | cons c cs ih =>
    rw [List.cons_append]
    unfold primitiveEnd at h ⊢
    split at h
    · rename_i hend
      rw [if_pos hend]
      exact h
    · rename_i hend
      split at h
      · cases h
      · rename_i hvalid
        rw [if_neg hend, if_neg hvalid]
        rw [List.length_cons] at hlt
        exact ih h (by omega)

/-- A string that was closed is closed in a longer text. -/
theorem stringEnd_append {digits : ℕ} {cs ds : List Char} {pos e : ℕ}
    (h : stringEnd digits cs pos = .ok e) : stringEnd digits (cs ++ ds) pos = .ok e := by
  fun_induction stringEnd digits cs pos with
  | case1 digits pos => cases h
  | case2 digits cs pos => cases h
  | case3 digits c cs pos hnul hhex ih =>
    rw [List.cons_append]
    unfold stringEnd
    rw [if_neg hnul, if_pos hhex]
    exact ih h
  | case4 digits c cs pos hnul hhex => cases h
  | case5 cs pos => cases h
  | case6 cs pos hnul =>
    rw [List.cons_append]
    unfold stringEnd
    rw [if_neg hnul, if_pos rfl]
    exact h
  | case7 pos hnul hquote => cases h
  | case8 pos d cs hescape hnul hquote ih =>
    rw [List.cons_append, List.cons_append]
    unfold stringEnd
    rw [if_neg hnul, if_neg hquote, if_pos rfl]
    dsimp only
    rw [if_pos hescape]
    exact ih h
  | case9 pos cs hnul hquote hescape ih =>
    rw [List.cons_append, List.cons_append]
    unfold stringEnd
    rw [if_neg hnul, if_neg hquote, if_pos rfl]
    dsimp only
    rw [if_neg hescape, if_pos rfl]
    exact ih h
  | case10 pos d cs hescape hu hnul hquote => cases h
  | case11 c cs pos hnul hquote hslash ih =>
    rw [List.cons_append]
    unfold stringEnd
    rw [if_neg hnul, if_neg hquote, if_neg hslash]
    exact ih h

/-- What is read in a text is read in a longer one, except for a primitive that the end cuts. -/
theorem tokenAt_append {ds : List Char} {pos e : ℕ} {t : Jsmntok} (hlt : pos < js.length)
    (h : tokenAt js pos k = some (.ok (t, e)))
    (hcut : t.type = .primitive → t.end_ ≠ js.length) :
    tokenAt (js ++ ds) pos k = some (.ok (t, e)) := by
  cases k with
  | opening type => exact h
  | quote =>
    simp only [tokenAt, Option.some.injEq] at h ⊢
    cases hend : stringEnd 0 (js.drop (pos + 1)) (pos + 1) with
    | error e =>
      rw [hend] at h
      cases h
    | ok e =>
      rw [List.drop_append_of_le_length (by omega), stringEnd_append hend, ← h, hend]
  | other =>
    simp only [tokenAt, Option.some.injEq] at h ⊢
    cases hend : primitiveEnd (js.drop pos) pos with
    | none =>
      rw [hend] at h
      cases h
    | some e =>
      rw [hend] at h
      cases h
      have hne : e ≠ js.length := fun he => hcut rfl (congrArg _ he)
      have hle := (primitiveEnd_ge hend).2
      rw [List.length_drop] at hle
      have hshort : e < pos + (js.drop pos).length := by
        rw [List.length_drop]
        omega
      rw [List.drop_append_of_le_length hlt.le, primitiveEnd_append hend hshort]
  | closing type => cases h
  | space => cases h
  | colon => cases h
  | comma => cases h

/-- A pass ends with the last character of a primitive. -/
theorem primitive_end {pos e : ℕ} {t : Jsmntok} (hc : js[pos]? = some c) (hne : c ≠ nul)
    (h : tokenAt js pos (charCase c) = some (.ok (t, e))) (htype : t.type = .primitive) :
    (e : ℤ) + 1 = t.end_ := by
  cases hk : charCase c with
  | opening type =>
    rw [hk] at h
    cases h
    rcases charCase_opening hk with rfl | rfl <;> cases htype
  | quote =>
    rw [hk] at h
    simp only [tokenAt, Option.some.injEq] at h
    cases hend : stringEnd 0 (js.drop (pos + 1)) (pos + 1) with
    | error e =>
      rw [hend] at h
      cases h
    | ok e =>
      rw [hend] at h
      cases h
      cases htype
  | other =>
    rw [hk] at h
    simp only [tokenAt, Option.some.injEq] at h
    cases hend : primitiveEnd (js.drop pos) pos with
    | none =>
      rw [hend] at h
      cases h
    | some e =>
      rw [hend] at h
      cases h
      have hlt := (lt_primitiveEnd hc hne hk hend).1
      dsimp only
      omega
  | closing type => rw [hk] at h; cases h
  | space => rw [hk] at h; cases h
  | colon => rw [hk] at h; cases h
  | comma => rw [hk] at h; cases h

/-- The passes in a longer text are the same, unless the end of the shorter one cuts a primitive. -/
theorem jsmnBody_append {ds : List Char} (hc : js[p.pos]? = some c) (hne : c ≠ nul)
    (h : jsmnBody js (some n) p (charCase c) = .ok (q, more)) :
    jsmnBody (js ++ ds) (some n) p (charCase c) = .ok (q, more) ∨
      q.pos + 1 = js.length ∧ ∃ t ∈ q.toks, t.type = .primitive ∧ t.end_ = js.length := by
  have hlt : p.pos < js.length := (List.getElem?_eq_some_iff.mp hc).1
  cases hread : tokenAt js p.pos (charCase c) with
  | none =>
    left
    rw [← h]
    cases hk : charCase c <;> rw [hk] at hread <;> first | rfl | cases hread
  | some r =>
    rw [jsmnBody_tokenAt hread] at h
    cases r with
    | error e => cases h
    | ok r =>
      obtain ⟨t, e⟩ := r
      by_cases hcut : t.type = .primitive → t.end_ ≠ js.length
      · left
        rw [jsmnBody_tokenAt (tokenAt_append hlt hread hcut)]
        exact h
      · right
        push Not at hcut
        unfold addRead at h
        dsimp only at h
        cases hadd : p.add (some n) t with
        | none =>
          rw [hadd] at h
          cases h
        | some s =>
          rw [hadd] at h
          cases h
          obtain ⟨-, rfl⟩ := p.add_some hadd
          refine ⟨?_, t, by simp, hcut⟩
          have hend := primitive_end hc hne hread hcut.1
          have hlast := hend.trans hcut.2
          show e + 1 = js.length
          exact_mod_cast hlast

theorem parseFrom_more {ds : List Char} (p : JsmnParser) (count : ℕ)
    (hcount : count = p.toks.length) :
    ∀ q, parseFrom js (some n) p count = (.error .part, q) →
      (∀ t ∈ q.toks, t.type = .primitive → t.end_ ≠ js.length) →
      parseFrom (js ++ ds) (some n) q q.toks.length = parseFrom (js ++ ds) (some n) p count := by
  induction p, count using @passes_induction js (some n) with
  | finish p count hend =>
    intro q hq _
    rw [parseFrom_finish hend] at hq
    unfold jsmnFinish at hq
    split at hq <;> cases hq
    rw [hcount]
  | error p count c e hc hne hbody =>
    intro q hq _
    rw [parseFrom_error hc hne hbody] at hq
    cases hq
    rw [hcount]
  | step p count c q more hc hne hbody ih =>
    intro r hr hlast
    have hlength : count + more = q.toks.length := by
      rw [hcount]
      exact (jsmnBody_counter hbody).2.1.symm
    have hlt : p.pos < js.length := (List.getElem?_eq_some_iff.mp hc).1
    have hc' : (js ++ ds)[p.pos]? = some c := (List.getElem?_append_left hlt).trans hc
    rw [parseFrom_step hc hne hbody] at hr
    obtain hlong | ⟨hend, t, ht, htype, hcut⟩ := @jsmnBody_append _ _ _ _ _ _ ds hc hne hbody
    · rw [parseFrom_step hc' hne hlong]
      exact ih hlength r hr hlast
    · -- the run ends after the primitive that the end of the text cuts
      have hdone : js[q.pos + 1]? = none := List.getElem?_eq_none hend.ge
      rw [parseFrom_finish (by simp [hdone])] at hr
      unfold jsmnFinish at hr
      split at hr <;> cases hr
      exact absurd hcut (hlast t ht htype)

/-- A run that asks for more text goes on with it to the result that the whole text would have given
from the start, unless the end of the first part cuts a primitive. -/
theorem jsmnParse_more {ds : List Char}
    (h : jsmnParse js (some n) p = (.error .part, q))
    (hcut : ∀ t ∈ q.toks, t.type = .primitive → t.end_ ≠ js.length) :
    jsmnParse (js ++ ds) (some n) q = jsmnParse (js ++ ds) (some n) p :=
  parseFrom_more p _ rfl q h hcut

/-- The text ends within a string, and is read again from the start of it. -/
theorem jsmnParse_more_string :
    jsmnParse (['[', '1', ',', '"', 'a'] ++ ['"', ']']) (some 3)
        (jsmnParse ['[', '1', ',', '"', 'a'] (some 3) {}).2 =
      jsmnParse (['[', '1', ',', '"', 'a'] ++ ['"', ']']) (some 3) {} :=
  jsmnParse_more (n := 3) (by decide) (by decide)

end OnicDriver.Json
