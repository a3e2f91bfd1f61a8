import OnicDriver.Json.Grammar

/-!
# Tokens lie in the text

Each token of a run that succeeds is an object or an array between its brackets,
a string between its quotes or a primitive. A later token lies inside an object
or array that is open where it starts, or behind what was closed before.
-/

namespace OnicDriver.Json

open Lib

variable {js : List Char} {p q : JsmnParser} {c : Char} {n more pos : ℕ} {t : Jsmntok}

/-- A token that is complete, and what stands where it lies. -/
inductive Written (js : List Char) : Jsmntok → Prop
  | container {object : Bool} {s e size : ℕ} (hopen : js[s]? = some (openChar object))
    (hclose : js[e]? = some (closeChar object)) (hlt : s < e) :
    Written js ⟨containerType object, s, (e + 1 : ℕ), size⟩
  | string {s size : ℕ} {body rest : List Char} (hquote : js[s]? = some '"')
    (htext : js.drop (s + 1) = body ++ '"' :: rest) (hbody : StringBody body) :
    Written js ⟨.string, (s + 1 : ℕ), (s + 1 + body.length : ℕ), size⟩
  | primitive {s size : ℕ} {text rest : List Char} (htext : js.drop s = text ++ rest)
    (hprimitive : PrimitiveText text) :
    Written js ⟨.primitive, s, (s + text.length : ℕ), size⟩

/-- A container whose closing bracket has not come yet. -/
inductive Begun (js : List Char) : Jsmntok → Prop
  | container {object : Bool} {s size : ℕ} (hopen : js[s]? = some (openChar object)) :
    Begun js ⟨containerType object, s, -1, size⟩

/-- A token and a later one: the later one starts behind the end of the first, lies in it, or starts
in a first one that is still open. -/
def Follows (a b : Jsmntok) : Prop :=
  a.start < b.start ∧
    (a.isOpen ∨ a.end_ ≤ b.start ∨ a.isContainer ∧ b.isOpen = false ∧ b.end_ < a.end_)

/-- The tokens up to a position. -/
structure Laid (js : List Char) (pos : ℕ) (toks : List Jsmntok) : Prop where
  located : ∀ t ∈ toks, t.start < pos ∧ (Begun js t ∨ Written js t ∧ t.end_ ≤ pos)
  nested : toks.Pairwise Follows

/-- A token without its number of children. -/
def Jsmntok.bare (t : Jsmntok) : Jsmntok := { t with size := 0 }

/-! ## Sizes do not matter -/

theorem Written.bare_iff : Written js t.bare ↔ Written js t := by
  constructor
  · intro h
    obtain ⟨type, start, end_, size⟩ := t
    unfold Jsmntok.bare at h
    dsimp only at h
    generalize hz : (0 : ℕ) = z at h
    cases h with
    | container hopen hclose hlt => exact .container hopen hclose hlt
    | string hquote htext hbody => exact .string hquote htext hbody
    | primitive htext hprimitive => exact .primitive htext hprimitive
  · rintro (⟨hopen, hclose, hlt⟩ | ⟨hquote, htext, hbody⟩ | ⟨htext, hprimitive⟩)
    · exact .container hopen hclose hlt
    · exact .string hquote htext hbody
    · exact .primitive htext hprimitive

theorem Begun.bare_iff : Begun js t.bare ↔ Begun js t := by
  constructor
  · intro h
    obtain ⟨type, start, end_, size⟩ := t
    unfold Jsmntok.bare at h
    dsimp only at h
    generalize hz : (0 : ℕ) = z at h
    cases h with
    | container hopen => exact .container hopen
  · rintro ⟨hopen⟩
    exact .container hopen

theorem Laid.congr {toks toks' : List Jsmntok} (h : Laid js pos toks)
    (hbare : toks'.map Jsmntok.bare = toks.map Jsmntok.bare) : Laid js pos toks' := by
  constructor
  · intro t ht
    have hmem : t.bare ∈ toks.map Jsmntok.bare := hbare ▸ List.mem_map_of_mem ht
    obtain ⟨u, hu, hut⟩ := List.mem_map.mp hmem
    have hstart : u.bare.start = t.bare.start := congrArg Jsmntok.start hut
    have hend : u.bare.end_ = t.bare.end_ := congrArg Jsmntok.end_ hut
    obtain ⟨hlt, hbegun | ⟨hwritten, hle⟩⟩ := h.located u hu
    · exact ⟨hstart.symm.trans_lt hlt, .inl (Begun.bare_iff.mp (hut ▸ Begun.bare_iff.mpr hbegun))⟩
    · exact ⟨hstart.symm.trans_lt hlt,
        .inr ⟨Written.bare_iff.mp (hut ▸ Written.bare_iff.mpr hwritten), hend.symm.trans_le hle⟩⟩
  · have hmap : ∀ l : List Jsmntok, l.Pairwise Follows ↔
        (l.map Jsmntok.bare).Pairwise Follows := by
      intro l
      rw [List.pairwise_map]
      exact Iff.rfl
    rw [hmap, hbare, ← hmap]
    exact h.nested

theorem map_modify_size (f : ℕ → ℕ) (toks : List Jsmntok) (i : ℕ) :
    (toks.modify i fun t => { t with size := f t.size }).map Jsmntok.bare =
      toks.map Jsmntok.bare := by
  induction toks generalizing i with
  | nil => cases i <;> rfl
  | cons t toks ih =>
    cases i with
    | zero => rfl
    | succ i =>
      rw [List.modify_succ_cons, List.map_cons, List.map_cons, ih]

theorem map_bare_countChild (toksuper : Option ℕ) (toks : List Jsmntok) :
    (countChild toksuper toks).map Jsmntok.bare = toks.map Jsmntok.bare := by
  unfold countChild
  split
  · exact map_modify_size (· + 1) _ _
  · rfl

/-! ## Open tokens -/

theorem Begun.isOpen (h : Begun js t) : t.isOpen = true ∧ t.isContainer = true := by
  obtain ⟨hopen⟩ := h
  rename_i object s size
  refine ⟨?_, by cases object <;> rfl⟩
  have hne : ((s : ℤ) != -1) = true := bne_iff_ne.mpr (by omega)
  exact Bool.and_eq_true_iff.mpr ⟨hne, rfl⟩

/-- A token that is complete ends at its start or behind it. -/
theorem Written.start_le (h : Written js t) : 0 ≤ t.start ∧ t.start ≤ t.end_ := by
  cases h with
  | container hopen hclose hlt =>
    dsimp only
    omega
  | string hquote htext hbody =>
    dsimp only
    omega
  | primitive htext hprimitive =>
    dsimp only
    omega

theorem Written.isOpen (h : Written js t) : t.isOpen = false := by
  have hle := h.start_le
  have hne : (t.end_ == -1) = false := beq_eq_false_iff_ne.mpr (by omega)
  exact Bool.and_eq_false_iff.mpr (.inr hne)

theorem lastIdx_eq_none {α : Type*} {p : α → Bool} {l : List α} :
    lastIdx p l = none ↔ ∀ a ∈ l, p a = false := by
  induction l with
  | nil => simp [lastIdx]
  | cons a l ih =>
    unfold lastIdx
    cases hlast : lastIdx p l with
    | some i =>
      rw [hlast] at ih
      simp only [reduceCtorEq, false_iff, not_forall] at ih ⊢
      obtain ⟨b, hb, hpb⟩ := ih
      exact ⟨b, List.mem_cons_of_mem a hb, hpb⟩
    | none =>
      have hrest := ih.mp hlast
      cases ha : p a with
      | true =>
        simp only [if_true, reduceCtorEq, false_iff, not_forall]
        exact ⟨a, List.mem_cons_self, by simp [ha]⟩
      | false =>
        simp only [Bool.false_eq_true, if_false, true_iff, List.mem_cons, forall_eq_or_imp]
        exact ⟨ha, hrest⟩

/-- The last element with a property splits the list. -/
theorem lastIdx_eq_some {α : Type*} {p : α → Bool} {l : List α} {i : ℕ}
    (h : lastIdx p l = some i) :
    ∃ pre a post, l = pre ++ a :: post ∧ pre.length = i ∧ p a ∧ ∀ b ∈ post, p b = false := by
  induction l generalizing i with
  | nil => cases h
  | cons a l ih =>
    unfold lastIdx at h
    cases hlast : lastIdx p l with
    | some j =>
      rw [hlast] at h
      cases h
      obtain ⟨pre, b, post, rfl, rfl, hb, hpost⟩ := ih hlast
      exact ⟨a :: pre, b, post, rfl, rfl, hb, hpost⟩
    | none =>
      rw [hlast] at h
      dsimp only at h
      split at h
      · rename_i ha
        cases h
        exact ⟨[], a, l, rfl, rfl, ha, lastIdx_eq_none.mp hlast⟩
      · cases h

/-! ## Passes -/

theorem Laid.mono {toks : List Jsmntok} {pos' : ℕ} (h : Laid js pos toks) (hle : pos ≤ pos') :
    Laid js pos' toks := by
  refine ⟨fun t ht => ?_, h.nested⟩
  obtain ⟨hlt, hbegun | ⟨hwritten, hend⟩⟩ := h.located t ht
  · exact ⟨by omega, .inl hbegun⟩
  · exact ⟨by omega, .inr ⟨hwritten, by omega⟩⟩

/-- A token is added behind the others. -/
theorem Laid.add {toks : List Jsmntok} {pos' : ℕ} (h : Laid js pos toks) (hle : pos ≤ pos')
    (hstart : pos ≤ t.start) (hlt : t.start < pos')
    (ht : Begun js t ∨ Written js t ∧ t.end_ ≤ pos') : Laid js pos' (toks ++ [t]) := by
  constructor
  · intro u hu
    rcases List.mem_append.mp hu with hu | hu
    · exact (h.mono hle).located u hu
    · rw [List.mem_singleton.mp hu]
      exact ⟨hlt, ht⟩
  · refine List.pairwise_append.mpr ⟨h.nested, List.pairwise_singleton .., fun u hu v hv => ?_⟩
    rw [List.mem_singleton.mp hv]
    obtain ⟨hbefore, hbegun | ⟨-, hend⟩⟩ := h.located u hu
    · exact ⟨by omega, .inl hbegun.isOpen.1⟩
    · exact ⟨by omega, .inr (.inl (by omega))⟩

theorem modify_append {α : Type*} (pre : List α) (a : α) (post : List α) (f : α → α) :
    (pre ++ a :: post).modify pre.length f = pre ++ f a :: post := by
  induction pre with
  | nil => rfl
  | cons b pre ih =>
    rw [List.cons_append, List.length_cons, List.modify_succ_cons, ih]
    rfl

/-- The last open token is closed by its bracket. -/
theorem Laid.close {pre post : List Jsmntok} {object : Bool}
    (h : Laid js pos (pre ++ t :: post)) (hopen : t.isOpen) (hpost : ∀ u ∈ post, u.isOpen = false)
    (hc : js[pos]? = some (closeChar object)) (htype : t.type = containerType object) :
    Laid js (pos + 1) (pre ++ { t with end_ := pos + 1 } :: post) := by
  have hmem : ∀ u, u ∈ pre ++ { t with end_ := pos + 1 } :: post →
      u = { t with end_ := pos + 1 } ∨ u ∈ pre ++ t :: post := by
    intro u hu
    simp only [List.mem_append, List.mem_cons] at hu ⊢
    tauto
  obtain ⟨hlt, hbegun | ⟨hwritten, -⟩⟩ := h.located t (by simp)
  · obtain ⟨hbracket⟩ := hbegun
    rename_i object' s size
    obtain rfl := containerType_injective htype
    have hs : s < pos := Int.ofNat_lt.mp hlt
    constructor
    · intro u hu
      rcases hmem u hu with rfl | hu
      · refine ⟨?_, .inr ⟨?_, ?_⟩⟩
        · dsimp only
          omega
        · have hwritten : Written js ⟨containerType object', s, (pos + 1 : ℕ), size⟩ :=
            .container hbracket hc hs
          exact_mod_cast hwritten
        · dsimp only
          omega
      · exact (h.mono (Nat.le_succ pos)).located u hu
    · obtain ⟨hpre, htail, hcross⟩ := List.pairwise_append.mp h.nested
      obtain ⟨hfollow, hrest⟩ := List.pairwise_cons.mp htail
      refine List.pairwise_append.mpr ⟨hpre, List.pairwise_cons.mpr ⟨fun u hu => ?_, hrest⟩, ?_⟩
      · refine ⟨(hfollow u hu).1, .inr (.inr ⟨?_, hpost u hu, ?_⟩)⟩
        · cases object' <;> rfl
        · obtain ⟨-, hbegun | ⟨-, hend⟩⟩ := h.located u (by simp [hu])
          · have hopen := hbegun.isOpen.1
            rw [hpost u hu] at hopen
            cases hopen
          · dsimp only
            omega
      · intro u hu v hv
        rcases List.mem_cons.mp hv with rfl | hv
        · obtain ⟨hbefore, hopen | hend | ⟨-, hclosed, -⟩⟩ := hcross u hu _ List.mem_cons_self
          · exact ⟨hbefore, .inl hopen⟩
          · exact ⟨hbefore, .inr (.inl hend)⟩
          · rw [(Begun.container hbracket).isOpen.1] at hclosed
            cases hclosed
        · exact hcross u hu v (List.mem_cons_of_mem _ hv)
  · rw [hwritten.isOpen] at hopen
    cases hopen

/-- What is read lies where it was read. -/
theorem tokenAt_written {e : ℕ} (hc : js[pos]? = some c) (hne : c ≠ nul)
    (h : tokenAt js pos (charCase c) = some (.ok (t, e))) :
    (pos : ℤ) ≤ t.start ∧ t.start < (e + 1 : ℕ) ∧
      (Begun js t ∨ Written js t ∧ t.end_ ≤ (e + 1 : ℕ)) := by
  obtain ⟨hlt, hget⟩ := List.getElem?_eq_some_iff.mp hc
  cases hk : charCase c with
  | opening type =>
    rw [hk] at h
    cases h
    obtain ⟨object, rfl, rfl⟩ := openChar_of_opening hk
    exact ⟨Int.le_refl _, Int.ofNat_lt.mpr (Nat.lt_succ_self pos), .inl (.container hc)⟩
  | quote =>
    rw [hk] at h
    simp only [tokenAt, Option.some.injEq] at h
    cases hend : stringEnd 0 (js.drop (pos + 1)) (pos + 1) with
    | error e =>
      rw [hend] at h
      cases h
    | ok e =>
      rw [hend] at h
      cases h
      obtain ⟨body, rest, htext, rfl, hbody⟩ := stringEnd_tail hend
      have hquote : c = '"' := charCase_quote hk
      refine ⟨?_, ?_, .inr ⟨?_, ?_⟩⟩
      · dsimp only
        omega
      · dsimp only
        omega
      · exact .string (hquote ▸ hc) htext hbody
      · dsimp only
        omega
  | other =>
    rw [hk] at h
    simp only [tokenAt, Option.some.injEq] at h
    cases hend : primitiveEnd (js.drop pos) pos with
    | none =>
      rw [hend] at h
      cases h
    | some e =>
      rw [hend] at h
      cases h
      have hpos := (lt_primitiveEnd hc hne hk hend).1
      obtain ⟨hlength, hplain⟩ := primitiveEnd_spec hend
      have hdrop : js.drop pos = c :: js.drop (pos + 1) := by
        rw [List.drop_eq_getElem_cons hlt, hget]
      have htext : Written js
          ⟨.primitive, pos, (pos + ((js.drop pos).take (e - pos)).length : ℕ), 0⟩ := by
        refine .primitive (List.take_append_drop (e - pos) _).symm ⟨hplain, c, ?_, hk⟩
        rw [hdrop, show e - pos = e - pos - 1 + 1 by omega, List.take_succ_cons]
        rfl
      rw [← hlength] at htext
      refine ⟨Int.le_refl _, ?_, .inr ⟨htext, ?_⟩⟩
      · dsimp only
        omega
      · dsimp only
        omega
  | closing type => rw [hk] at h; cases h
  | space => rw [hk] at h; cases h
  | colon => rw [hk] at h; cases h
  | comma => rw [hk] at h; cases h

/-- A pass lays its token behind the others. -/
theorem Laid.pass (h : Laid js p.pos p.toks) (hc : js[p.pos]? = some c) (hne : c ≠ nul)
    (hbody : jsmnBody js (some n) p (charCase c) = .ok (q, more)) :
    Laid js (q.pos + 1) q.toks := by
  cases hread : tokenAt js p.pos (charCase c) with
  | some r =>
    rw [jsmnBody_tokenAt hread] at hbody
    cases r with
    | error e => cases hbody
    | ok r =>
      obtain ⟨t, e⟩ := r
      unfold addRead at hbody
      dsimp only at hbody
      cases hadd : p.add (some n) t with
      | none =>
        rw [hadd] at hbody
        cases hbody
      | some s =>
        rw [hadd] at hbody
        cases hbody
        obtain ⟨-, rfl⟩ := p.add_some hadd
        obtain ⟨hstart, hlt, ht⟩ := tokenAt_written hc hne hread
        have hbefore : p.pos ≤ e + 1 := by omega
        exact (h.congr (map_bare_countChild _ _)).add hbefore hstart hlt ht
  | none =>
    obtain ⟨hpos, rfl, -⟩ := jsmnBody_length hread hbody
    cases hk : charCase c with
    | closing type =>
      rw [hk] at hbody
      cases hclose : closeBracket (some n) p type with
      | error e =>
        rw [jsmnBody, hclose] at hbody
        cases hbody
      | ok r =>
        rw [jsmnBody, hclose] at hbody
        cases hbody
        obtain ⟨i, t, hlast, hget, htype, rfl⟩ := closeBracket_some.mp hclose
        obtain ⟨object, rfl, rfl⟩ := closeChar_of_closing hk
        obtain ⟨pre, u, post, htoks, rfl, hopen, hpost⟩ := lastIdx_eq_some hlast
        rw [htoks] at h hget
        obtain rfl : u = t := by simpa using hget
        dsimp only
        rw [htoks, modify_append]
        exact h.close hopen hpost hc htype
    | opening type => rw [hk] at hread; cases hread
    | quote => rw [hk] at hread; cases hread
    | other => rw [hk] at hread; cases hread
    | space =>
      rw [hk] at hbody
      cases hbody
      exact h.mono (Nat.le_succ _)
    | colon =>
      rw [hk] at hbody
      cases hbody
      exact h.mono (Nat.le_succ _)
    | comma =>
      rw [hk] at hbody
      cases hbody
      have htoks : (comma (some n) p).toks = p.toks := by
        unfold comma
        repeat' split
        all_goals rfl
      rw [htoks, comma_pos]
      exact h.mono (Nat.le_succ _)

/-! ## Runs -/

/-- The tokens of a run that succeeds are complete, in the order of their starts, and each later one
lies inside an earlier object or array or behind its end. -/
structure Nested (js : List Char) (toks : List Jsmntok) : Prop where
  written : ∀ t ∈ toks, Written js t ∧ t.end_ ≤ js.length
  nested : toks.Pairwise fun a b =>
    a.start < b.start ∧ (a.end_ ≤ b.start ∨ a.isContainer ∧ b.end_ < a.end_)

theorem nested_parseFrom (p : JsmnParser) (count : ℕ) (hlaid : Laid js p.pos p.toks)
    (hpos : p.pos ≤ js.length) :
    ∀ m q, parseFrom js (some n) p count = (.ok m, q) → Nested js q.toks := by
  induction p, count using @passes_induction js (some n) with
  | finish p count hend =>
    intro m q hq
    rw [parseFrom_finish hend] at hq
    unfold jsmnFinish at hq
    split at hq
    · cases hq
    · rename_i hnone
      cases hq
      have hopen : ∀ t ∈ p.toks, t.isOpen = false := by
        apply lastIdx_eq_none.mp
        simpa using hnone
      have hwritten : ∀ t ∈ p.toks, Written js t ∧ t.end_ ≤ p.pos := by
        intro t ht
        obtain ⟨-, hbegun | hwritten⟩ := hlaid.located t ht
        · have hnot := hbegun.isOpen.1
          rw [hopen t ht] at hnot
          cases hnot
        · exact hwritten
      refine ⟨fun t ht => ⟨(hwritten t ht).1, ?_⟩, ?_⟩
      · have hend := (hwritten t ht).2
        omega
      · refine hlaid.nested.imp_of_mem fun ha hb hfollows => ?_
        obtain ⟨hbefore, hnot | hend | ⟨hcontainer, -, hinside⟩⟩ := hfollows
        · rw [hopen _ ha] at hnot
          cases hnot
        · exact ⟨hbefore, .inl hend⟩
        · exact ⟨hbefore, .inr ⟨hcontainer, hinside⟩⟩
  | error p count c e hc hne hbody =>
    intro m q hq
    rw [parseFrom_error hc hne hbody] at hq
    cases hq
  | step p count c q more hc hne hbody ih =>
    intro m r hr
    rw [parseFrom_step hc hne hbody] at hr
    exact ih (hlaid.pass hc hne hbody) (jsmnBody_pos hc hne hbody).2 m r hr

/-- In every text, the tokens of a run that succeeds are nested as they are written. -/
theorem jsmnParse_nested {m : ℕ} (h : jsmnParse js (some n) {} = (.ok m, q)) :
    Nested js q.toks := by
  refine nested_parseFrom {} 0 ⟨fun t ht => ?_, .nil⟩ (Nat.zero_le _) m q h
  cases ht

theorem jsmnParse_nested_list :
    Nested ['[', '"', 'a', '"', ' ', '1', ']']
      (jsmnParse ['[', '"', 'a', '"', ' ', '1', ']'] (some 3) {}).2.toks :=
  jsmnParse_nested (n := 3) (m := 3) (by decide)

end OnicDriver.Json
