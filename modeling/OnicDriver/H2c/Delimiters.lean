import OnicDriver.H2c.Running
import Mathlib.Data.List.Chain

/-!
# Delimiters of streaming requests

On a queue whose descriptors go to the bypass port and that has no callback, the
driver marks the first and the last descriptor of a request itself. A request may
be written in several passes, with other work between them. The flags depend on
the element that a descriptor is for and on what was in the first slot of the
ring, so that they are right as long as the outer elements have one descriptor
each and the first slot held nothing else.
-/

namespace OnicDriver.H2c

open Lib Queue

/-! ## The descriptors that a request needs -/

/-- The lengths of the descriptors for `len` bytes. There is one even for no bytes. -/
def splitLens (limit len : ℕ) : List ℕ :=
  List.replicate ((len - 1) / limit) limit ++ [len - limit * ((len - 1) / limit)]

/-- The descriptors for the elements from `elem` on, the first of which begins at `off`: their
elements and their lengths. -/
def toWrite (limit : ℕ) : ℕ → List SwSg → ℕ → List (ℕ × ℕ)
  | _, [], _ => []
  | elem, sg :: sgl, off =>
    (splitLens limit (sg.len - off)).map (Prod.mk elem) ++ toWrite limit (elem + 1) sgl 0

/-- The descriptors that a request still needs. -/
def stillToWrite (req : QdmaRequest) (cb : SgtReqCb) : List (ℕ × ℕ) :=
  match qdmaSglFindOffset req cb with
  | none => []
  | some (i, off) => toWrite (pktsz req) i (req.sgl.drop i) off

/-- The bytes of descriptors. -/
def bytesOf (descs : List (ℕ × ℕ)) : ℕ := (descs.map Prod.snd).sum

/-- The bytes of elements. -/
def bytesIn (sgl : List SwSg) : ℕ := (sgl.map SwSg.len).sum

/-- The flags that the driver sets in a descriptor for an element of a list of `n`. -/
def streamFlags (n elem : ℕ) : ℕ :=
  (if elem = 0 then S_H2C_DESC_F_SOP else 0) ||| (if elem + 1 = n then S_H2C_DESC_F_EOP else 0)

/-- The flags of all descriptors of a request for `n` elements. -/
def flagsFor (n : ℕ) (descs : List (ℕ × ℕ)) : List ℕ := descs.map fun d => streamFlags n d.1

/-- The flags `flags` of the descriptors of a request delimit it: the first has the start of the
packet, the last its end if the request was written to its end, and there is nothing else. -/
def Delimited (ended : Bool) (flags : List ℕ) : Prop :=
  flags = (List.range flags.length).map fun k =>
    (if k = 0 then S_H2C_DESC_F_SOP else 0) |||
      (if ended ∧ k + 1 = flags.length then S_H2C_DESC_F_EOP else 0)

instance (ended : Bool) (flags : List ℕ) : Decidable (Delimited ended flags) :=
  inferInstanceAs (Decidable (_ = _))

/-- The flags of a request that was not written to its end. -/
def Opened (flags : List ℕ) : Prop := ∃ m, flags = S_H2C_DESC_F_SOP :: List.replicate m 0

/-- The flags of a request that was. -/
def Closed (flags : List ℕ) : Prop :=
  flags = [S_H2C_DESC_F_SOP ||| S_H2C_DESC_F_EOP] ∨
    ∃ m, flags = S_H2C_DESC_F_SOP :: (List.replicate m 0 ++ [S_H2C_DESC_F_EOP])

/-- The element and the length of a piece. -/
def Piece.desc (p : Piece) : ℕ × ℕ := (p.elem, p.len)

section

variable {limit elem len off room : ℕ} {sg : SwSg} {sgl : List SwSg}

theorem splitLens_of_le (hle : len ≤ limit) : splitLens limit len = [len] := by
  have hzero : (len - 1) / limit = 0 := by
    rw [Nat.div_eq_zero_iff]
    omega
  rw [splitLens, hzero, List.replicate_zero, List.nil_append, Nat.mul_zero, Nat.sub_zero]

theorem splitLens_of_lt (hpos : 0 < limit) (hlt : limit < len) :
    splitLens limit len = limit :: splitLens limit (len - limit) := by
  have hdiv : (len - 1) / limit = (len - limit - 1) / limit + 1 := by
    rw [← Nat.add_div_right _ hpos]
    congr 1
    omega
  rw [splitLens, splitLens, hdiv, List.replicate_succ, List.cons_append, Nat.mul_succ]
  congr 3
  omega

theorem splitLens_ne_nil : splitLens limit len ≠ [] := by
  rw [splitLens]
  exact List.concat_ne_nil _ _

theorem sum_splitLens : (splitLens limit len).sum = len := by
  have hle : limit * ((len - 1) / limit) ≤ len - 1 := Nat.mul_div_le (len - 1) limit
  rw [splitLens, List.sum_append_nat, List.sum_replicate_nat, List.sum_singleton, Nat.mul_comm]
  omega

theorem bytesOf_append (descs descs' : List (ℕ × ℕ)) :
    bytesOf (descs ++ descs') = bytesOf descs + bytesOf descs' := by
  rw [bytesOf, List.map_append, List.sum_append]
  rfl

theorem bytesIn_cons : bytesIn (sg :: sgl) = sg.len + bytesIn sgl := by
  rw [bytesIn, List.map_cons, List.sum_cons]
  rfl

theorem bytesIn_append (sgl sgl' : List SwSg) :
    bytesIn (sgl ++ sgl') = bytesIn sgl + bytesIn sgl' := by
  rw [bytesIn, List.map_append, List.sum_append]
  rfl

theorem bytesOf_splitLens : bytesOf ((splitLens limit len).map (Prod.mk elem)) = len := by
  rw [bytesOf, List.map_map]
  change ((splitLens limit len).map id).sum = len
  rw [List.map_id, sum_splitLens]

/-- The descriptors transfer what is left of the elements. -/
theorem bytesOf_toWrite (hoff : ∀ sg ∈ sgl.head?, off ≤ sg.len) (hnil : sgl = [] → off = 0) :
    bytesOf (toWrite limit elem sgl off) + off = bytesIn sgl := by
  induction sgl generalizing elem off with
  | nil =>
    rw [hnil rfl]
    rfl
  | cons sg sgl ih =>
    have hle : off ≤ sg.len := hoff sg rfl
    have hrest := @ih (elem + 1) 0 (fun _ _ => Nat.zero_le _) (fun _ => rfl)
    rw [toWrite, bytesOf_append, bytesOf_splitLens, bytesIn_cons]
    omega

/-- The pieces of an element are the first of its descriptors. -/
theorem cutElement_descs {src ep : ℕ} (hlen : len < 2 ^ 32) (hlimit : 0 < limit ∨ len = 0) :
    (cutElement limit none elem room len src ep).1.map Piece.desc =
      ((splitLens limit len).map (Prod.mk elem)).take room := by
  induction room generalizing len src ep with
  | zero => rfl
  | succ room ih =>
    have hwrap : u32 ((len : ℤ) - (min len limit : ℕ)) = len - min len limit := by
      rw [← Nat.cast_sub (Nat.min_le_left len limit)]
      exact u32_natCast (by omega)
    unfold cutElement
    dsimp only [keyhole]
    rw [hwrap]
    by_cases hle : len ≤ limit
    · rw [Nat.min_eq_left hle, Nat.sub_self, if_pos rfl, splitLens_of_le hle,
        List.map_singleton, List.map_singleton, List.take_succ_cons, List.take_nil]
      rfl
    · have hpos : 0 < limit := by omega
      have hmin : min len limit = limit := Nat.min_eq_right (by omega)
      have hrest := @ih (len - limit) (u64 ((src : ℤ) + limit)) (u64 ((ep : ℤ) + limit))
        (by omega) (Or.inl hpos)
      rw [hmin, if_neg (by omega), splitLens_of_lt hpos (by omega), List.map_cons, List.map_cons,
        List.take_succ_cons, ← hrest]
      rfl

/-- The pieces of a list are the first of its descriptors. -/
theorem cutList_descs {ep : ℕ} (hoff : ∀ sg ∈ sgl.head?, off ≤ sg.len)
    (hsum : bytesIn sgl < 2 ^ 32) (hlimit : 0 < limit ∨ bytesIn sgl = 0) :
    (cutList limit none elem sgl off room ep).map Piece.desc =
      (toWrite limit elem sgl off).take room := by
  induction sgl generalizing elem off room ep with
  | nil => exact List.take_nil.symm
  | cons sg sgl ih =>
    have hle : off ≤ sg.len := hoff sg rfl
    rw [bytesIn_cons] at hsum hlimit
    unfold cutList toWrite
    by_cases hroom : room = 0
    · rw [if_pos hroom, hroom]
      rfl
    · have hwrap : u32 ((sg.len : ℤ) - off) = sg.len - off := by
        rw [← Nat.cast_sub hle]
        exact u32_natCast (by omega)
      have hhead : ∀ src, (cutElement limit none elem room (sg.len - off) src ep).1.map Piece.desc =
          ((splitLens limit (sg.len - off)).map (Prod.mk elem)).take room :=
        fun src => cutElement_descs (by omega) (by omega)
      rw [if_neg hroom, hwrap]
      dsimp only
      rw [List.map_append, hhead, List.take_append]
      congr 1
      rw [ih (fun _ _ => Nat.zero_le _) (by omega) (by omega)]
      congr 1
      rw [← List.length_map Piece.desc, hhead, List.length_take]
      omega

/-! ## Their flags -/

theorem flagsFor_append (n : ℕ) (descs descs' : List (ℕ × ℕ)) :
    flagsFor n (descs ++ descs') = flagsFor n descs ++ flagsFor n descs' :=
  List.map_append

theorem length_flagsFor (n : ℕ) (descs : List (ℕ × ℕ)) :
    (flagsFor n descs).length = descs.length :=
  List.length_map _

theorem flagsFor_take (n a : ℕ) (descs : List (ℕ × ℕ)) :
    flagsFor n (descs.take a) = (flagsFor n descs).take a :=
  List.map_take

/-- The elements between the first and the last get no flags. -/
theorem flagsFor_middle {n : ℕ} (hfirst : elem ≠ 0) (hlast : elem + 1 ≠ n) :
    flagsFor n ((splitLens limit len).map (Prod.mk elem)) =
      List.replicate (splitLens limit len).length 0 := by
  have hflags : streamFlags n elem = 0 := by
    rw [streamFlags, if_neg hfirst, if_neg hlast]
    rfl
  rw [flagsFor, List.map_map]
  change (splitLens limit len).map (fun _ => streamFlags n elem) = _
  rw [hflags, List.map_const']

/-- After the first element, only the last descriptor has a flag. -/
theorem flagsFor_toWrite {n : ℕ} (hsgl : sgl ≠ []) (hfirst : elem ≠ 0)
    (hlen : elem + sgl.length = n) (hlast : ∀ last ∈ sgl.getLast?, last.len ≤ limit) :
    ∃ m, flagsFor n (toWrite limit elem sgl off) = List.replicate m 0 ++ [S_H2C_DESC_F_EOP] := by
  induction sgl generalizing elem off with
  | nil => exact absurd rfl hsgl
  | cons sg sgl ih =>
    cases sgl with
    | nil =>
      have hle : sg.len - off ≤ limit := (Nat.sub_le _ _).trans (hlast sg rfl)
      have hend : elem + 1 = n := hlen
      refine ⟨0, ?_⟩
      rw [toWrite, toWrite, splitLens_of_le hle, List.append_nil]
      change [streamFlags n elem] = _
      rw [streamFlags, if_neg hfirst, if_pos hend]
      rfl
    | cons sg' sgl =>
      rw [List.length_cons, List.length_cons] at hlen
      rw [List.getLast?_cons_cons] at hlast
      obtain ⟨m, hm⟩ := @ih (elem + 1) 0 (List.cons_ne_nil _ _) (by omega)
        (by rw [List.length_cons]; omega) hlast
      rw [toWrite, flagsFor_append, flagsFor_middle hfirst (by omega), hm, ← List.append_assoc,
        List.replicate_append_replicate]
      exact ⟨_, rfl⟩

/-- If the outer elements have one descriptor each, the flags delimit the request. -/
theorem closed_toWrite {n : ℕ} (hlen : (sg :: sgl).length = n) (hfirst : sg.len ≤ limit)
    (hlast : ∀ last ∈ (sg :: sgl).getLast?, last.len ≤ limit) :
    Closed (flagsFor n (toWrite limit 0 (sg :: sgl) 0)) := by
  rw [toWrite, splitLens_of_le (by omega), flagsFor_append]
  cases sgl with
  | nil =>
    left
    rw [toWrite, ← hlen]
    rfl
  | cons sg' sgl =>
    rw [List.length_cons, List.length_cons] at hlen
    rw [List.getLast?_cons_cons] at hlast
    obtain ⟨m, hm⟩ := @flagsFor_toWrite limit (0 + 1) 0 (sg' :: sgl) n (List.cons_ne_nil sg' sgl)
      (by omega) (by rw [List.length_cons]; omega) hlast
    right
    refine ⟨m, ?_⟩
    rw [hm]
    change [streamFlags n 0] ++ _ = _
    rw [streamFlags, if_pos rfl, if_neg (by omega)]
    rfl

theorem Opened.append_zeros {flags : List ℕ} (h : Opened flags) (m : ℕ) :
    Opened (flags ++ List.replicate m 0) := by
  obtain ⟨k, rfl⟩ := h
  refine ⟨k + m, ?_⟩
  rw [List.cons_append, List.replicate_append_replicate]

theorem Opened.append_end {flags : List ℕ} (h : Opened flags) (m : ℕ) :
    Closed (flags ++ (List.replicate m 0 ++ [S_H2C_DESC_F_EOP])) := by
  obtain ⟨k, rfl⟩ := h
  right
  refine ⟨k + m, ?_⟩
  rw [List.cons_append, ← List.append_assoc, List.replicate_append_replicate]

theorem Closed.take {flags : List ℕ} (h : Closed flags) {a : ℕ} (hpos : 0 < a)
    (hlt : a < flags.length) : Opened (flags.take a) := by
  obtain ⟨a, rfl⟩ : ∃ b, a = b + 1 := ⟨a - 1, by omega⟩
  obtain rfl | ⟨m, rfl⟩ := h
  · rw [List.length_singleton] at hlt
    omega
  · rw [List.length_cons, List.length_append, List.length_replicate, List.length_singleton] at hlt
    refine ⟨a, ?_⟩
    rw [List.take_succ_cons, List.take_append_of_le_length (by rw [List.length_replicate]; omega),
      List.take_replicate, Nat.min_eq_left (by omega)]

theorem Opened.delimited {flags : List ℕ} (h : Opened flags) : Delimited false flags := by
  obtain ⟨m, rfl⟩ := h
  rw [Delimited, List.length_cons, List.length_replicate, List.range_succ_eq_map, List.map_cons,
    List.map_map]
  rw [if_pos rfl, if_neg fun h => Bool.false_ne_true h.1, Nat.or_zero]
  congr 1
  symm
  rw [List.eq_replicate_iff, List.length_map, List.length_range]
  refine ⟨rfl, ?_⟩
  intro b hb
  obtain ⟨k, -, rfl⟩ := List.mem_map.mp hb
  rw [Function.comp_apply, if_neg (Nat.succ_ne_zero k), if_neg fun h => Bool.false_ne_true h.1]
  rfl

theorem Closed.delimited {flags : List ℕ} (h : Closed flags) : Delimited true flags := by
  obtain rfl | ⟨m, rfl⟩ := h
  · rfl
  · rw [Delimited, List.length_cons, List.length_append, List.length_replicate,
      List.length_singleton, List.range_succ_eq_map, List.map_cons, List.map_map,
      List.range_succ, List.map_append, if_pos rfl, if_neg (by omega), Nat.or_zero]
    congr 2
    · apply List.ext_getElem
      · rw [List.length_replicate, List.length_map, List.length_range]
      · intro k hk _
        rw [List.length_replicate] at hk
        rw [List.getElem_replicate, List.getElem_map, List.getElem_range, Function.comp_apply,
          if_neg (Nat.succ_ne_zero k), if_neg (by omega)]
        rfl
    · rw [List.map_singleton, Function.comp_apply, if_neg (Nat.succ_ne_zero m), if_pos ⟨rfl, rfl⟩]
      rfl

end

/-! ## The slots of a pass -/

section

variable {conf : QueueConf} {n pidx j s : ℕ} {pieces : List Piece} {desc : ℕ → H2cDesc}

/-- What a pass that begins at `pidx` finds in the slot of its descriptor `j`. Only the first slot
of the ring may hold something. -/
def staleFlags (rngsz pidx first : ℕ) (j : ℕ) : ℕ :=
  if 0 < j ∧ pidx + j = rngsz then first else 0

theorem or_ite {c : Prop} [Decidable c] (x b : ℕ) :
    (if c then x ||| b else x) = x ||| if c then b else 0 := by
  split
  · rfl
  · exact (Nat.or_zero x).symm

theorem slot_eq {rngsz : ℕ} (hpidx : pidx < rngsz) (hj : j < rngsz) :
    (nextSlot rngsz)^[j] pidx = if pidx + j < rngsz then pidx + j else pidx + j - rngsz := by
  rw [iterate_nextSlot hpidx]
  split
  · rename_i hlt
    exact Nat.mod_eq_of_lt hlt
  · rename_i hge
    rw [Nat.mod_eq_sub_mod (not_lt.mp hge), Nat.mod_eq_of_lt (by omega)]

/-- The slot after the one that was written is cleared, unless it is the first of the ring. -/
def clearSlot (next : ℕ) (desc : ℕ → H2cDesc) : ℕ → H2cDesc :=
  if next = 0 then desc else Function.update desc next { desc next with flags := 0, cdhFlags := 0 }

theorem clearSlot_of_ne {next : ℕ} (hne : s ≠ next) : clearSlot next desc s = desc s := by
  unfold clearSlot
  split
  · rfl
  · exact Function.update_of_ne hne _ _

theorem clearSlot_flags {next : ℕ} :
    (clearSlot next desc next).flags = if next = 0 then (desc next).flags else 0 := by
  unfold clearSlot
  split
  · rfl
  · rw [Function.update_self]

/-- What is written for the first of several pieces. -/
theorem storeSt_cons (hbypass : conf.descBypass = true) (p : Piece) :
    ∃ d : H2cDesc, d.flags = (desc pidx).flags ||| streamFlags n p.elem ∧
      storeSt conf n (p :: pieces) pidx desc =
        storeSt conf n pieces (nextSlot conf.rngsz pidx)
          (clearSlot (nextSlot conf.rngsz pidx) (Function.update desc pidx d)) := by
  refine ⟨_, ?_, rfl⟩
  simp only [hbypass, true_and]
  rw [or_ite, or_ite, Nat.or_assoc]
  rfl

/-- Slots that are not written and not the next one are left alone. -/
theorem storeSt_of_ne (hne : ∀ j ≤ pieces.length, (nextSlot conf.rngsz)^[j] pidx ≠ s) :
    storeSt conf n pieces pidx desc s = desc s := by
  induction pieces generalizing pidx desc with
  | nil => rfl
  | cons p pieces ih =>
    have hself : s ≠ pidx := (hne 0 (Nat.zero_le _)).symm
    have hnext : s ≠ nextSlot conf.rngsz pidx := (hne 1 (Nat.succ_le_succ (Nat.zero_le _))).symm
    change storeSt conf n pieces (nextSlot conf.rngsz pidx)
      (clearSlot (nextSlot conf.rngsz pidx) (Function.update desc pidx _)) s = desc s
    rw [ih, clearSlot_of_ne hnext, Function.update_of_ne hself]
    intro j hj
    rw [← Function.iterate_succ_apply]
    exact hne (j + 1) (Nat.succ_le_succ hj)

/-- The flags of the descriptors that are written: those of their elements, and what was in the
slot. -/
theorem storeSt_flags (hbypass : conf.descBypass = true) (hpidx : pidx < conf.rngsz)
    (hlen : pieces.length < conf.rngsz) {p : Piece} (hp : pieces[j]? = some p) :
    (storeSt conf n pieces pidx desc ((nextSlot conf.rngsz)^[j] pidx)).flags =
      (if j = 0 then (desc pidx).flags
        else staleFlags conf.rngsz pidx (desc 0).flags j) ||| streamFlags n p.elem := by
  induction pieces generalizing pidx desc j with
  | nil => cases hp
  | cons p' pieces ih =>
    rw [List.length_cons] at hlen
    have hnext : nextSlot conf.rngsz pidx = if pidx + 1 < conf.rngsz then pidx + 1 else 0 := by
      unfold nextSlot
      split <;> split <;> omega
    have hnextLt : nextSlot conf.rngsz pidx < conf.rngsz := by
      rw [hnext]
      split <;> omega
    have hne : nextSlot conf.rngsz pidx ≠ pidx := by
      rw [hnext]
      split <;> omega
    obtain ⟨d, hd, hstore⟩ := @storeSt_cons conf n pidx pieces desc hbypass p'
    rw [hstore]
    cases j with
    | zero =>
      rw [List.getElem?_cons_zero] at hp
      have hapart : ∀ k ≤ pieces.length,
          (nextSlot conf.rngsz)^[k] (nextSlot conf.rngsz pidx) ≠ pidx := by
        intro k hk
        rw [← Function.iterate_succ_apply, slot_eq hpidx (by omega)]
        split <;> omega
      rw [Function.iterate_zero_apply, storeSt_of_ne hapart, clearSlot_of_ne hne.symm,
        Function.update_self, hd, Option.some.inj hp, if_pos rfl]
    | succ j =>
      rw [List.getElem?_cons_succ] at hp
      have hj : j < pieces.length := (List.getElem?_eq_some_iff.mp hp).1
      rw [Function.iterate_succ_apply, ih hnextLt (by omega) hp, if_neg (Nat.succ_ne_zero j)]
      congr 1
      unfold staleFlags
      by_cases hzero : j = 0
      · rw [if_pos hzero, clearSlot_flags, Function.update_of_ne hne, hzero]
        rw [hnext]
        split
        · rw [if_neg (by omega), if_neg (by omega)]
        · rw [if_pos rfl, if_pos (by omega)]
      · rw [if_neg hzero]
        by_cases hwrap : pidx + 1 = conf.rngsz
        · have hfirst : nextSlot conf.rngsz pidx = 0 := by
            rw [hnext]
            exact if_neg (by omega)
          rw [hfirst, if_neg (by omega), if_neg (by omega)]
        · have hsucc : nextSlot conf.rngsz pidx = pidx + 1 := by
            rw [hnext]
            exact if_pos (by omega)
          rw [hsucc, clearSlot_of_ne (Nat.succ_ne_zero pidx).symm]
          by_cases hfirst : pidx = 0
          · rw [if_neg (by omega), if_neg (by omega)]
          · rw [Function.update_of_ne (Ne.symm hfirst)]
            congr 1
            rw [eq_iff_iff]
            omega

end

/-! ## A pass -/

/-- The flags of the descriptors that a pass writes. -/
def writtenFlags (conf : QueueConf) (id : ReqId) (q : Descq) : List ℕ :=
  let q' := (stPass conf id q).2
  (List.range (q'.written - q.written)).map fun j =>
    (q'.h2cDesc ((nextSlot conf.rngsz)^[j] q.pidx)).flags

/-- The descriptors that a pass writes: the first of those that are needed, as many as are free. -/
def passDescs (id : ReqId) (q : Descq) : List (ℕ × ℕ) :=
  (stillToWrite (q.req id) (q.cb id)).take q.avail

/-- What the first slot of the ring holds are flags of the descriptor that a pass puts there after
it came to the end of the ring. -/
def FirstSlotFits (conf : QueueConf) (id : ReqId) (q : Descq) : Prop :=
  ∀ d ∈ (passDescs id q)[conf.rngsz - q.pidx]?,
    (q.h2cDesc 0).flags ||| streamFlags (q.req id).sgcnt d.1 = streamFlags (q.req id).sgcnt d.1

/-- The descriptors for which there is no room have something to transfer. -/
def LeavesBytes (id : ReqId) (q : Descq) : Prop :=
  let descs := (stillToWrite (q.req id) (q.cb id)).drop q.avail
  descs ≠ [] → 0 < bytesOf descs

/-- The first element and the last have one descriptor each, and the first has bytes if the request
has. -/
def OuterFit (req : QdmaRequest) : Prop :=
  (∀ first ∈ req.sgl.head?, first.len ≤ pktsz req ∧ (first.len = 0 → req.count = 0)) ∧
    ∀ last ∈ req.sgl.getLast?, last.len ≤ pktsz req

instance (conf : QueueConf) (id : ReqId) (q : Descq) : Decidable (FirstSlotFits conf id q) :=
  inferInstanceAs (Decidable (∀ d ∈ _, _))

instance (id : ReqId) (q : Descq) : Decidable (LeavesBytes id q) :=
  inferInstanceAs (Decidable (_ → _))

/-- Whether a request is written to its end after a pass. -/
def ended (conf : QueueConf) (id : ReqId) (q : Descq) : Bool :=
  (q.req id).count ≤ ((stPass conf id q).2.cb id).offset

/-- Between two passes for a request its descriptors, the place of the next one and the request
stay as they are. -/
structure Undisturbed (id : ReqId) (q q' : Descq) : Prop where
  pidx : q'.pidx = q.pidx
  desc : q'.h2cDesc = q.h2cDesc
  req : q'.req id = q.req id
  offset : (q'.cb id).offset = (q.cb id).offset

/-- A request is not at its end after a pass, and there is another pass later. -/
structure GoesOn (conf : QueueConf) (id : ReqId) (q q' : Descq) : Prop where
  unfinished : ended conf id q = false
  undisturbed : Undisturbed id (stPass conf id q).2 q'

/-- The passes that write a request, given by the queue before each of them. -/
structure Submits (conf : QueueConf) (id : ReqId) (req : QdmaRequest) (qs : List Descq) : Prop where
  req : ∀ q ∈ qs, q.req id = req
  pidx : ∀ q ∈ qs, q.pidx < conf.rngsz
  free : ∀ q ∈ qs, 0 < q.avail
  avail : ∀ q ∈ qs, q.avail < conf.rngsz
  begins : ∀ q ∈ qs.head?, (q.cb id).offset = 0
  goesOn : qs.IsChain (GoesOn conf id)

/-- The list of a request has its bytes. -/
structure Complete (req : QdmaRequest) : Prop where
  length : req.sgl.length = req.sgcnt
  nonempty : req.sgl ≠ []
  count : req.count = bytesIn req.sgl
  count_lt : req.count < 2 ^ 32

section

variable {conf : QueueConf} {q : Descq} {id : ReqId} {req : QdmaRequest} {cb : SgtReqCb}

theorem Complete.covers (h : Complete req) : Covers req := by
  constructor
  · exact h.length
  · exact h.nonempty
  · exact h.count.le
  · exact h.count.symm.trans_lt h.count_lt

/-- Where the search for an offset ends. -/
theorem findOffset_spec {offset i len j off : ℕ} {sgl : List SwSg} (hle : len ≤ offset)
    (hsum : len + bytesIn sgl < 2 ^ 32) (hfind : findOffset offset i len sgl = some (j, off)) :
    ∃ pre sg post, sgl = pre ++ sg :: post ∧ j = i + pre.length ∧
      len + bytesIn pre + off = offset ∧ (off = 0 ∨ off < sg.len) := by
  induction sgl generalizing i len with
  | nil => cases hfind
  | cons sg sgl ih =>
    rw [bytesIn_cons] at hsum
    have hwrap : u32 ((len : ℤ) + sg.len) = len + sg.len := by
      rw [← Nat.cast_add]
      exact u32_natCast (by omega)
    unfold findOffset at hfind
    dsimp only at hfind
    rw [hwrap] at hfind
    split at hfind
    · rename_i heq
      split at hfind
      · cases hfind
      · rename_i hne
        obtain ⟨sg', post, rfl⟩ := List.exists_cons_of_ne_nil hne
        cases hfind
        exact ⟨[sg], sg', post, rfl, rfl, heq, Or.inl rfl⟩
    · split at hfind
      · rename_i hlt
        have hoff : u32 ((sg.len : ℤ) - ((len + sg.len : ℕ) - offset)) = offset - len := by
          have hcast : (sg.len : ℤ) - ((len + sg.len : ℕ) - offset) = (offset - len : ℕ) := by
            push_cast
            omega
          rw [hcast]
          exact u32_natCast (by omega)
        rw [hoff] at hfind
        cases hfind
        refine ⟨[], sg, sgl, rfl, rfl, ?_, Or.inr (by omega)⟩
        change len + 0 + (offset - len) = offset
        omega
      · obtain ⟨pre, sg', post, rfl, hj, hbytes, hoff⟩ := ih (by omega) (by omega) hfind
        refine ⟨sg :: pre, sg', post, rfl, ?_, ?_, hoff⟩
        · rw [List.length_cons]
          omega
        · rw [bytesIn_cons]
          omega

/-- Where a request goes on. -/
theorem Complete.position (h : Complete req) (hun : Unfinished req cb)
    (hzero : req.count = 0 → cb.offset = 0) :
    ∃ pre sg post off, req.sgl = pre ++ sg :: post ∧
      qdmaSglFindOffset req cb = some (pre.length, off) ∧ bytesIn pre + off = cb.offset ∧
      (off = 0 ∨ off < sg.len) := by
  obtain ⟨i, off, hfind, -⟩ := h.covers.findOffset hun
  rw [hfind]
  unfold qdmaSglFindOffset at hfind
  split at hfind
  · rename_i hcount
    cases hfind
    obtain ⟨sg, post, hsgl⟩ := List.exists_cons_of_ne_nil h.nonempty
    exact ⟨[], sg, post, 0, hsgl, rfl, (hzero hcount).symm, Or.inl rfl⟩
  · rw [← h.length, List.take_length] at hfind
    have hsum := h.count_lt
    rw [h.count] at hsum
    obtain ⟨pre, sg, post, hsgl, hi, hbytes, hoff⟩ :=
      findOffset_spec (Nat.zero_le _) (by omega) hfind
    rw [Nat.zero_add] at hi hbytes
    exact ⟨pre, sg, post, off, hsgl, by rw [hi], hbytes, hoff⟩

/-- The descriptors that are needed transfer the bytes that are left. -/
theorem Complete.bytesOf_stillToWrite (h : Complete req) (hun : Unfinished req cb)
    (hzero : req.count = 0 → cb.offset = 0) :
    cb.offset + bytesOf (stillToWrite req cb) = req.count := by
  obtain ⟨pre, sg, post, off, hsgl, hfind, hbytes, hoff⟩ := h.position hun hzero
  have hdrop : req.sgl.drop pre.length = sg :: post := by
    rw [hsgl]
    exact List.drop_left
  have hle : off ≤ sg.len := by omega
  have htotal := @bytesOf_toWrite (pktsz req) pre.length off (sg :: post)
    (fun s hs => Option.some.inj hs ▸ hle) (fun hnil => nomatch hnil)
  rw [stillToWrite, hfind]
  dsimp only
  rw [hdrop, h.count, hsgl, bytesIn_append]
  omega

theorem cb_qdmaUpdateRequest (n c : ℕ) :
    ((qdmaUpdateRequest q id n c).cb id).offset = u32 (((q.cb id).offset : ℤ) + c) := by
  have hself : Function.update q.cb id { q.cb id with
      descNr := (q.cb id).descNr + n, offset := u32 (((q.cb id).offset : ℤ) + c) } id = _ :=
    Function.update_self id _ _
  unfold qdmaUpdateRequest
  dsimp only
  split <;> exact congrArg SgtReqCb.offset hself

/-- A pass writes the pieces that stand for its descriptors, after it cleared the slot of the
first. -/
theorem Complete.stPass (h : Complete req) (hreq : q.req id = req) (hext : conf.ulExt = none)
    (hpos : 0 < q.avail) (hfit : OuterFit req) (hun : Unfinished req (q.cb id))
    (hzero : req.count = 0 → (q.cb id).offset = 0) :
    ∃ pieces desc, pieces.map Piece.desc = passDescs id q ∧ (desc q.pidx).flags = 0 ∧
      (q.pidx ≠ 0 → desc 0 = q.h2cDesc 0) ∧
      (H2c.stPass conf id q).2 =
        issue conf id pieces { q with
          h2cDesc := storeSt conf req.sgcnt pieces q.pidx desc } := by
  obtain ⟨pre, sg, post, off, hsgl, hfind, hbytes, hoff⟩ := h.position hun hzero
  have hdrop : req.sgl.drop pre.length = sg :: post := by
    rw [hsgl]
    exact List.drop_left
  have hle : off ≤ sg.len := by omega
  have hcount := h.count
  have hlt := h.count_lt
  rw [hsgl, bytesIn_append] at hcount
  have hlimit : 0 < pktsz req ∨ bytesIn (sg :: post) = 0 := by
    obtain ⟨first, rest, hlist⟩ := List.exists_cons_of_ne_nil h.nonempty
    obtain ⟨hlen, hnone⟩ := hfit.1 first (by rw [hlist]; rfl)
    omega
  refine ⟨cutList (pktsz req) none pre.length (sg :: post) off q.avail 0,
    Function.update q.h2cDesc q.pidx { q.h2cDesc q.pidx with flags := 0, cdhFlags := 0 },
    ?_, by rw [Function.update_self], fun hne => Function.update_of_ne hne.symm _ _, ?_⟩
  · rw [cutList_descs (fun s hs => Option.some.inj hs ▸ hle) (by omega) hlimit, passDescs, hreq,
      stillToWrite, hfind]
    dsimp only
    rw [hdrop]
  · unfold H2c.stPass
    dsimp only
    rw [if_neg hpos.ne', if_neg hpos.ne', hext, hreq, hfind]
    dsimp only
    rw [← h.length, List.take_length, hdrop]

theorem written_issue (pieces : List Piece) :
    (issue conf id pieces q).written = q.written + pieces.length := by
  have hring := @ring_qdmaUpdateRequest q id pieces.length (dataCnt pieces)
  exact congrArg (· + pieces.length) (congrArg RingView.written hring)

theorem h2cDesc_issue (pieces : List Piece) :
    (issue conf id pieces q).h2cDesc = q.h2cDesc := by
  unfold issue qdmaUpdateRequest
  dsimp only
  split <;> rfl

theorem sum_len_eq (pieces : List Piece) :
    (pieces.map Piece.len).sum = bytesOf (pieces.map Piece.desc) := by
  rw [bytesOf, List.map_map]
  rfl

/-- What a pass writes, and how far the request is then. -/
theorem Complete.pass (h : Complete req) (hreq : q.req id = req) (hbypass : conf.descBypass = true)
    (hext : conf.ulExt = none) (hpidx : q.pidx < conf.rngsz) (hpos : 0 < q.avail)
    (hroom : q.avail < conf.rngsz) (hfit : OuterFit req) (hun : Unfinished req (q.cb id))
    (hzero : req.count = 0 → (q.cb id).offset = 0) (hfirst : FirstSlotFits conf id q) :
    writtenFlags conf id q = flagsFor req.sgcnt (passDescs id q) ∧
      ((H2c.stPass conf id q).2.cb id).offset = (q.cb id).offset + bytesOf (passDescs id q) := by
  obtain ⟨pieces, desc, hdescs, hcleared, hkept, hpass⟩ := h.stPass hreq hext hpos hfit hun hzero
  have hlen : pieces.length < conf.rngsz := by
    rw [← List.length_map Piece.desc, hdescs, passDescs, List.length_take]
    omega
  have htotal := h.bytesOf_stillToWrite hun hzero
  have hlt := h.count_lt
  have hle : bytesOf (passDescs id q) ≤ bytesOf (stillToWrite req (q.cb id)) := by
    have hsplit := congrArg bytesOf (List.take_append_drop q.avail (stillToWrite req (q.cb id)))
    rw [bytesOf_append] at hsplit
    rw [passDescs, hreq]
    omega
  constructor
  · unfold writtenFlags
    dsimp only
    rw [hpass, written_issue, h2cDesc_issue, Nat.add_sub_cancel_left]
    apply List.ext_getElem?
    intro j
    rw [List.getElem?_map, ← hdescs, flagsFor, List.map_map, List.getElem?_map]
    by_cases hj : j < pieces.length
    · obtain ⟨p, hp⟩ : ∃ p, pieces[j]? = some p := ⟨_, List.getElem?_eq_getElem hj⟩
      rw [List.getElem?_range hj, hp, Option.map_some, Option.map_some,
        storeSt_flags hbypass hpidx hlen hp]
      congr 1
      by_cases hstart : j = 0
      · rw [if_pos hstart, hcleared]
        exact Nat.zero_or _
      · rw [if_neg hstart]
        unfold staleFlags
        split
        · rename_i hslot
          have hindex : conf.rngsz - q.pidx = j := by omega
          have hd : (passDescs id q)[conf.rngsz - q.pidx]? = some p.desc := by
            rw [hindex, ← hdescs, List.getElem?_map, hp, Option.map_some]
          have hfits := hfirst _ hd
          rw [hreq] at hfits
          rw [hkept (by omega)]
          exact hfits
        · exact Nat.zero_or _
    · rw [List.getElem?_eq_none (by rw [List.length_range]; omega),
        List.getElem?_eq_none (by omega)]
      rfl
  · have hdata : dataCnt pieces = bytesOf (passDescs id q) := by
      rw [dataCnt, sum_len_eq, hdescs]
      exact u32_natCast (by omega)
    have hoffset : ∀ q' : Descq, ((issue conf id pieces q').cb id).offset =
        u32 (((q'.cb id).offset : ℤ) + dataCnt pieces) := fun q' => cb_qdmaUpdateRequest _ _
    rw [hpass, hoffset, hdata, ← Nat.cast_add]
    exact u32_natCast (by dsimp only; omega)

/-! ## All passes -/

/-- The flags of the descriptors written so far, for a request that goes on at `offset`. -/
def SoFar (req : QdmaRequest) (flags : List ℕ) (offset : ℕ) : Prop :=
  (flags = [] ∧ offset = 0) ∨
    (Opened flags ∧ offset < req.count ∧ ∀ first ∈ req.sgl.head?, first.len ≤ offset)

theorem SoFar.unfinished {flags : List ℕ} (h : SoFar req flags cb.offset) :
    Unfinished req cb ∧ (req.count = 0 → cb.offset = 0) := by
  unfold Unfinished
  obtain ⟨-, hzero⟩ | ⟨-, hlt, -⟩ := h <;> omega

/-- A request begins with its first element. -/
theorem Complete.stillToWrite_start (h : Complete req) (hfit : OuterFit req)
    (hoffset : cb.offset = 0) : stillToWrite req cb = toWrite (pktsz req) 0 req.sgl 0 := by
  have hfind : qdmaSglFindOffset req cb = some (0, 0) := by
    by_cases hcount : req.count = 0
    · exact if_pos hcount
    · obtain ⟨pre, sg, post, off, hsgl, hfind, hbytes, -⟩ :=
        @Complete.position req cb h (Or.inr (by omega)) (fun hzero => absurd hzero hcount)
      rw [hfind]
      cases pre with
      | nil =>
        have hoff : off = 0 := by omega
        rw [hoff]
        rfl
      | cons first pre =>
        rw [bytesIn_cons] at hbytes
        exact absurd ((hfit.1 first (by rw [hsgl]; rfl)).2 (by omega)) hcount
  rw [stillToWrite, hfind]
  rfl

/-- A request that goes on is beyond its first element. -/
theorem Complete.flagsFor_stillToWrite (h : Complete req) (hfit : OuterFit req)
    (hlt : cb.offset < req.count) (hfirst : ∀ first ∈ req.sgl.head?, first.len ≤ cb.offset) :
    ∃ m, flagsFor req.sgcnt (stillToWrite req cb) =
      List.replicate m 0 ++ [S_H2C_DESC_F_EOP] := by
  obtain ⟨pre, sg, post, off, hsgl, hfind, hbytes, hoff⟩ :=
    @Complete.position req cb h (Or.inr hlt) (fun hzero => by omega)
  have hpre : pre.length ≠ 0 := by
    intro hnil
    obtain rfl := List.length_eq_zero_iff.mp hnil
    have hle := hfirst sg (by rw [hsgl]; rfl)
    have hnone := (hfit.1 sg (by rw [hsgl]; rfl)).2
    change 0 + off = cb.offset at hbytes
    omega
  have hdrop : req.sgl.drop pre.length = sg :: post := by
    rw [hsgl]
    exact List.drop_left
  rw [stillToWrite, hfind]
  dsimp only
  rw [hdrop]
  apply flagsFor_toWrite (List.cons_ne_nil sg post) hpre
  · rw [← h.length, hsgl, List.length_append]
  · intro last hlast
    apply hfit.2
    rw [hsgl, List.getLast?_append, hlast]
    rfl

/-- What a pass does to the flags. -/
theorem SoFar.pass {flags : List ℕ} (h : SoFar req flags (q.cb id).offset) (hcomp : Complete req)
    (hreq : q.req id = req) (hbypass : conf.descBypass = true) (hext : conf.ulExt = none)
    (hpidx : q.pidx < conf.rngsz) (hpos : 0 < q.avail) (hroom : q.avail < conf.rngsz)
    (hfit : OuterFit req) (hleaves : LeavesBytes id q) (hfirst : FirstSlotFits conf id q) :
    (ended conf id q = true → Closed (flags ++ writtenFlags conf id q)) ∧
      (ended conf id q = false → Opened (flags ++ writtenFlags conf id q) ∧
        SoFar req (flags ++ writtenFlags conf id q) ((stPass conf id q).2.cb id).offset) := by
  obtain ⟨hun, hzero⟩ := h.unfinished
  obtain ⟨hflags, hoffset⟩ :=
    hcomp.pass hreq hbypass hext hpidx hpos hroom hfit hun hzero hfirst
  have htotal := hcomp.bytesOf_stillToWrite hun hzero
  have hsplit := congrArg bytesOf (List.take_append_drop q.avail (stillToWrite req (q.cb id)))
  have hdescs : passDescs id q = (stillToWrite req (q.cb id)).take q.avail := by
    rw [passDescs, hreq]
  unfold LeavesBytes at hleaves
  dsimp only at hleaves
  rw [hreq] at hleaves
  rw [bytesOf_append, ← hdescs] at hsplit
  rw [hflags]
  constructor
  · intro hend
    have hcount := of_decide_eq_true hend
    rw [hreq, hoffset] at hcount
    have hdrop : (stillToWrite req (q.cb id)).drop q.avail = [] := by
      by_contra hne
      have hbytes := hleaves hne
      omega
    have hall : passDescs id q = stillToWrite req (q.cb id) := by
      rw [hdescs]
      exact List.take_of_length_le (List.drop_eq_nil_iff.mp hdrop)
    rw [hall]
    obtain ⟨hnil, hstart⟩ | ⟨hopened, hlt, hbegun⟩ := h
    · rw [hnil, List.nil_append, hcomp.stillToWrite_start hfit hstart]
      obtain ⟨first, rest, hsgl⟩ := List.exists_cons_of_ne_nil hcomp.nonempty
      have hlen := hcomp.length
      have hlast := hfit.2
      rw [hsgl] at hlen hlast ⊢
      exact closed_toWrite hlen (hfit.1 first (by rw [hsgl]; rfl)).1 hlast
    · obtain ⟨m, hm⟩ := hcomp.flagsFor_stillToWrite hfit hlt hbegun
      rw [hm]
      exact hopened.append_end m
  · intro hgoes
    have hcount := of_decide_eq_false hgoes
    rw [hreq, hoffset, not_le] at hcount
    have hlonger : q.avail < (stillToWrite req (q.cb id)).length := by
      by_contra hge
      rw [List.drop_eq_nil_of_le (not_lt.mp hge)] at hsplit
      change bytesOf (passDescs id q) + 0 = _ at hsplit
      omega
    rw [hdescs] at hcount hoffset ⊢
    rw [hoffset, flagsFor_take]
    suffices hshape :
        Opened (flags ++ (flagsFor req.sgcnt (stillToWrite req (q.cb id))).take q.avail) ∧
        ∀ first ∈ req.sgl.head?, first.len ≤
          (q.cb id).offset + bytesOf ((stillToWrite req (q.cb id)).take q.avail) from
      ⟨hshape.1, Or.inr ⟨hshape.1, hcount, hshape.2⟩⟩
    obtain ⟨hnil, hstart⟩ | ⟨hopened, hlt, hbegun⟩ := h
    · have hwrite := hcomp.stillToWrite_start hfit hstart
      obtain ⟨first, rest, hsgl⟩ := List.exists_cons_of_ne_nil hcomp.nonempty
      have hlen := hcomp.length
      have hlast := hfit.2
      have hle := (hfit.1 first (by rw [hsgl]; rfl)).1
      rw [hsgl] at hlen hlast hwrite
      rw [hwrite] at hlonger ⊢
      constructor
      · rw [hnil, List.nil_append]
        apply (closed_toWrite hlen hle hlast).take hpos
        rwa [length_flagsFor]
      · intro first' hfirst'
        obtain rfl : first = first' := by
          rw [hsgl] at hfirst'
          exact Option.some.inj hfirst'
        obtain ⟨a, ha⟩ : ∃ a, q.avail = a + 1 := ⟨q.avail - 1, by omega⟩
        rw [toWrite, splitLens_of_le (by omega), Nat.sub_zero, ha]
        change first.len ≤ (q.cb id).offset + bytesOf ([(0, first.len)] ++ List.take a _)
        rw [bytesOf_append]
        change first.len ≤ (q.cb id).offset + (first.len + 0 + _)
        omega
    · obtain ⟨m, hm⟩ := hcomp.flagsFor_stillToWrite hfit hlt hbegun
      have hlength := length_flagsFor req.sgcnt (stillToWrite req (q.cb id))
      rw [hm, List.length_append, List.length_replicate, List.length_singleton] at hlength
      constructor
      · rw [hm, List.take_append_of_le_length (by rw [List.length_replicate]; omega),
          List.take_replicate]
        exact hopened.append_zeros _
      · intro first hfirst
        exact (hbegun first hfirst).trans (Nat.le_add_right _ _)

/-- What all passes do to the flags. -/
theorem SoFar.run {flags : List ℕ} {qs : List Descq} (h : SoFar req flags (q.cb id).offset)
    (hcomp : Complete req) (hfit : OuterFit req) (hbypass : conf.descBypass = true)
    (hext : conf.ulExt = none) (hreq : ∀ s ∈ q :: qs, s.req id = req)
    (hpidx : ∀ s ∈ q :: qs, s.pidx < conf.rngsz) (hpos : ∀ s ∈ q :: qs, 0 < s.avail)
    (hroom : ∀ s ∈ q :: qs, s.avail < conf.rngsz) (hchain : (q :: qs).IsChain (GoesOn conf id))
    (hleaves : ∀ s ∈ q :: qs, LeavesBytes id s) (hfirst : ∀ s ∈ q :: qs, FirstSlotFits conf id s) :
    ∀ last ∈ (q :: qs).getLast?,
      Delimited (ended conf id last) (flags ++ (q :: qs).flatMap (writtenFlags conf id)) := by
  have hhead : q ∈ q :: qs := List.mem_cons_self
  obtain ⟨hend, hgoes⟩ := h.pass hcomp (hreq q hhead) hbypass hext (hpidx q hhead) (hpos q hhead)
    (hroom q hhead) hfit (hleaves q hhead) (hfirst q hhead)
  induction qs generalizing q flags with
  | nil =>
    intro last hlast
    obtain rfl : q = last := Option.some.inj hlast
    rw [List.flatMap_cons, List.flatMap_nil, List.append_nil]
    cases hended : ended conf id q with
    | true => exact (hend hended).delimited
    | false => exact (hgoes hended).1.delimited
  | cons q' qs ih =>
    intro last hlast
    obtain ⟨hnext, hrest⟩ := List.isChain_cons_cons.mp hchain
    have hsofar := (hgoes hnext.unfinished).2
    rw [← hnext.undisturbed.offset] at hsofar
    have htail : ∀ s ∈ q' :: qs, s ∈ q :: q' :: qs := fun s hs => List.mem_cons_of_mem q hs
    have hmem : q' ∈ q :: q' :: qs := htail q' List.mem_cons_self
    obtain ⟨hend', hgoes'⟩ := hsofar.pass hcomp (hreq q' hmem) hbypass hext (hpidx q' hmem)
      (hpos q' hmem) (hroom q' hmem) hfit (hleaves q' hmem) (hfirst q' hmem)
    rw [List.getLast?_cons_cons] at hlast
    rw [List.flatMap_cons, ← List.append_assoc]
    exact ih hsofar (fun s hs => hreq s (htail s hs)) (fun s hs => hpidx s (htail s hs))
      (fun s hs => hpos s (htail s hs)) (fun s hs => hroom s (htail s hs)) hrest
      (fun s hs => hleaves s (htail s hs)) (fun s hs => hfirst s (htail s hs)) List.mem_cons_self
      hend' hgoes' last hlast

/-- The flags of the descriptors of a request delimit it after every pass, as long as its outer
elements have one descriptor each, no pass leaves nothing but empty descriptors, and none finds
other flags in the first slot of the ring. -/
theorem submits_delimited {qs : List Descq} (hbypass : conf.descBypass = true)
    (hfill : conf.fpBypassDescFill = none) (hcomp : Complete req) (h : Submits conf id req qs)
    (hfit : OuterFit req) (hpass : ∀ q ∈ qs, LeavesBytes id q ∧ FirstSlotFits conf id q) :
    ∀ last ∈ qs.getLast?, Delimited (ended conf id last) (qs.flatMap (writtenFlags conf id)) := by
  have hext : conf.ulExt = none := by
    unfold QueueConf.ulExt
    rw [hbypass, if_pos rfl, hfill]
  cases qs with
  | nil =>
    intro last hlast
    cases hlast
  | cons q qs =>
    have hstart : SoFar req [] (q.cb id).offset := Or.inl ⟨rfl, h.begins q rfl⟩
    exact hstart.run hcomp hfit hbypass hext h.req h.pidx h.free h.avail h.goesOn
      (fun s hs => (hpass s hs).1) (fun s hs => (hpass s hs).2)

end

/-! ## The passes of calls -/

/-- The passes `qs` for a request are those that are made on the way from one state of the queue to
another. -/
structure Carries (conf : QueueConf) (id : ReqId) (q : Descq) (qs : List Descq) (q' : Descq) :
    Prop where
  req : ∀ s ∈ qs, s.req id = q.req id
  pidx : ∀ s ∈ qs, s.pidx < conf.rngsz
  free : ∀ s ∈ qs, 0 < s.avail
  avail : ∀ s ∈ qs, s.avail < conf.rngsz
  goesOn : qs.IsChain (GoesOn conf id)
  first : ∀ s ∈ qs.head?, Undisturbed id q s
  last : ∀ s ∈ qs.getLast?, ended conf id s = false → Undisturbed id (stPass conf id s).2 q'
  none : qs = [] → Undisturbed id q q'

section

variable {conf : QueueConf} {q q' q'' : Descq} {qs qs' : List Descq} {id : ReqId}

theorem Undisturbed.refl : Undisturbed id q q := ⟨rfl, rfl, rfl, rfl⟩

theorem Undisturbed.trans (h : Undisturbed id q q') (h' : Undisturbed id q' q'') :
    Undisturbed id q q'' := by
  constructor
  · exact h'.pidx.trans h.pidx
  · exact h'.desc.trans h.desc
  · exact h'.req.trans h.req
  · exact h'.offset.trans h.offset

theorem Undisturbed.carries (h : Undisturbed id q q') : Carries conf id q [] q' := by
  refine ⟨?_, ?_, ?_, ?_, List.IsChain.nil, ?_, ?_, fun _ => h⟩
  all_goals
    intro s hs
    cases hs

/-- The passes of one part of a run after those of another. -/
theorem Carries.trans (h : Carries conf id q qs q') (h' : Carries conf id q' qs' q'')
    (hgoes : ∀ s ∈ qs.getLast?, ended conf id s = false) (hreq : q'.req id = q.req id) :
    Carries conf id q (qs ++ qs') q'' := by
  have hboth : ∀ {P : Descq → Prop}, (∀ s ∈ qs, P s) → (∀ s ∈ qs', P s) → ∀ s ∈ qs ++ qs', P s := by
    intro P hP hP' s hs
    obtain hs | hs := List.mem_append.mp hs
    · exact hP s hs
    · exact hP' s hs
  constructor
  · exact hboth h.req fun s hs => (h'.req s hs).trans hreq
  · exact hboth h.pidx h'.pidx
  · exact hboth h.free h'.free
  · exact hboth h.avail h'.avail
  · apply h.goesOn.append h'.goesOn
    intro s hs s' hs'
    exact ⟨hgoes s hs, (h.last s hs (hgoes s hs)).trans (h'.first s' hs')⟩
  · intro s hs
    cases qs with
    | nil => exact (h.none rfl).trans (h'.first s hs)
    | cons s' qs => exact h.first s hs
  · intro s hs hend
    cases qs' with
    | nil =>
      rw [List.append_nil] at hs
      exact (h.last s hs hend).trans (h'.none rfl)
    | cons s' qs' =>
      rw [List.getLast?_append_of_ne_nil _ (List.cons_ne_nil s' qs')] at hs
      exact h'.last s hs hend
  · intro hnil
    obtain ⟨hqs, hqs'⟩ := List.append_eq_nil_iff.mp hnil
    exact (h.none hqs).trans (h'.none hqs')

/-- The passes from the start of a request on. -/
theorem Carries.submits (h : Carries conf id q qs q') (hoffset : (q.cb id).offset = 0) :
    Submits conf id (q.req id) qs := by
  refine ⟨h.req, h.pidx, h.free, h.avail, ?_, h.goesOn⟩
  intro s hs
  rw [(h.first s hs).offset]
  exact hoffset

theorem h2cDesc_qdmaSgtReqDone (error : ℤ) :
    (qdmaSgtReqDone conf q id error).h2cDesc = q.h2cDesc := by
  have hunlink : (unlinkReq q id).h2cDesc = q.h2cDesc := by
    unfold unlinkReq
    dsimp only
    split
    · rfl
    · rfl
  unfold qdmaSgtReqDone
  dsimp only
  split
  · exact hunlink
  · exact hunlink

theorem h2cDesc_completeRequests (cr : ℕ) (pend : List ReqId) :
    (completeRequests conf cr pend q).2.h2cDesc = q.h2cDesc := by
  induction pend generalizing cr q with
  | nil => rfl
  | cons id pend ih =>
    unfold completeRequests
    dsimp only
    split
    · split
      · exact h2cDesc_qdmaSgtReqDone 0
      · rw [ih]
        exact h2cDesc_qdmaSgtReqDone 0
    · rfl

theorem h2cDesc_qdmaPidxUpdate (force : Bool) :
    (qdmaPidxUpdate conf q force).2.h2cDesc = q.h2cDesc := by
  unfold qdmaPidxUpdate queuePidxUpdate
  split
  · cases q.doorbells with
    | nil => rfl
    | cons b rest => cases b <;> rfl
  · rfl

theorem h2cDesc_descqMmNH2cCmplStatus :
    (descqMmNH2cCmplStatus conf q).h2cDesc = q.h2cDesc := by
  have hread : (readCmplStatus conf q).2.h2cDesc = q.h2cDesc := by
    unfold readCmplStatus
    split <;> rfl
  unfold descqMmNH2cCmplStatus
  split
  · rfl
  · dsimp only
    split
    · exact hread
    · rw [h2cDesc_qdmaPidxUpdate]
      exact (h2cDesc_completeRequests _ _).trans hread

/-- A look at the completion status leaves the requests of the work list alone. -/
theorem Serving.undisturbed_status (h : Serving conf q) (hid : id ∈ q.workList) :
    Undisturbed id q (descqMmNH2cCmplStatus conf q) := by
  obtain ⟨k, m, hind⟩ := h.indices
  have hkeep := h.status.keeps
  constructor
  · exact ring_descqMmNH2cCmplStatus hind RingView.pidx fun _ _ _ _ _ _ _ _ => rfl
  · exact h2cDesc_descqMmNH2cCmplStatus
  · exact hkeep.req id hid
  · exact congrArg SgtReqCb.offset (hkeep.cb id hid)

/-- And so does a request that is put on the work list. -/
theorem undisturbed_enqueue {sub : Submission} (hne : id ≠ sub.id) :
    Undisturbed id q (enqueue q sub) := by
  constructor
  · rfl
  · rfl
  · exact Function.update_of_ne hne _ _
  · exact congrArg SgtReqCb.offset (Function.update_of_ne hne _ _)

theorem Serving.undisturbed_pollIfFull (h : Serving conf q) (hid : id ∈ q.workList) :
    Undisturbed id q (if q.avail = 0 then descqPollMmNH2cCmplStatus conf q else q) := by
  split
  · unfold descqPollMmNH2cCmplStatus
    split
    · have hserving : Serving conf { q with procReqRunning := true } := by
        obtain ⟨k, m, hind⟩ := h.indices
        exact h.of_keepsWork (KeepsWork.of_eq rfl rfl rfl rfl) ⟨k, m, hind.congr rfl⟩
      have hundisturbed := hserving.undisturbed_status hid
      exact ⟨hundisturbed.pidx, hundisturbed.desc, hundisturbed.req, hundisturbed.offset⟩
    · exact Undisturbed.refl
  · exact Undisturbed.refl

/-- A pass works on the queue as it is after the look for free descriptors. -/
theorem stPass_pollIfFull {q₁ : Descq}
    (hq₁ : q₁ = if q.avail = 0 then descqPollMmNH2cCmplStatus conf q else q)
    (hreq : q₁.req id = q.req id) (havail : q₁.avail ≠ 0) :
    stPass conf id q = stPass conf id q₁ := by
  have hsame : (if q₁.avail = 0 then descqPollMmNH2cCmplStatus conf q₁ else q₁) = q₁ :=
    if_neg havail
  unfold stPass
  dsimp only
  rw [← hq₁, hsame, hreq]

theorem workList_qdmaUpdateRequest {n c : ℕ}
    (hlt : ((qdmaUpdateRequest q id n c).cb id).offset < (q.req id).count) :
    (qdmaUpdateRequest q id n c).workList = q.workList := by
  rw [cb_qdmaUpdateRequest] at hlt
  unfold qdmaUpdateRequest
  dsimp only
  split
  · rename_i hge
    exact absurd hlt (not_lt.mpr hge)
  · rfl

/-- A request that is not at its end stays on the work list. -/
theorem workList_stPass (hext : conf.ulExt = none) (havail : q.avail ≠ 0)
    (hend : ended conf id q = false) : (stPass conf id q).2.workList = q.workList := by
  have hlt := not_le.mp (of_decide_eq_false hend)
  unfold stPass at hlt ⊢
  dsimp only at hlt ⊢
  rw [if_neg havail, if_neg havail, hext] at hlt ⊢
  dsimp only at hlt ⊢
  split
  · rename_i hnone
    rw [hnone] at hlt
    exact workList_qdmaUpdateRequest hlt
  · rename_i i off hfind
    rw [hfind] at hlt
    exact workList_qdmaUpdateRequest hlt

theorem req_qdmaUpdateRequest (n c : ℕ) : (qdmaUpdateRequest q id n c).req = q.req := by
  unfold qdmaUpdateRequest
  dsimp only
  split <;> rfl

theorem req_stPass (hext : conf.ulExt = none) (havail : q.avail ≠ 0) :
    (stPass conf id q).2.req = q.req := by
  unfold stPass
  dsimp only
  rw [if_neg havail, if_neg havail, hext]
  dsimp only
  split
  · exact req_qdmaUpdateRequest 0 0
  · exact req_qdmaUpdateRequest _ _

/-- The passes that the loop of a call makes for the first request. -/
theorem Serving.carries (hext : conf.ulExt = none) (h : Serving conf q) {rest : List ReqId}
    (hwork : q.workList = id :: rest) {fuel n : ℕ} {r : ℕ × Descq}
    (hr : H2c.passes (stPass conf) fuel n q = some r) :
    ∃ qs, Carries conf id q qs r.2 := by
  induction fuel generalizing q n with
  | zero =>
    unfold H2c.passes at hr
    rw [hwork] at hr
    cases hr
  | succ fuel ih =>
    have hid : id ∈ q.workList := by
      rw [hwork]
      exact List.mem_cons_self
    have hundisturbed := h.undisturbed_pollIfFull hid
    have hserving := h.pollIfFull.serving
    have hkeeps := h.pollIfFull.keeps
    set q₁ := if q.avail = 0 then descqPollMmNH2cCmplStatus conf q else q with hq₁
    have hwilling : CallbackWilling conf := fun fill hfill => by
      rw [hext] at hfill
      cases hfill
    unfold H2c.passes at hr
    rw [hwork] at hr
    dsimp only at hr
    by_cases hzero : q₁.avail = 0
    · have hpass : stPass conf id q = (none, q₁) := by
        unfold stPass
        dsimp only
        rw [← hq₁, if_pos hzero]
      rw [hpass] at hr
      cases hr
      exact ⟨[], hundisturbed.carries⟩
    · have hwork₁ : q₁.workList = id :: rest := hkeeps.work.trans hwork
      have hone : ∀ q', (ended conf id q₁ = false → Undisturbed id (stPass conf id q₁).2 q') →
          Carries conf id q [q₁] q' := by
        intro q' hq'
        obtain ⟨k, m, hind⟩ := hserving.indices
        have hall : ∀ {P : Descq → Prop}, P q₁ → ∀ s ∈ [q₁], P s :=
          fun hP s hs => List.mem_singleton.mp hs ▸ hP
        exact ⟨hall hundisturbed.req, hall hind.pidx_lt, hall (Nat.pos_of_ne_zero hzero),
          hall hserving.avail_lt, List.IsChain.singleton q₁,
          fun s hs => Option.some.inj hs ▸ hundisturbed,
          fun s hs => Option.some.inj hs ▸ hq', fun hnil => absurd hnil (List.cons_ne_nil q₁ [])⟩
      obtain ⟨_, -, hnone, -⟩ | ⟨m, q₂, hsome, hprog⟩ :=
        stPass_serves hwilling q₁ id hserving (hkeeps.work ▸ hid)
      · exact absurd hnone hzero
      · rw [stPass_pollIfFull hq₁ hundisturbed.req hzero, hsome] at hr
        dsimp only at hr
        cases hend : ended conf id q₁ with
        | true => exact ⟨[q₁], hone r.2 fun hnot => by rw [hend] at hnot; cases hnot⟩
        | false =>
          have hwork₂ := workList_stPass hext hzero hend
          have hreq₂ : (stPass conf id q₁).2.req = q₁.req := req_stPass hext hzero
          rw [hsome] at hwork₂ hreq₂
          obtain ⟨qs, hqs⟩ := ih hprog.serving (hwork₂.trans hwork₁) hr
          have hfirst := hone q₂ fun _ => by rw [hsome]; exact Undisturbed.refl
          refine ⟨[q₁] ++ qs, hfirst.trans hqs ?_ ?_⟩
          · exact fun s hs => Option.some.inj hs ▸ hend
          · exact (congrFun hreq₂ id).trans hundisturbed.req

end

/-! ## Three elements in two passes, and one that is too long -/

def bypassConf : QueueConf where
  st := true
  qType := .h2c
  rngsz := 4
  descBypass := true
  rngsz_pos := pollConf.rngsz_pos
  rngsz_lt := pollConf.rngsz_lt
  pidxAcc_lt := pollConf.pidxAcc_lt
  st_h2c := fun _ => rfl

def threeElems : QdmaRequest where
  count := 5200
  sgcnt := 3
  sgl := [{ len := 100 }, { len := 5000 }, { len := 100 }]

/-- The first pass has three free descriptors and goes around the end of the ring. -/
def firstPass : Descq where
  pidx := 2
  avail := 3
  req := fun _ => threeElems

/-- The second is made when two more are free. -/
def secondPass : Descq := { (stPass bypassConf 1 firstPass).2 with avail := 2 }

theorem threeElems_delimited :
    ended bypassConf 1 secondPass = true ∧
      [firstPass, secondPass].flatMap (writtenFlags bypassConf 1) = [1, 0, 0, 2] ∧
      Delimited true ([firstPass, secondPass].flatMap (writtenFlags bypassConf 1)) := by
  have hended : ended bypassConf 1 secondPass = true := by decide +kernel
  have hsub : Submits bypassConf 1 threeElems [firstPass, secondPass] := by
    refine ⟨?_, ?_, ?_, ?_, ?_, ?_⟩
    · intro q hq
      obtain rfl | hq := List.mem_cons.mp hq
      · rfl
      · obtain rfl := List.mem_singleton.mp hq
        decide +kernel
    · decide +kernel
    · decide +kernel
    · decide +kernel
    · intro q hq
      obtain rfl := Option.some.inj hq
      rfl
    · apply List.IsChain.cons_cons
      · exact ⟨by decide +kernel, ⟨rfl, rfl, rfl, rfl⟩⟩
      · exact List.IsChain.singleton secondPass
  have hdelimited := submits_delimited rfl rfl ⟨rfl, by decide, rfl, by decide⟩ hsub
    ⟨by decide, by decide⟩ (by decide +kernel) secondPass rfl
  rw [hended] at hdelimited
  exact ⟨hended, by decide +kernel, hdelimited⟩

def longElem : QdmaRequest where
  count := 5000
  sgcnt := 1
  sgl := [{ len := 5000 }]

def longPass : Descq where
  avail := 3
  req := fun _ => longElem

/-- Both descriptors of a long element have both flags. -/
theorem longElem_not_delimited :
    Complete longElem ∧ Submits bypassConf 1 longElem [longPass] ∧
      ended bypassConf 1 longPass = true ∧
      [longPass].flatMap (writtenFlags bypassConf 1) = [3, 3] ∧
      ¬ Delimited true ([longPass].flatMap (writtenFlags bypassConf 1)) := by
  refine ⟨⟨rfl, by decide, rfl, by decide⟩, ⟨?_, by decide, by decide, by decide, ?_, ?_⟩,
    by decide +kernel, by decide +kernel, by decide +kernel⟩
  · intro q hq
    obtain rfl := List.mem_singleton.mp hq
    rfl
  · intro q hq
    obtain rfl := Option.some.inj hq
    rfl
  · exact List.IsChain.singleton longPass

end OnicDriver.H2c
