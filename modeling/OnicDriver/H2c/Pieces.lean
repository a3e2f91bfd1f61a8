import OnicDriver.H2c.Ring

/-!
# The bytes of the pieces of a request

The loops that cut a scatter-gather list take its bytes one after the other: from
the byte they start at, the pieces hold the bytes of the list in order, each once,
beside the device addresses of those bytes, however the ends of the elements, the
largest length of a descriptor, the end of the keyhole window and the room in the
ring fall.
-/

namespace OnicDriver.H2c

open Lib Queue

/-- The addresses of `n` bytes. -/
def addresses (src n : ℕ) : List ℕ := (List.range n).map fun k : ℕ => u64 ((src : ℤ) + k)

/-- The host addresses of the bytes of a list. -/
def hostBytes (sgl : List SwSg) : List ℕ := sgl.flatMap fun sg => addresses sg.dmaAddr sg.len

/-- Bytes from the one with number `o` on, with the device addresses that `dev` gives them. -/
def paired (dev : ℕ → ℕ) (o : ℕ) (hosts : List ℕ) : List (ℕ × ℕ) :=
  hosts.mapIdx fun k host => (host, dev (o + k))

/-- The bytes that a piece transfers, by their host and device addresses. -/
def Piece.bytes (p : Piece) : List (ℕ × ℕ) :=
  (List.range p.len).map fun k : ℕ => (u64 ((p.host : ℤ) + k), u64 ((p.ep : ℤ) + k))

/-- A piece is no longer than the limit and does not leave the window. -/
structure Fits (limit : ℕ) (window : Option (ℕ × ℕ)) (p : Piece) : Prop where
  le : p.len ≤ limit
  inside : ∀ w ∈ window, w.1 ≤ p.ep ∧ p.ep + p.len ≤ w.2 + 1

/-- The device addresses follow `dev`: wherever the loop is at the address of a byte, it gives that
byte and those after it their addresses and comes to the address of the next one. -/
def Follows (limit : ℕ) (window : Option (ℕ × ℕ)) (dev : ℕ → ℕ) (place : ℕ → ℕ → Prop) : Prop :=
  ∀ ep o len, place ep o → len ≤ limit →
    let r := keyhole window ep len
    r.2 ≤ len ∧ (∀ w ∈ window, w.1 ≤ r.1 ∧ r.1 + r.2 ≤ w.2 + 1) ∧
      (∀ k : ℕ, k < r.2 → u64 ((r.1 : ℤ) + k) = dev (o + k)) ∧
      place (u64 ((r.1 : ℤ) + r.2)) (o + r.2)

section

variable {limit : ℕ} {window : Option (ℕ × ℕ)} {dev : ℕ → ℕ} {place : ℕ → ℕ → Prop}

/-! ## Bytes -/

@[simp] theorem length_addresses (src n : ℕ) : (addresses src n).length = n := by
  simp [addresses]

theorem addresses_add (src m n : ℕ) :
    addresses src (m + n) = addresses src m ++ addresses (u64 ((src : ℤ) + m)) n := by
  have hshift : ∀ k : ℕ, u64 ((src : ℤ) + (m + k : ℕ)) = u64 ((u64 ((src : ℤ) + m) : ℤ) + k) := by
    intro k
    unfold u64
    omega
  unfold addresses
  rw [List.range_add, List.map_append, List.map_map]
  congr 1
  exact List.map_congr_left fun k _ => hshift k

theorem drop_addresses {src off n : ℕ} (hoff : off ≤ n) :
    (addresses src n).drop off = addresses (u64 ((src : ℤ) + off)) (n - off) := by
  obtain ⟨m, rfl⟩ := Nat.exists_eq_add_of_le hoff
  rw [addresses_add, List.drop_left' (length_addresses src off), Nat.add_sub_cancel_left]

theorem take_addresses {src m n : ℕ} (hm : m ≤ n) :
    (addresses src n).take m = addresses src m := by
  obtain ⟨r, rfl⟩ := Nat.exists_eq_add_of_le hm
  rw [addresses_add, List.take_left' (length_addresses src m)]

@[simp] theorem length_paired (o : ℕ) (hosts : List ℕ) :
    (paired dev o hosts).length = hosts.length := by
  simp [paired]

theorem paired_append (o : ℕ) (xs ys : List ℕ) :
    paired dev o (xs ++ ys) = paired dev o xs ++ paired dev (o + xs.length) ys := by
  unfold paired
  rw [List.mapIdx_append]
  congr 1
  apply List.mapIdx_eq_mapIdx_iff.mpr
  intro i hi
  rw [Nat.add_assoc, Nat.add_comm xs.length]

theorem drop_paired (o n : ℕ) (xs : List ℕ) :
    (paired dev o xs).drop n = paired dev (o + n) (xs.drop n) := by
  obtain hle | hlt := le_or_gt n xs.length
  · have hsplit := @paired_append dev o (xs.take n) (xs.drop n)
    rw [List.take_append_drop, List.length_take, min_eq_left hle] at hsplit
    rw [hsplit, List.drop_left' (by rw [length_paired, List.length_take, min_eq_left hle])]
  · rw [List.drop_eq_nil_of_le (by rw [length_paired]; omega), List.drop_eq_nil_of_le (by omega)]
    rfl

theorem take_paired (o n : ℕ) (xs : List ℕ) :
    (paired dev o xs).take n = paired dev o (xs.take n) := by
  obtain hle | hlt := le_or_gt n xs.length
  · have hsplit := @paired_append dev o (xs.take n) (xs.drop n)
    rw [List.take_append_drop] at hsplit
    rw [hsplit, List.take_left' (by rw [length_paired, List.length_take, min_eq_left hle])]
  · rw [List.take_of_length_le (by rw [length_paired]; omega), List.take_of_length_le (by omega)]

theorem bytes_eq_paired {p : Piece} {o : ℕ}
    (hdev : ∀ k : ℕ, k < p.len → u64 ((p.ep : ℤ) + k) = dev (o + k)) :
    p.bytes = paired dev o (addresses p.host p.len) := by
  apply List.ext_getElem
  · rw [Piece.bytes, List.length_map, List.length_range, length_paired, length_addresses]
  · intro k hk hk'
    rw [Piece.bytes, List.length_map, List.length_range] at hk
    simp only [Piece.bytes, paired, addresses, List.getElem_map, List.getElem_range,
      List.getElem_mapIdx, hdev k hk]

/-! ## Device addresses -/

/-- Without a window the device addresses go up. -/
theorem follows_none (base : ℕ) :
    Follows limit none (fun k => u64 ((base : ℤ) + k)) fun ep o => ep = u64 ((base : ℤ) + o) := by
  intro ep o len hep _
  subst hep
  refine ⟨le_rfl, fun w hw => ?_, fun k _ => ?_, ?_⟩
  · cases hw
  · change u64 ((u64 ((base : ℤ) + o) : ℤ) + k) = u64 ((base : ℤ) + (o + k : ℕ))
    unfold u64
    omega
  · change u64 ((u64 ((base : ℤ) + o) : ℤ) + len) = u64 ((base : ℤ) + (o + len : ℕ))
    unfold u64
    omega

theorem add_mod_of_lt {o a k : ℕ} (h : o % a + k < a) : (o + k) % a = o % a + k := by
  rw [Nat.add_mod, Nat.mod_eq_of_lt (a := k) (by omega), Nat.mod_eq_of_lt h]

theorem add_mod_of_eq {o a k : ℕ} (h : o % a + k = a) : (o + k) % a = 0 := by
  rw [← Nat.mod_add_mod, h, Nat.mod_self]

/-- With a window of `a` bytes they start again at its end. -/
theorem follows_some {base a : ℕ} (ha : 0 < a) (hlt : a < 2 ^ 32) (hend : base + 2 * a ≤ 2 ^ 64) :
    Follows a (some (base, base + a - 1)) (fun k => u64 ((base : ℤ) + (k % a : ℕ)))
      fun ep o => ep = base + o % a ∨ ep = base + a ∧ o % a = 0 := by
  intro ep o len hep hlen
  have hmod := Nat.mod_lt o ha
  -- where the piece begins
  have hstart : (if ep > base + a - 1 then base else ep) = base + o % a := by
    split <;> omega
  -- how far it goes
  have hcut : (if u64 (((base + o % a : ℕ) : ℤ) + len) > base + a - 1 then
      u32 (((base + a - 1 : ℕ) : ℤ) - (base + o % a : ℕ) + 1) else len) =
      min len (a - o % a) := by
    unfold u64 u32
    split <;> omega
  unfold keyhole
  dsimp only
  rw [hstart, hcut]
  have hle : o % a + min len (a - o % a) ≤ a := by omega
  set n := min len (a - o % a)
  refine ⟨min_le_left _ _, fun w hw => ?_, fun k hk => ?_, ?_⟩
  · cases hw
    dsimp only
    omega
  · rw [add_mod_of_lt (by omega)]
    congr 1
    omega
  · have haddr : u64 (((base + o % a : ℕ) : ℤ) + n) = base + (o % a + n) := by
      unfold u64
      omega
    rw [haddr]
    obtain heq | hne := eq_or_ne (o % a + n) a
    · exact Or.inr ⟨by rw [heq], add_mod_of_eq heq⟩
    · left
      rw [add_mod_of_lt (by omega)]

/-! ## Cutting -/

/-- What the inner loop makes of an element: the first of its bytes, all of them unless there is no
room. -/
theorem cutElement_bytes (h : Follows limit window dev place) {room tlen src ep o elem : ℕ}
    (htlen : tlen < 2 ^ 32) (hplace : place ep o) :
    let r := cutElement limit window elem room tlen src ep
    let n := (r.1.map Piece.len).sum
    n ≤ tlen ∧ (r.1.length < room → n = tlen) ∧ place r.2 (o + n) ∧
      r.1.flatMap Piece.bytes = paired dev o (addresses src n) ∧
      ∀ p ∈ r.1, Fits limit window p := by
  induction room generalizing tlen src ep o with
  | zero =>
    refine ⟨Nat.zero_le _, fun hlt => absurd hlt (Nat.not_lt_zero _), hplace, rfl, ?_⟩
    exact fun p hp => absurd hp List.not_mem_nil
  | succ room ih =>
    obtain ⟨hle, hinside, hdev, hnext⟩ := h ep o (min tlen limit) hplace (min_le_right _ _)
    unfold cutElement
    dsimp only
    set r := keyhole window ep (min tlen limit)
    set piece : Piece := { host := src, ep := r.1, len := r.2, elem := elem }
    have hlen : piece.len = r.2 := rfl
    have hbytes : piece.bytes = paired dev o (addresses src r.2) := bytes_eq_paired hdev
    have hfits : Fits limit window piece := ⟨hle.trans (min_le_right _ _), hinside⟩
    have hrest : u32 ((tlen : ℤ) - r.2) = tlen - r.2 := by
      unfold u32
      omega
    rw [hrest]
    split
    · rename_i hzero
      dsimp only
      rw [List.map_singleton, List.sum_singleton, List.flatMap_singleton, hlen]
      refine ⟨by omega, fun _ => by omega, hnext, hbytes, fun p hp => ?_⟩
      rw [List.mem_singleton.mp hp]
      exact hfits
    · obtain ⟨hsum, hfull, hlast, hflat, hall⟩ := @ih (tlen - r.2)
        (u64 ((src : ℤ) + r.2)) _ _ (by omega) hnext
      dsimp only
      set rest := cutElement limit window elem room (tlen - r.2) (u64 ((src : ℤ) + r.2))
        (u64 ((r.1 : ℤ) + r.2))
      rw [List.map_cons, List.sum_cons, List.length_cons, List.flatMap_cons, hflat, hbytes, hlen,
        addresses_add, paired_append, length_addresses, ← Nat.add_assoc]
      refine ⟨by omega, fun hlt => ?_, hlast, rfl, fun p hp => ?_⟩
      · have hwhole := hfull (by omega)
        omega
      · obtain rfl | hp := List.mem_cons.mp hp
        · exact hfits
        · exact hall p hp

/-- The first element of a list reaches to an offset. -/
def HeadReaches (sgl : List SwSg) (off : ℕ) : Prop := ∀ sg ∈ sgl.head?, off ≤ sg.len

theorem hostBytes_cons (sg : SwSg) (sgl : List SwSg) :
    hostBytes (sg :: sgl) = addresses sg.dmaAddr sg.len ++ hostBytes sgl := List.flatMap_cons

theorem length_hostBytes (sgl : List SwSg) :
    (hostBytes sgl).length = (sgl.map SwSg.len).sum := by
  induction sgl with
  | nil => rfl
  | cons sg sgl ih =>
    rw [hostBytes_cons, List.length_append, length_addresses, ih, List.map_cons, List.sum_cons]

/-- What the loops make of a list: its bytes from an offset on, as far as there is room. -/
theorem cutList_bytes (h : Follows limit window dev place) {sgl : List SwSg}
    {room off ep o elem : ℕ} (hlens : ∀ sg ∈ sgl, sg.len < 2 ^ 32) (hoff : HeadReaches sgl off)
    (hplace : place ep o) :
    let pieces := cutList limit window elem sgl off room ep
    let n := (pieces.map Piece.len).sum
    n ≤ (hostBytes sgl).length - off ∧
      pieces.flatMap Piece.bytes = paired dev o (((hostBytes sgl).drop off).take n) ∧
      ∀ p ∈ pieces, Fits limit window p := by
  induction sgl generalizing elem off room ep o with
  | nil => exact ⟨Nat.zero_le _, by simp [cutList, paired], fun p hp => absurd hp List.not_mem_nil⟩
  | cons sg sgl ih =>
    have hreach : off ≤ sg.len := hoff sg rfl
    have hlen := hlens sg List.mem_cons_self
    unfold cutList
    split
    · exact ⟨Nat.zero_le _, by simp [paired], fun p hp => absurd hp List.not_mem_nil⟩
    · have htlen : u32 ((sg.len : ℤ) - off) = sg.len - off := by
        unfold u32
        omega
      rw [htlen]
      obtain ⟨hsum, hfull, hlast, hflat, hall⟩ := @cutElement_bytes _ _ _ _ h room (sg.len - off)
        (u64 ((sg.dmaAddr : ℤ) + off)) _ _ elem (by omega) hplace
      dsimp only
      set r := cutElement limit window elem room (sg.len - off) (u64 ((sg.dmaAddr : ℤ) + off)) ep
      obtain ⟨hsum', hflat', hall'⟩ := @ih (room - r.1.length) _ _ _ (elem + 1)
        (fun s hs => hlens s (List.mem_cons_of_mem _ hs)) (fun s _ => Nat.zero_le _) hlast
      set pieces := cutList limit window (elem + 1) sgl 0 (room - r.1.length) r.2
      set m := (r.1.map Piece.len).sum
      set m' := (pieces.map Piece.len).sum
      have hdrop : (hostBytes (sg :: sgl)).drop off =
          addresses (u64 ((sg.dmaAddr : ℤ) + off)) (sg.len - off) ++ hostBytes sgl := by
        rw [hostBytes_cons, List.drop_append_of_le_length (by rw [length_addresses]; omega),
          drop_addresses hreach]
      have hlength : (hostBytes (sg :: sgl)).length = sg.len + (hostBytes sgl).length := by
        rw [hostBytes_cons, List.length_append, length_addresses]
      rw [List.map_append, List.sum_append, List.flatMap_append, hflat, hflat', hdrop, hlength]
      change m + m' ≤ _ ∧ _ = paired dev o (List.take (m + m') _) ∧ _
      refine ⟨by omega, ?_, fun p hp => (List.mem_append.mp hp).elim (hall p) (hall' p)⟩
      obtain hlt | hge := lt_or_ge r.1.length room
      · -- the element was taken to its end
        have hm : m = sg.len - off := hfull hlt
        have htake := @List.take_length_add_append _
          (addresses (u64 ((sg.dmaAddr : ℤ) + off)) (sg.len - off)) (hostBytes sgl) m'
        rw [length_addresses] at htake
        rw [hm, List.drop_zero, htake, paired_append, length_addresses]
      · -- there is no room for another one
        have hnone : pieces = [] := by
          have hle : pieces.length ≤ room - r.1.length :=
            length_cutList_le limit window (elem + 1) sgl 0 (room - r.1.length) r.2
          exact List.length_eq_zero_iff.mp (by omega)
        have hzero : m' = 0 := by
          change (pieces.map Piece.len).sum = 0
          rw [hnone]
          rfl
        rw [hzero, Nat.add_zero, List.take_zero, List.take_append_of_le_length
          (by rw [length_addresses]; omega), take_addresses hsum]
        exact List.append_nil _

/-! ## Where a request goes on -/

/-- The element that is found and the offset into it: the bytes behind the offset. -/
theorem findOffset_bytes {offset i len j off : ℕ} {sgl : List SwSg}
    (hfind : findOffset offset i len sgl = some (j, off)) (hle : len ≤ offset)
    (hsum : len + (sgl.map SwSg.len).sum < 2 ^ 32) :
    i ≤ j ∧ HeadReaches (sgl.drop (j - i)) off ∧
      (hostBytes (sgl.drop (j - i))).drop off = (hostBytes sgl).drop (offset - len) := by
  induction sgl generalizing i len with
  | nil => cases hfind
  | cons sg sgl ih =>
    rw [List.map_cons, List.sum_cons] at hsum
    have hwrap : u32 ((len : ℤ) + sg.len) = len + sg.len := by
      rw [← Nat.cast_add]
      exact u32_natCast (by omega)
    have hskip : ∀ n, sg.len ≤ n →
        (hostBytes (sg :: sgl)).drop n = (hostBytes sgl).drop (n - sg.len) := by
      intro n hn
      rw [hostBytes_cons, List.drop_append, length_addresses,
        List.drop_eq_nil_of_le (by rw [length_addresses]; exact hn), List.nil_append]
    unfold findOffset at hfind
    dsimp only at hfind
    rw [hwrap] at hfind
    split at hfind
    · rename_i heq
      split at hfind
      · cases hfind
      · cases hfind
        rw [Nat.add_sub_cancel_left, List.drop_one, List.tail_cons]
        refine ⟨Nat.le_succ i, fun s _ => Nat.zero_le _, ?_⟩
        rw [hskip _ (by omega)]
        congr 1
        omega
    · split at hfind
      · rename_i hlt
        cases hfind
        have hoff : u32 ((sg.len : ℤ) - (((len + sg.len : ℕ) : ℤ) - offset)) = offset - len := by
          unfold u32
          omega
        rw [Nat.sub_self, List.drop_zero, hoff]
        refine ⟨le_rfl, fun s hs => ?_, rfl⟩
        cases hs
        omega
      · obtain ⟨hij, hreach, hbytes⟩ := ih hfind (by omega) (by omega)
        have hsucc : j - i = j - (i + 1) + 1 := by omega
        rw [hsucc, List.drop_succ_cons]
        refine ⟨by omega, hreach, hbytes.trans ?_⟩
        rw [hskip _ (by omega)]
        congr 1
        omega

end

end OnicDriver.H2c
