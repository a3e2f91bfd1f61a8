import OnicDriver.C2h.Receive
import Mathlib.Algebra.BigOperators.Group.Finset.Basic
import Mathlib.Algebra.BigOperators.Group.Finset.Piecewise

/-!
# The buffers carved out of the pages

What the functions of the free list do to the number of buffers that are carved
out of the pages, whatever the page allocator does. Giving buffers back ends
exactly if there are as many, and a refill carves at most as many as it gave
back.
-/

namespace OnicDriver.C2h

open Lib

/-- The number of buffers carved out of the pages. -/
def carved (flq : Flq) : ℕ :=
  ∑ slot ∈ Finset.range flq.numPages, (flq.pgSdesc slot).pgOffset / 2 ^ flq.descPgShift

/-- The number of bytes carved out of the pages. -/
def carvedBytes (flq : Flq) : ℕ := ∑ slot ∈ Finset.range flq.numPages, (flq.pgSdesc slot).pgOffset

/-- A free list of its configuration whose offsets are whole numbers of buffers. -/
structure Whole (conf : FlqConf) (flq : Flq) : Prop where
  fits : Fits conf flq
  whole : ∀ slot < conf.numPages, conf.bufSize ∣ (flq.pgSdesc slot).pgOffset

/-- A sum after one of its terms was written. -/
theorem sum_update_add {n slot : ℕ} (hslot : slot < n) (f : ℕ → ℕ) (x : ℕ) :
    ∑ i ∈ Finset.range n, Function.update f slot x i + f slot = ∑ i ∈ Finset.range n, f i + x := by
  have hmem := Finset.mem_range.mpr hslot
  have hold := Finset.sum_erase_add (Finset.range n) f hmem
  rw [Finset.sum_update_of_mem hmem, Finset.sdiff_singleton_eq_erase]
  omega

variable {conf : FlqConf} {flq : Flq} {heap : PageHeap} {env : PageEnv}

/-- Writing the offset of a page back. -/
theorem carved_setPgSdesc {slot : ℕ} (hslot : slot < flq.numPages) (x : PgSdesc) :
    carved (flq.setPgSdesc slot x) + (flq.pgSdesc slot).pgOffset / 2 ^ flq.descPgShift =
        carved flq + x.pgOffset / 2 ^ flq.descPgShift ∧
      carvedBytes (flq.setPgSdesc slot x) + (flq.pgSdesc slot).pgOffset =
        carvedBytes flq + x.pgOffset := by
  have hbufs :=
    apply_update (fun p : PgSdesc => p.pgOffset / 2 ^ flq.descPgShift) flq.pgSdesc slot x
  have hbytes := apply_update PgSdesc.pgOffset flq.pgSdesc slot x
  unfold carved carvedBytes Flq.setPgSdesc
  dsimp only at hbufs hbytes ⊢
  constructor
  · rw [hbufs]
    exact sum_update_add hslot _ _
  · rw [hbytes]
    exact sum_update_add hslot _ _

theorem Whole.setPgSdesc (h : Whole conf flq) (slot : ℕ) {x : PgSdesc}
    (hx : conf.bufSize ∣ x.pgOffset) : Whole conf (flq.setPgSdesc slot x) := by
  refine ⟨⟨h.fits.1, h.fits.2, h.fits.3, h.fits.4, h.fits.5, h.fits.6⟩, fun s hs => ?_⟩
  by_cases heq : s = slot
  · subst heq
    simpa [Flq.setPgSdesc] using hx
  · simpa [Flq.setPgSdesc, Function.update_of_ne heq] using h.whole s hs

/-! ## Giving buffers back -/

/-- The slot of a page index. -/
theorem Whole.slot_eq (h : Whole conf flq) (n : ℕ) : n &&& flq.numPgsMask = n % conf.numPages := by
  obtain ⟨k, -, hpages⟩ := conf.numPages_eq
  rw [h.fits.mask, hpages, Nat.and_two_pow_sub_one_eq_mod]

/-- The free list after a round of the first loop of `flq_refill_pages` that takes `n` buffers off
the page of a slot. -/
def takeOff (flq : Flq) (slot n : ℕ) : Flq :=
  flq.setPgSdesc slot { flq.pgSdesc slot with
    pgOffset := (flq.pgSdesc slot).pgOffset - n * flq.descBufSize }

/-- Taking off buffers that are carved: the offset does not go below zero. -/
theorem Whole.takeOff (h : Whole conf flq) {slot n : ℕ} (hslot : slot < conf.numPages)
    (hn : n ≤ (flq.pgSdesc slot).pgOffset / 2 ^ flq.descPgShift) :
    Whole conf (takeOff flq slot n) ∧ carved (takeOff flq slot n) + n = carved flq ∧
      carvedBytes (takeOff flq slot n) + n * flq.descBufSize = carvedBytes flq := by
  have hdvd := h.whole slot hslot
  rw [← h.fits.numPages] at hslot
  have hsize : flq.descBufSize = 2 ^ flq.descPgShift := by
    rw [h.fits.bufSize, h.fits.shift]
    rfl
  have hle : n * flq.descBufSize ≤ (flq.pgSdesc slot).pgOffset := by
    rw [hsize]
    exact (Nat.mul_le_mul_right _ hn).trans (Nat.div_mul_le_self _ _)
  have hdiv : ((flq.pgSdesc slot).pgOffset - n * flq.descBufSize) / 2 ^ flq.descPgShift =
      (flq.pgSdesc slot).pgOffset / 2 ^ flq.descPgShift - n := by
    rw [hsize, Nat.mul_comm]
    exact Nat.sub_mul_div_of_le _ _ _ (by rwa [hsize, Nat.mul_comm] at hle)
  unfold OnicDriver.C2h.takeOff
  obtain ⟨x, hx⟩ : ∃ x : PgSdesc, x = { flq.pgSdesc slot with
    pgOffset := (flq.pgSdesc slot).pgOffset - n * flq.descBufSize } := ⟨_, rfl⟩
  have hoffset : x.pgOffset = (flq.pgSdesc slot).pgOffset - n * flq.descBufSize := by rw [hx]
  obtain ⟨hbufs, hbytes⟩ := carved_setPgSdesc hslot x
  rw [← hx]
  rw [hoffset] at hbufs hbytes
  refine ⟨h.setPgSdesc slot ?_, by omega, by omega⟩
  rw [hoffset, h.fits.bufSize]
  exact Nat.dvd_sub hdvd (Nat.dvd_mul_left _ _)

/-- What giving buffers back leaves alone: all but the offsets of the pages. -/
structure SameIndices (flq flq' : Flq) : Prop where
  alloc : flq'.allocIdx = flq.allocIdx
  recycle : flq'.recycleIdx = flq.recycleIdx
  bufSize : flq'.descBufSize = flq.descBufSize

/-- The first loop of `flq_refill_pages`, if it ends, takes exactly `left` buffers off the
pages. -/
theorem Whole.of_returnBufs (h : Whole conf flq) {passedOn recycle : Bool} {fuel left nr nr' : ℕ}
    {flq' : Flq} {heap' : PageHeap}
    (heq : returnBufs passedOn recycle fuel left nr flq heap = some (nr', flq', heap')) :
    Whole conf flq' ∧ carved flq' + left = carved flq ∧
      carvedBytes flq' + left * flq.descBufSize = carvedBytes flq ∧ SameIndices flq flq' := by
  induction fuel generalizing left nr flq heap with
  | zero =>
    unfold OnicDriver.C2h.returnBufs at heq
    split at heq
    · rename_i hzero
      cases heq
      subst hzero
      exact ⟨h, by omega, by omega, rfl, rfl, rfl⟩
    · cases heq
  | succ fuel ih =>
    unfold OnicDriver.C2h.returnBufs at heq
    split at heq
    · rename_i hzero
      cases heq
      subst hzero
      exact ⟨h, by omega, by omega, rfl, rfl, rfl⟩
    · dsimp only at heq
      have hslot := Nat.mod_lt nr conf.numPages_pos
      rw [h.slot_eq] at heq
      obtain ⟨hwhole, hbufs, hbytes⟩ := h.takeOff hslot
        (min_le_left ((flq.pgSdesc (nr % conf.numPages)).pgOffset / 2 ^ flq.descPgShift) left)
      obtain ⟨hwhole', hbufs', hbytes', hsame⟩ := ih hwhole heq
      have hle := min_le_right
        ((flq.pgSdesc (nr % conf.numPages)).pgOffset / 2 ^ flq.descPgShift) left
      generalize min ((flq.pgSdesc (nr % conf.numPages)).pgOffset / 2 ^ flq.descPgShift) left = n
        at *
      refine ⟨hwhole', by omega, ?_, hsame.alloc, hsame.recycle, hsame.bufSize⟩
      have hsplit : left * flq.descBufSize =
          (left - n) * flq.descBufSize + n * flq.descBufSize := by
        rw [← Nat.add_mul, Nat.sub_add_cancel hle]
      have hsizes : (OnicDriver.C2h.takeOff flq (nr % conf.numPages) n).descBufSize =
          flq.descBufSize := rfl
      rw [hsizes] at hbytes'
      omega

/-- A page index and the following ones stand for all slots. -/
theorem FlqConf.slot_mod (conf : FlqConf) (n : ℕ) :
    n % 2 ^ 32 % conf.numPages = n % conf.numPages := by
  obtain ⟨k, hk, hpages⟩ := conf.numPages_eq
  rw [hpages]
  exact Nat.mod_mod_of_dvd _ (Nat.pow_dvd_pow 2 (by omega))

/-- Where buffers are carved, a page with one of them follows within a turn. -/
theorem Whole.exists_carved (h : Whole conf flq) (hpos : 0 < carved flq) (nr : ℕ) :
    ∃ m < conf.numPages, (∀ i < m, (flq.pgSdesc ((nr + i) % conf.numPages)).pgOffset = 0) ∧
      0 < (flq.pgSdesc ((nr + m) % conf.numPages)).pgOffset / 2 ^ flq.descPgShift := by
  have hbuf : (2 : ℕ) ^ flq.descPgShift = conf.bufSize := by
    rw [h.fits.shift]
    rfl
  obtain ⟨slot, hslot, hcarved⟩ : ∃ slot < flq.numPages,
      0 < (flq.pgSdesc slot).pgOffset / 2 ^ flq.descPgShift := by
    by_contra hnone
    push Not at hnone
    refine hpos.ne' (Finset.sum_eq_zero fun slot hslot => ?_)
    exact Nat.le_zero.mp (hnone slot (Finset.mem_range.mp hslot))
  rw [h.fits.numPages] at hslot
  have hreach : ∃ m, 0 < (flq.pgSdesc ((nr + m) % conf.numPages)).pgOffset /
      2 ^ flq.descPgShift := by
    refine ⟨slot + (conf.numPages - nr % conf.numPages), ?_⟩
    have hlt := Nat.mod_lt nr conf.numPages_pos
    have hindex : (nr + (slot + (conf.numPages - nr % conf.numPages))) % conf.numPages = slot := by
      rw [← Nat.mod_add_mod, show nr % conf.numPages + (slot + (conf.numPages -
        nr % conf.numPages)) = slot + conf.numPages by omega, Nat.add_mod_right,
        Nat.mod_eq_of_lt hslot]
    rwa [hindex]
  classical
  refine ⟨Nat.find hreach, ?_, fun i hi => ?_, Nat.find_spec hreach⟩
  · by_contra hfar
    have hle := not_lt.mp hfar
    refine Nat.find_min hreach (m := Nat.find hreach - conf.numPages)
      (by have := conf.numPages_pos; omega) ?_
    have hspec := Nat.find_spec hreach
    have hindex :
        nr + Nat.find hreach = nr + (Nat.find hreach - conf.numPages) + conf.numPages := by
      omega
    rwa [hindex, Nat.add_mod_right] at hspec
  · have hzero := Nat.le_zero.mp (not_lt.mp (Nat.find_min hreach hi))
    have hdvd := h.whole _ (Nat.mod_lt (nr + i) conf.numPages_pos)
    rw [hbuf] at hzero
    exact (Nat.div_eq_zero_iff_lt FlqConf.bufSize_pos).mp hzero |> Nat.eq_zero_of_dvd_of_lt hdvd

/-- A round of the first loop of `flq_refill_pages` at a page with nothing to give back. -/
theorem Whole.returnBufs_skip (h : Whole conf flq) {passedOn recycle : Bool} {fuel left nr : ℕ}
    (hleft : left ≠ 0) (hzero : (flq.pgSdesc (nr % conf.numPages)).pgOffset = 0) :
    ∃ heap', returnBufs passedOn recycle (fuel + 1) left nr flq heap =
      returnBufs passedOn recycle fuel left (u32 (nr + 1)) flq heap' := by
  have hsame : flq.setPgSdesc (nr % conf.numPages) { flq.pgSdesc (nr % conf.numPages) with
      pgOffset := 0 } = flq := by
    have hdesc : ({ flq.pgSdesc (nr % conf.numPages) with pgOffset := 0 } : PgSdesc) =
        flq.pgSdesc (nr % conf.numPages) := by
      rw [← hzero]
    rw [hdesc]
    unfold Flq.setPgSdesc
    rw [Function.update_eq_self]
  refine ⟨if recycle = false ∧ passedOn = false then
    heap.putPage (flq.pgSdesc (nr % conf.numPages)).pgBase 0 else heap, ?_⟩
  conv_lhs => unfold OnicDriver.C2h.returnBufs
  rw [if_neg hleft]
  dsimp only
  rw [h.slot_eq, hzero, Nat.zero_div, Nat.zero_min, Nat.zero_mul, Nat.sub_zero, if_pos rfl,
    Nat.sub_zero, hsame]

/-- Pages with nothing to give back are passed over. -/
theorem Whole.returnBufs_skips (h : Whole conf flq) {passedOn recycle : Bool} {left : ℕ}
    (hleft : left ≠ 0) {m : ℕ} (fuel nr : ℕ)
    (hzero : ∀ i < m, (flq.pgSdesc ((nr + i) % conf.numPages)).pgOffset = 0) :
    ∃ heap' nr', returnBufs passedOn recycle (fuel + m) left nr flq heap =
        returnBufs passedOn recycle fuel left nr' flq heap' ∧
      nr' % conf.numPages = (nr + m) % conf.numPages := by
  induction m generalizing nr heap with
  | zero => exact ⟨heap, nr, rfl, rfl⟩
  | succ m ih =>
    have hfirst := hzero 0 (Nat.succ_pos m)
    rw [Nat.add_zero] at hfirst
    obtain ⟨heap₁, hskip⟩ := @Whole.returnBufs_skip _ _ heap h passedOn recycle (fuel + m) _ _
      hleft hfirst
    have hwrap : u32 ((nr : ℤ) + 1) = (nr + 1) % 2 ^ 32 := by
      unfold u32
      omega
    have hmod : ∀ i, (u32 ((nr : ℤ) + 1) + i) % conf.numPages = (nr + (i + 1)) % conf.numPages := by
      intro i
      rw [hwrap, ← Nat.mod_add_mod, conf.slot_mod, Nat.mod_add_mod]
      congr 1
      omega
    obtain ⟨heap', nr', heq, hnr⟩ := @ih heap₁ (u32 ((nr : ℤ) + 1)) fun i hi => by
      rw [hmod]
      exact hzero (i + 1) (by omega)
    refine ⟨heap', nr', ?_, hnr.trans (hmod m)⟩
    rw [← Nat.add_assoc, hskip, heq]

/-- The first loop of `flq_refill_pages` ends if as many buffers are carved as it gives back. -/
theorem Whole.returnBufs_ends (h : Whole conf flq) {passedOn recycle : Bool} {fuel left nr : ℕ}
    (hleft : left ≤ carved flq) (hfuel : left * (conf.numPages + 1) ≤ fuel) :
    ∃ r, returnBufs passedOn recycle fuel left nr flq heap = some r := by
  induction left using Nat.strong_induction_on generalizing fuel nr flq heap with
  | _ left ih =>
    by_cases hzero : left = 0
    · subst hzero
      exact ⟨_, returnBufs_zero passedOn recycle fuel nr flq heap⟩
    · obtain ⟨m, hm, hskip, htake⟩ := h.exists_carved (by omega) nr
      obtain ⟨l, rfl⟩ : ∃ l, left = l + 1 := ⟨left - 1, by omega⟩
      have hsplit : (l + 1) * (conf.numPages + 1) =
          l * (conf.numPages + 1) + conf.numPages + 1 := by
        rw [Nat.succ_mul, Nat.add_assoc]
      obtain ⟨rest, rfl⟩ : ∃ rest, fuel = rest + 1 + m := ⟨fuel - 1 - m, by omega⟩
      obtain ⟨heap₁, nr₁, heq, hnr⟩ := @Whole.returnBufs_skips _ _ heap h passedOn recycle _
        hzero _ (rest + 1) nr hskip
      rw [heq]
      have hslot : nr₁ % conf.numPages < conf.numPages := Nat.mod_lt _ conf.numPages_pos
      unfold OnicDriver.C2h.returnBufs
      rw [if_neg hzero]
      dsimp only
      rw [h.slot_eq]
      rw [← hnr] at htake
      have hle := min_le_left ((flq.pgSdesc (nr₁ % conf.numPages)).pgOffset / 2 ^ flq.descPgShift)
        (l + 1)
      have hle' := min_le_right ((flq.pgSdesc (nr₁ % conf.numPages)).pgOffset / 2 ^ flq.descPgShift)
        (l + 1)
      have hpos : 0 < min ((flq.pgSdesc (nr₁ % conf.numPages)).pgOffset / 2 ^ flq.descPgShift)
        (l + 1) := lt_min htake (Nat.succ_pos l)
      obtain ⟨hwhole, hcarved, -⟩ := h.takeOff hslot hle
      generalize
        min ((flq.pgSdesc (nr₁ % conf.numPages)).pgOffset / 2 ^ flq.descPgShift) (l + 1) = n
        at *
      refine ih (l + 1 - n) (by omega) hwhole (by omega) ?_
      have hmono : (l + 1 - n) * (conf.numPages + 1) ≤ l * (conf.numPages + 1) :=
        Nat.mul_le_mul_right _ (by omega)
      omega

/-! ## Replacing pages -/

/-- Writing a page back with the same offset. -/
theorem Whole.setSame (h : Whole conf flq) {slot : ℕ} (hslot : slot < conf.numPages) {x : PgSdesc}
    (hx : x.pgOffset = (flq.pgSdesc slot).pgOffset) :
    Whole conf (flq.setPgSdesc slot x) ∧ carved (flq.setPgSdesc slot x) = carved flq := by
  have hdvd := h.whole slot hslot
  rw [← h.fits.numPages] at hslot
  obtain ⟨hbufs, -⟩ := carved_setPgSdesc hslot x
  rw [← hx] at hdvd
  rw [hx] at hbufs
  exact ⟨h.setPgSdesc slot hdvd, by omega⟩

/-- `flq_fill_page_one` at a page without buffers. -/
theorem Whole.fillPageOne (h : Whole conf flq) (env : PageEnv) (heap : PageHeap) {slot : ℕ}
    (hslot : slot < conf.numPages) (hzero : (flq.pgSdesc slot).pgOffset = 0) :
    Whole conf (flqFillPageOne env flq heap slot).2.1 ∧
      carved (flqFillPageOne env flq heap slot).2.1 = carved flq ∧
      (flqFillPageOne env flq heap slot).2.1.allocIdx = flq.allocIdx ∧
      (flqFillPageOne env flq heap slot).2.1.recycleIdx = flq.recycleIdx := by
  unfold flqFillPageOne
  cases env.allocPages heap.calls heap.refs with
  | none => exact ⟨h, rfl, rfl, rfl⟩
  | some pg =>
    dsimp only
    cases env.dmaMapPage pg with
    | none => exact ⟨h, rfl, rfl, rfl⟩
    | some mapping =>
      obtain ⟨hwhole, hcarved⟩ := h.setSame hslot
        (x := { pgBase := pg, pgDmaBaseAddr := mapping, pgOffset := 0 }) hzero.symm
      exact ⟨hwhole, hcarved, rfl, rfl⟩

/-- The second loop of `flq_refill_pages` replaces pages without buffers and moves `recycle_idx`
towards `alloc_idx`, `n` pages ahead, at most. -/
theorem Whole.replacePages (h : Whole conf flq) (env : PageEnv) (n : ℕ) (heap : PageHeap) :
    Whole conf (replacePages env n flq heap).1 ∧
      carved (replacePages env n flq heap).1 = carved flq ∧
      (replacePages env n flq heap).1.allocIdx = flq.allocIdx ∧
      ∃ j ≤ n, (replacePages env n flq heap).1.recycleIdx % 2 ^ 32 =
        (flq.recycleIdx + j) % 2 ^ 32 := by
  induction n generalizing flq heap with
  | zero => exact ⟨h, rfl, rfl, 0, le_rfl, rfl⟩
  | succ n ih =>
    have hslot : flq.recycleIdx % conf.numPages < conf.numPages := Nat.mod_lt _ conf.numPages_pos
    unfold C2h.replacePages
    dsimp only
    rw [h.slot_eq]
    by_cases hzero : (flq.pgSdesc (flq.recycleIdx % conf.numPages)).pgOffset = 0
    · rw [if_neg (not_not.mpr hzero)]
      obtain ⟨hset, hcarved⟩ := h.setSame hslot
        (x := { flq.pgSdesc (flq.recycleIdx % conf.numPages) with pgDmaBaseAddr := 0 }) rfl
      obtain ⟨hwhole₁, hcarved₁, halloc₁, hrecycle₁⟩ := hset.fillPageOne env
        (heap.putPage (flq.pgSdesc (flq.recycleIdx % conf.numPages)).pgBase 1) hslot
        (by simpa [Flq.setPgSdesc] using hzero)
      split
      · exact ⟨hwhole₁, hcarved₁.trans hcarved, halloc₁, 0, Nat.zero_le _, by rw [hrecycle₁]; rfl⟩
      · generalize flqFillPageOne env (flq.setPgSdesc (flq.recycleIdx % conf.numPages)
          { flq.pgSdesc (flq.recycleIdx % conf.numPages) with pgDmaBaseAddr := 0 })
          (heap.putPage (flq.pgSdesc (flq.recycleIdx % conf.numPages)).pgBase 1)
          (flq.recycleIdx % conf.numPages) = r at *
        have hnext : Whole conf { r.2.1 with recycleIdx := u32 (r.2.1.recycleIdx + 1) } :=
          ⟨⟨hwhole₁.fits.1, hwhole₁.fits.2, hwhole₁.fits.3, hwhole₁.fits.4, hwhole₁.fits.5,
            hwhole₁.fits.6⟩, hwhole₁.whole⟩
        obtain ⟨hwhole₂, hcarved₂, halloc₂, j, hj, hrecycle₂⟩ := ih hnext r.2.2
        refine ⟨hwhole₂, hcarved₂.trans (hcarved₁.trans hcarved), halloc₂.trans halloc₁, j + 1,
          Nat.succ_le_succ hj, hrecycle₂.trans ?_⟩
        have hwrap : u32 ((r.2.1.recycleIdx : ℤ) + 1) = (r.2.1.recycleIdx + 1) % 2 ^ 32 := by
          unfold u32
          omega
        have hsame : r.2.1.recycleIdx = flq.recycleIdx := hrecycle₁
        dsimp only
        rw [hwrap, hsame, Nat.mod_add_mod]
        congr 1
        omega
    · rw [if_pos hzero]
      exact ⟨h, rfl, rfl, 0, Nat.zero_le _, rfl⟩

/-! ## Filling descriptors -/

/-- `flq_fill_one` carves a buffer or changes nothing. -/
theorem Whole.fillOne (h : Whole conf flq) (c2hBufsz : ℕ) (heap : PageHeap) (idx : ℕ) :
    ((flqFillOne c2hBufsz flq heap idx).1 < 0 ∧ (flqFillOne c2hBufsz flq heap idx).2.1 = flq) ∨
      ((flqFillOne c2hBufsz flq heap idx).1 = 0 ∧
        Whole conf (flqFillOne c2hBufsz flq heap idx).2.1 ∧
        carved (flqFillOne c2hBufsz flq heap idx).2.1 = carved flq + 1) := by
  have hslot : flq.allocIdx % conf.numPages < conf.numPages := Nat.mod_lt _ conf.numPages_pos
  have hdvd := h.whole _ hslot
  have hbuf : flq.descBufSize = 2 ^ flq.descPgShift := by
    rw [h.fits.bufSize, h.fits.shift]
    rfl
  have hinval : (-EINVAL : ℤ) < 0 := by decide
  have hnomem : (-ENOMEM : ℤ) < 0 := by decide
  have hpages := h.fits.numPages
  unfold flqFillOne
  dsimp only
  rw [h.slot_eq]
  by_cases hnone : flq.numPages = 0
  · rw [if_pos hnone]
    exact Or.inl ⟨hinval, rfl⟩
  rw [if_neg hnone, if_neg (by omega)]
  by_cases hbase : (flq.pgSdesc (flq.allocIdx % conf.numPages)).pgBase = 0
  · rw [if_pos hbase]
    exact Or.inl ⟨hinval, rfl⟩
  rw [if_neg hbase]
  by_cases hfull : (flq.pgSdesc (flq.allocIdx % conf.numPages)).pgOffset + flq.descBufSize >
      flq.maxPgOffset
  · rw [if_pos hfull]
    exact Or.inl ⟨hnomem, rfl⟩
  rw [if_neg hfull]
  right
  obtain ⟨x, hx⟩ : ∃ x : PgSdesc, x = { flq.pgSdesc (flq.allocIdx % conf.numPages) with
    pgOffset := (flq.pgSdesc (flq.allocIdx % conf.numPages)).pgOffset + flq.descBufSize } :=
    ⟨_, rfl⟩
  have hoffset : x.pgOffset =
      (flq.pgSdesc (flq.allocIdx % conf.numPages)).pgOffset + flq.descBufSize := by rw [hx]
  have hset : Whole conf (flq.setPgSdesc (flq.allocIdx % conf.numPages) x) := by
    refine h.setPgSdesc _ ?_
    rw [hoffset, h.fits.bufSize]
    exact Nat.dvd_add hdvd dvd_rfl
  obtain ⟨hbufs, -⟩ := carved_setPgSdesc (hslot.trans_eq hpages.symm) x
  rw [hoffset, hbuf, Nat.add_div_right _ (Nat.two_pow_pos _)] at hbufs
  have hcarved : carved (flq.setPgSdesc (flq.allocIdx % conf.numPages) x) = carved flq + 1 := by
    omega
  subst hx
  exact ⟨rfl, ⟨⟨hset.fits.1, hset.fits.2, hset.fits.3, hset.fits.4, hset.fits.5, hset.fits.6⟩,
    hset.whole⟩, hcarved⟩

/-- The loop of `qdma_flq_refill` counts the buffers that it carves. -/
theorem Whole.refillEntries (c2hBufsz : ℕ) {n : ℕ} {st : FlqState} (h : Whole conf st.flq)
    (havail : st.avail + n < 2 ^ 32) (idx : ℕ) :
    ∃ k ≤ n, Whole conf (refillEntries c2hBufsz false n idx st).2.flq ∧
      carved (refillEntries c2hBufsz false n idx st).2.flq = carved st.flq + k ∧
      (refillEntries c2hBufsz false n idx st).2.avail = st.avail + k ∧
      (refillEntries c2hBufsz false n idx st).1 = k := by
  induction n generalizing idx st with
  | zero => exact ⟨0, le_rfl, h, rfl, rfl, rfl⟩
  | succ n ih =>
    have hcount : u32 ((st.avail : ℤ) + 1) = st.avail + 1 := by
      unfold u32
      omega
    unfold C2h.refillEntries
    dsimp only
    generalize (if idx = st.flq.size then 0 else idx) = idx
    have hfree : Whole conf (flqFreeOne st.flq idx) :=
      ⟨⟨h.fits.1, h.fits.2, h.fits.3, h.fits.4, h.fits.5, h.fits.6⟩, h.whole⟩
    rw [if_neg (by decide)]
    rcases hfree.fillOne c2hBufsz st.heap idx with ⟨hneg, hsame⟩ | ⟨hzero, hwhole, hcarved⟩
    · rw [if_pos hneg]
      refine ⟨0, Nat.zero_le _, ?_, ?_, rfl, rfl⟩
      · dsimp only
        rw [hsame]
        split <;> exact ⟨⟨h.fits.1, h.fits.2, h.fits.3, h.fits.4, h.fits.5, h.fits.6⟩, h.whole⟩
      · dsimp only
        rw [hsame]
        split <;> rfl
    · rw [if_neg (by rw [hzero]; exact lt_irrefl 0)]
      generalize flqFillOne c2hBufsz (flqFreeOne st.flq idx) st.heap idx = r at *
      have hnext : Whole conf (r.2.1.clearFlags idx) :=
        ⟨⟨hwhole.fits.1, hwhole.fits.2, hwhole.fits.3, hwhole.fits.4, hwhole.fits.5,
          hwhole.fits.6⟩, hwhole.whole⟩
      rw [hcount]
      obtain ⟨k, hk, hwhole', hcarved', havail', hresult⟩ := @ih
        { flq := r.2.1.clearFlags idx, heap := r.2.2, avail := st.avail + 1 } hnext
        (by dsimp only; omega) (idx + 1)
      refine ⟨k + 1, Nat.succ_le_succ hk, hwhole', ?_, ?_, by rw [hresult]⟩
      · have hclear : carved (r.2.1.clearFlags idx) = carved r.2.1 := rfl
        have hfreed : carved (flqFreeOne st.flq idx) = carved st.flq := rfl
        rw [hcarved', hclear, hcarved, hfreed]
        omega
      · rw [havail']
        dsimp only
        omega

end OnicDriver.C2h
