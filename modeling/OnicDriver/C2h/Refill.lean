import OnicDriver.C2h.FreeListShape

/-!
# Refilling the free list

The loops that replace used-up pages and cut new buffers keep the shape of the
free list. Each takes along a property of the pages and buffers: whatever a
single replacement or a single cut preserves, the loop preserves.
-/

namespace OnicDriver.C2h

open Lib

/-! ## Pages and buffers behind the shape -/

/-- What decides which memory a buffer is: the pages of the slots, the addresses in the
descriptors, and the reference counts. -/
structure BufView where
  pgBase : ℕ → ℕ
  pgDma : ℕ → ℕ
  sdesc : ℕ → SwSg
  dstAddr : ℕ → ℕ
  refs : ℕ → ℕ

def bufView (flq : Flq) (heap : PageHeap) : BufView :=
  { pgBase := fun slot => (flq.pgSdesc slot).pgBase
    pgDma := fun slot => (flq.pgSdesc slot).pgDmaBaseAddr
    sdesc := flq.sdesc, dstAddr := flq.dstAddr, refs := heap.refs }

theorem SamePages.bufView_eq {flq flq' : Flq} (h : SamePages flq flq') (heap : PageHeap) :
    bufView flq' heap = bufView flq heap := by
  obtain ⟨f, rfl, hf⟩ := h
  simp [bufView, hf]

/-- Dropping the page of a slot and putting a new page there. -/
def BufView.replace (v : BufView) (slot pg mapping : ℕ) : BufView :=
  { v with
    pgBase := Function.update v.pgBase slot pg
    pgDma := Function.update v.pgDma slot mapping
    refs := Function.update
      (Function.update v.refs (v.pgBase slot) (v.refs (v.pgBase slot) - 1)) pg 1 }

/-- The descriptor for the buffer of `slot` at `offset`. -/
def BufView.buffer (v : BufView) (slot offset len : ℕ) : SwSg :=
  { pg := v.pgBase slot, offset := offset, len := len, dmaAddr := v.pgDma slot + offset }

/-- Cutting the buffer at `offset` out of the page of `slot` for descriptor `idx`. -/
def BufView.fill (v : BufView) (slot offset len idx : ℕ) : BufView :=
  { v with
    sdesc := Function.update v.sdesc idx (v.buffer slot offset len)
    dstAddr := Function.update v.dstAddr idx (v.pgDma slot + offset)
    refs := Function.update v.refs (v.pgBase slot) (v.refs (v.pgBase slot) + 1) }

/-- A field of the slots after one slot was written. -/
theorem apply_update {α : Type*} (g : PgSdesc → α) (f : ℕ → PgSdesc) (slot : ℕ) (x : PgSdesc) :
    (fun s => g (Function.update f slot x s)) = Function.update (fun s => g (f s)) slot (g x) := by
  funext s
  by_cases heq : s = slot
  · subst heq
    simp
  · simp [Function.update_of_ne heq]

/-- The pages after a replacement. -/
theorem bufView_replace (flq : Flq) (heap : PageHeap) (slot pg mapping recycle calls : ℕ) :
    bufView
        { flq.setPgSdesc slot { pgBase := pg, pgDmaBaseAddr := mapping, pgOffset := 0 } with
          recycleIdx := recycle }
        { refs := Function.update (heap.putPage (flq.pgSdesc slot).pgBase 1).refs pg 1
          calls := calls } =
      (bufView flq heap).replace slot pg mapping := by
  simp only [bufView, BufView.replace, Flq.setPgSdesc, PageHeap.putPage,
    apply_update PgSdesc.pgBase, apply_update PgSdesc.pgDmaBaseAddr]

/-- Page allocations and mappings succeed, and the allocator hands out free pages only. -/
structure PageEnv.Succeeds (env : PageEnv) : Prop where
  alloc : ∀ n refs, {p | refs p ≠ 0}.Finite →
    ∃ pg, env.allocPages n refs = some pg ∧ pg ≠ 0 ∧ refs pg = 0
  map : ∀ pg, env.dmaMapPage pg ≠ none

theorem finite_update {refs : ℕ → ℕ} (h : {p | refs p ≠ 0}.Finite) (pg n : ℕ) :
    {p | Function.update refs pg n p ≠ 0}.Finite := by
  refine (h.insert pg).subset fun p hp => ?_
  by_cases heq : p = pg
  · exact Or.inl heq
  · rw [Set.mem_ofPred_eq, Function.update_of_ne heq] at hp
    exact Or.inr hp

section Pages

variable {conf : FlqConf} {c a r : ℕ} {flq : Flq} {heap : PageHeap} {env : PageEnv}

/-- `flq_fill_page_one` puts a free page into the slot, whatever was there before. -/
theorem flqFillPageOne_succeeds (henv : env.Succeeds) (heap : PageHeap)
    (hfinite : {p | heap.refs p ≠ 0}.Finite) (flq : Flq) (slot : ℕ) (x : PgSdesc) :
    ∃ pg mapping, pg ≠ 0 ∧ heap.refs pg = 0 ∧ env.dmaMapPage pg = some mapping ∧
      flqFillPageOne env (flq.setPgSdesc slot x) heap slot =
        (0, flq.setPgSdesc slot { pgBase := pg, pgDmaBaseAddr := mapping, pgOffset := 0 },
          { refs := Function.update heap.refs pg 1, calls := heap.calls + 1 }) := by
  obtain ⟨pg, halloc, hpg, hfree⟩ := henv.alloc heap.calls heap.refs hfinite
  obtain ⟨mapping, hmap⟩ := Option.ne_none_iff_exists'.mp (henv.map pg)
  refine ⟨pg, mapping, hpg, hfree, hmap, ?_⟩
  unfold flqFillPageOne
  rw [halloc]
  simp only [hmap, Flq.setPgSdesc, Function.update_idem]

/-- Replacing a page whose buffers were all returned. -/
theorem Shape.replace (h : Shape conf c a r flq heap) (hend : (r + 1) * conf.bufsPerPg ≤ c)
    (mapping calls : ℕ) {pg recycle : ℕ} (hpg : pg ≠ 0) {refs : ℕ → ℕ}
    (hrefs : {p | refs p ≠ 0}.Finite) (hrecycle : recycle = (r + 1) % 2 ^ 32) :
    Shape conf c a (r + 1)
      { flq.setPgSdesc (r % conf.numPages)
          { pgBase := pg, pgDmaBaseAddr := mapping, pgOffset := 0 } with recycleIdx := recycle }
      { refs := Function.update refs pg 1, calls := calls } := by
  have hP : 0 < conf.numPages := conf.numPages_pos
  have hwindow := h.window
  have hmono : (r + conf.numPages) * conf.bufsPerPg ≤
      (r + 1 + conf.numPages) * conf.bufsPerPg := Nat.mul_le_mul_right _ (by omega)
  refine ⟨⟨h.fits.1, h.fits.2, h.fits.3, h.fits.4, h.fits.5, h.fits.6⟩, h.alloc, hrecycle, hend,
    h.frontier, hwindow.trans hmono, ?_, ?_, finite_update hrefs pg 1⟩
  · intro q hq hqn
    by_cases heq : q = r + conf.numPages
    · -- the slot now stands for the page after the window, which holds no buffer yet
      have hnone : inPage conf.bufsPerPg c a q = 0 := by
        rw [heq]
        unfold inPage
        omega
      rw [hnone, heq]
      simp [Flq.setPgSdesc]
    · have hslot : q % conf.numPages ≠ r % conf.numPages :=
        fun hmod => absurd (eq_of_mod_eq (n := conf.numPages) (by omega) (by omega) le_rfl
          (by omega) hmod) (by omega)
      rw [← h.offset q (by omega) (by omega)]
      simp [Flq.setPgSdesc, Function.update_of_ne hslot]
  · intro slot hslot
    by_cases heq : slot = r % conf.numPages
    · subst heq
      simpa [Flq.setPgSdesc] using hpg
    · simpa [Flq.setPgSdesc, Function.update_of_ne heq] using h.pages slot hslot

/-- What each replacement of a page has to preserve: page `r` is used up, and the page
put into its slot has no references. -/
def ReplaceKeeps (conf : FlqConf) (env : PageEnv) (c : ℕ) (J : ℕ → BufView → Prop) : Prop :=
  ∀ r v pg mapping, J r v → (r + 1) * conf.bufsPerPg ≤ c → pg ≠ 0 →
    Function.update v.refs (v.pgBase (r % conf.numPages))
      (v.refs (v.pgBase (r % conf.numPages)) - 1) pg = 0 →
    env.dmaMapPage pg = some mapping → J (r + 1) (v.replace (r % conf.numPages) pg mapping)

/-- The second loop of `flq_refill_pages` replaces the pages before the one that buffer `c`
lies in. A property of the pages that each replacement keeps is kept. -/
theorem Shape.replacePages (henv : env.Succeeds) {I : ℕ → BufView → Prop}
    (hI : ReplaceKeeps conf env c I) (h : Shape conf c a r flq heap)
    (hv : I r (bufView flq heap)) {n : ℕ}
    (hn : n = a / conf.bufsPerPg - r) :
    ∃ flq' heap', replacePages env n flq heap = (flq', heap') ∧
      Shape conf c a (c / conf.bufsPerPg) flq' heap' ∧
      I (c / conf.bufsPerPg) (bufView flq' heap') := by
  have hnb : 0 < conf.bufsPerPg := FlqConf.bufsPerPg_pos
  have hP : 0 < conf.numPages := conf.numPages_pos
  induction n generalizing r flq heap with
  | zero =>
    have hused := h.used
    have hfrontier := h.frontier
    have hle : a / conf.bufsPerPg * conf.bufsPerPg ≤ r * conf.bufsPerPg :=
      Nat.mul_le_mul_right _ (by omega)
    have hr : c / conf.bufsPerPg = r := by
      rw [show c = r * conf.bufsPerPg by omega, Nat.mul_div_cancel _ hnb]
    rw [hr]
    exact ⟨flq, heap, rfl, h, hv⟩
  | succ n ih =>
    have hslot : flq.recycleIdx &&& flq.numPgsMask = r % conf.numPages := by
      rw [h.recycle, h.fits.mask, conf.land_mask]
    have hoffset := h.offset r le_rfl (by omega)
    have hused := h.used
    unfold OnicDriver.C2h.replacePages
    simp only [hslot, hoffset]
    by_cases hend : (r + 1) * conf.bufsPerPg ≤ c
    · have hnone : inPage conf.bufsPerPg c a r = 0 := by
        unfold inPage
        omega
      rw [hnone, mul_zero, if_neg (by simp)]
      obtain ⟨pg, mapping, hpg, hfree, hmap, hfill⟩ := flqFillPageOne_succeeds henv
        (heap.putPage (flq.pgSdesc (r % conf.numPages)).pgBase 1) (finite_update h.finite _ _) flq
        (r % conf.numPages)
        { pgBase := (flq.pgSdesc (r % conf.numPages)).pgBase, pgDmaBaseAddr := 0, pgOffset := 0 }
      rw [hfill]
      dsimp only
      rw [if_neg (by decide)]
      have hrecycle : u32 (flq.recycleIdx + 1) = (r + 1) % 2 ^ 32 := by
        rw [h.recycle, u32_succ]
      have hview := hI r _ pg mapping hv hend hpg hfree hmap
      rw [← bufView_replace flq heap _ pg mapping (u32 (flq.recycleIdx + 1))
        (heap.calls + 1)] at hview
      exact ih (h.replace hend mapping _ hpg (finite_update h.finite _ _) hrecycle) hview (by omega)
    · have hc : c / conf.bufsPerPg = r :=
        Nat.div_eq_of_lt_le hused (not_le.mp hend)
      have hale := Nat.div_mul_le_self a conf.bufsPerPg
      have hlt : (r + 1) * conf.bufsPerPg ≤ a / conf.bufsPerPg * conf.bufsPerPg :=
        Nat.mul_le_mul_right _ (by omega)
      have hsome : inPage conf.bufsPerPg c a r ≠ 0 := by
        unfold inPage
        omega
      rw [if_pos (Nat.mul_ne_zero FlqConf.bufSize_pos.ne' hsome), hc]
      exact ⟨flq, heap, rfl, h, hv⟩

/-- Cutting the next buffer out of the page at the frontier. -/
theorem Shape.fillOne (h : Shape conf c a r flq heap)
    (hroom : a < (r + conf.numPages) * conf.bufsPerPg) (c2hBufsz idx : ℕ) :
    ∃ flq' heap', flqFillOne c2hBufsz flq heap idx = (0, flq', heap') ∧
      Shape conf c (a + 1) r flq' heap' ∧
      bufView flq' heap' = (bufView flq heap).fill (a / conf.bufsPerPg % conf.numPages)
        (conf.bufSize * (a % conf.bufsPerPg)) c2hBufsz idx := by
  have hnb : 0 < conf.bufsPerPg := FlqConf.bufsPerPg_pos
  have hP : 0 < conf.numPages := conf.numPages_pos
  have hB : 0 < conf.bufSize := FlqConf.bufSize_pos
  have hmod := Nat.mod_lt a hnb
  have hdivmod := Nat.div_add_mod' a conf.bufsPerPg
  have hused := h.used
  have hfrontier := h.frontier
  have hr : r ≤ a / conf.bufsPerPg :=
    le_of_mul_le_mul_right (hused.trans hfrontier) hnb
  have hqn : a / conf.bufsPerPg < r + conf.numPages := (Nat.div_lt_iff_lt_mul hnb).mpr hroom
  have hoffset := h.offset _ hr hqn
  have hslot : flq.allocIdx &&& flq.numPgsMask = a / conf.bufsPerPg % conf.numPages := by
    rw [h.alloc, h.fits.mask, conf.land_mask]
  have hlt : a / conf.bufsPerPg % conf.numPages < conf.numPages := Nat.mod_lt _ hP
  have hnext : (a + 1) / conf.bufsPerPg =
      if a % conf.bufsPerPg + 1 = conf.bufsPerPg then a / conf.bufsPerPg + 1
      else a / conf.bufsPerPg := by
    split
    · exact Nat.div_eq_of_lt_le (by rw [add_mul]; omega) (by rw [add_mul, add_mul]; omega)
    · exact Nat.div_eq_of_lt_le (by omega) (by rw [add_mul]; omega)
  have hpg := h.pages _ hlt
  generalize hA : a / conf.bufsPerPg = A at *
  generalize hi : a % conf.bufsPerPg = i at *
  have hsucc : (A + 1) * conf.bufsPerPg = A * conf.bufsPerPg + conf.bufsPerPg := by
    rw [add_mul, one_mul]
  have hin : inPage conf.bufsPerPg c a A = i := by
    unfold inPage
    omega
  rw [hin] at hoffset
  have hfits : conf.bufSize * i + conf.bufSize ≤ 2 ^ conf.pgBits := by
    rw [← FlqConf.bufSize_mul_bufsPerPg, ← Nat.mul_succ]
    exact Nat.mul_le_mul_left _ hmod
  have hlast : conf.bufSize * i + conf.bufSize + conf.bufSize > 2 ^ conf.pgBits ↔
      i + 1 = conf.bufsPerPg := by
    rw [← FlqConf.bufSize_mul_bufsPerPg, ← Nat.mul_succ, ← Nat.mul_succ, gt_iff_lt,
      Nat.mul_lt_mul_left hB]
    omega
  unfold flqFillOne
  simp only [h.fits.numPages, hslot, h.fits.bufSize, h.fits.maxPg, hoffset]
  rw [if_neg hP.ne', if_neg (by omega), if_neg hpg, if_neg (by omega)]
  refine ⟨_, _, rfl, ?_, ?_⟩
  · refine ⟨⟨h.fits.1, rfl, h.fits.3, rfl, rfl, h.fits.6⟩, ?_, h.recycle, hused, ?_, by omega, ?_,
      ?_, finite_update h.finite _ _⟩
    · rw [hnext]
      simp only [hlast, h.alloc, hA, u32_succ]
      split <;> rfl
    · rw [hnext]
      split <;> omega
    · refine h.offset_update hr hqn ?_ ?_
      · have hin' : inPage conf.bufsPerPg c (a + 1) A = i + 1 := by
          unfold inPage
          omega
        rw [hin', Nat.mul_succ]
      · intro p hp
        unfold inPage
        rcases lt_or_gt_of_ne hp with hlt | hgt
        · have := succ_mul_le conf.bufsPerPg hlt
          omega
        · have := succ_mul_le conf.bufsPerPg hgt
          omega
    · intro slot hslot
      by_cases heq : slot = A % conf.numPages
      · subst heq
        simpa using hpg
      · simpa [Function.update_of_ne heq] using h.pages slot hslot
  · simp only [bufView, BufView.fill, BufView.buffer, PageHeap.getPage,
      apply_update PgSdesc.pgBase, apply_update PgSdesc.pgDmaBaseAddr]
    simp

/-- Clearing a descriptor before it is filled again changes nothing else. -/
theorem Shape.freeOne (h : Shape conf c a r flq heap) (idx : ℕ) :
    Shape conf c a r (flqFreeOne flq idx) heap :=
  ⟨⟨h.fits.1, h.fits.2, h.fits.3, h.fits.4, h.fits.5, h.fits.6⟩, h.alloc, h.recycle, h.used,
    h.frontier, h.window, h.offset, h.pages, h.finite⟩

/-- A descriptor that is filled anew loses its old content. -/
theorem bufView_freeOne_fill (flq : Flq) (heap : PageHeap) (slot offset len idx : ℕ) :
    (bufView (flqFreeOne flq idx) heap).fill slot offset len idx =
      (bufView flq heap).fill slot offset len idx := by
  have hdst : Function.update (flqFreeOne flq idx).dstAddr idx =
      Function.update flq.dstAddr idx := by
    funext x
    unfold flqFreeOne
    dsimp only
    split
    · exact Function.update_idem ..
    · rfl
  simp only [bufView, BufView.fill, BufView.buffer, hdst]
  simp only [flqFreeOne, Function.update_idem]

theorem Shape.clearFlags (h : Shape conf c a r flq heap) (idx : ℕ) :
    Shape conf c a r (flq.clearFlags idx) heap :=
  ⟨⟨h.fits.1, h.fits.2, h.fits.3, h.fits.4, h.fits.5, h.fits.6⟩, h.alloc, h.recycle, h.used,
    h.frontier, h.window, h.offset, h.pages, h.finite⟩

/-- What each cut of a refill has to preserve: buffer `a` goes to descriptor
`(a + d) % size`. -/
def FillKeeps (conf : FlqConf) (c d c2hBufsz : ℕ) (I : ℕ → BufView → Prop) : Prop :=
  ∀ a v, I a v → c ≤ a / conf.bufsPerPg * conf.bufsPerPg → a < c + conf.size → I (a + 1)
    (v.fill (a / conf.bufsPerPg % conf.numPages) (conf.bufSize * (a % conf.bufsPerPg))
      c2hBufsz ((a + d) % conf.size))

/-- The pages of the window that starts at buffer `c` have room for a full ring. -/
theorem FlqConf.room (conf : FlqConf) (c : ℕ) :
    c + conf.size ≤ (c / conf.bufsPerPg + conf.numPages) * conf.bufsPerPg := by
  have hsize := conf.size_pos
  have hlt : (c + conf.size - 1) / conf.bufsPerPg < c / conf.bufsPerPg + conf.numPages :=
    FlqConf.div_lt_add_numPages (by omega)
  have := (Nat.div_lt_iff_lt_mul FlqConf.bufsPerPg_pos).mp hlt
  omega

/-- One round of the loop of `qdma_flq_refill`. -/
theorem Shape.refillEntries_step {I : ℕ → BufView → Prop} {d c2hBufsz : ℕ}
    (hI : FillKeeps conf c d c2hBufsz I) {st : FlqState}
    (h : Shape conf c a (c / conf.bufsPerPg) st.flq st.heap) (hv : I a (bufView st.flq st.heap))
    {n idx : ℕ} (hidx : idx ≤ conf.size) (hmod : idx % conf.size = (a + d) % conf.size)
    (hroom : a < c + conf.size) (havail : st.avail + 1 < 2 ^ 32) :
    ∃ st₁, refillEntries c2hBufsz false (n + 1) idx st =
        ((refillEntries c2hBufsz false n ((a + d) % conf.size + 1) st₁).1 + 1,
          (refillEntries c2hBufsz false n ((a + d) % conf.size + 1) st₁).2) ∧
      Shape conf c (a + 1) (c / conf.bufsPerPg) st₁.flq st₁.heap ∧
      I (a + 1) (bufView st₁.flq st₁.heap) ∧ st₁.avail = st.avail + 1 := by
  have hwrapped : (if idx = st.flq.size then 0 else idx) = (a + d) % conf.size := by
    rw [h.fits.size, ← hmod]
    split
    · rename_i heq
      rw [heq, Nat.mod_self]
    · rw [Nat.mod_eq_of_lt (by omega)]
  obtain ⟨flq', heap', hfill, hshape, hview⟩ := (h.freeOne ((a + d) % conf.size)).fillOne
    (hroom.trans_le (conf.room c)) c2hBufsz ((a + d) % conf.size)
  rw [bufView_freeOne_fill] at hview
  have hfilled := hI a _ hv h.frontier hroom
  rw [← hview] at hfilled
  have havail' : u32 (st.avail + 1) = st.avail + 1 := by
    have := u32_natCast (n := st.avail + 1) havail
    exact_mod_cast this
  refine ⟨{ flq := flq'.clearFlags ((a + d) % conf.size), heap := heap', avail := st.avail + 1 },
    ?_, hshape.clearFlags _, hfilled, rfl⟩
  conv_lhs => unfold OnicDriver.C2h.refillEntries
  simp only [hwrapped, hfill, Bool.false_eq_true, if_false, lt_irrefl, havail']

/-- The loop of `qdma_flq_refill` refills all its entries while fewer buffers are in use
than the ring has descriptors. -/
theorem Shape.refillEntries {I : ℕ → BufView → Prop} {d c2hBufsz : ℕ}
    (hI : FillKeeps conf c d c2hBufsz I) {st : FlqState}
    (h : Shape conf c a (c / conf.bufsPerPg) st.flq st.heap) (hv : I a (bufView st.flq st.heap))
    {n idx : ℕ} (hidx : idx ≤ conf.size) (hmod : idx % conf.size = (a + d) % conf.size)
    (hroom : a + n ≤ c + conf.size) (havail : st.avail + n < 2 ^ 32) :
    ∃ st', refillEntries c2hBufsz false n idx st = (n, st') ∧
      Shape conf c (a + n) (c / conf.bufsPerPg) st'.flq st'.heap ∧
      I (a + n) (bufView st'.flq st'.heap) ∧ st'.avail = st.avail + n := by
  induction n generalizing a idx st with
  | zero => exact ⟨st, rfl, h, hv, rfl⟩
  | succ n ih =>
    obtain ⟨st₁, hstep, hshape, hkept, hone⟩ :=
      h.refillEntries_step hI hv (n := n) hidx hmod (by omega) (by omega)
    have hlt := Nat.mod_lt (a + d) conf.size_pos
    have hnext : ((a + d) % conf.size + 1) % conf.size = (a + 1 + d) % conf.size := by
      rw [Nat.mod_add_mod, Nat.add_right_comm]
    obtain ⟨st', heq, hs, hi, hav⟩ := ih hshape hkept (Nat.succ_le_of_lt hlt) hnext (by omega)
      (by omega)
    rw [hstep, heq]
    refine ⟨st', rfl, ?_, ?_, by omega⟩
    · rw [← Nat.add_assoc, Nat.add_right_comm]
      exact hs
    · rw [← Nat.add_assoc, Nat.add_right_comm]
      exact hi

/-- The descriptor loop of `descq_flq_alloc_resource` fills the whole ring. -/
theorem Shape.fillDescs {I : ℕ → BufView → Prop} {c2hBufsz : ℕ}
    (hI : FillKeeps conf 0 0 c2hBufsz I) (h : Shape conf 0 a 0 flq heap)
    (hv : I a (bufView flq heap)) {n : ℕ} (hn : a + n ≤ conf.size) :
    ∃ flq' heap', fillDescs c2hBufsz n a flq heap = (0, flq', heap') ∧
      Shape conf 0 (a + n) 0 flq' heap' ∧ I (a + n) (bufView flq' heap') := by
  induction n generalizing a flq heap with
  | zero => exact ⟨flq, heap, rfl, h, hv⟩
  | succ n ih =>
    have hroom := conf.room 0
    rw [Nat.zero_div] at hroom
    obtain ⟨flq₁, heap₁, hfill, hshape, hview⟩ := h.fillOne (by omega) c2hBufsz a
    have hfilled := hI a _ hv h.frontier (by omega)
    have hidx : (a + 0) % conf.size = a := Nat.mod_eq_of_lt (by omega)
    rw [hidx, ← hview] at hfilled
    obtain ⟨flq', heap', heq, hs, hi⟩ := ih hshape hfilled (by omega)
    unfold OnicDriver.C2h.fillDescs
    rw [hfill]
    simp only [lt_irrefl, if_false]
    refine ⟨flq', heap', heq, ?_, ?_⟩
    · rw [← Nat.add_assoc, Nat.add_right_comm]
      exact hs
    · rw [← Nat.add_assoc, Nat.add_right_comm]
      exact hi

end Pages

/-! ## A whole refill -/

section Refill

variable {conf : FlqConf} {c : ℕ} {env : PageEnv}

/-- Between two refills the buffers of a full ring are in use. -/
def Stable (conf : FlqConf) (c : ℕ) (flq : Flq) (heap : PageHeap) : Prop :=
  Shape conf c (c + conf.size) (c / conf.bufsPerPg) flq heap

/-- What a refill of `k` entries leaves in use starts at this buffer. -/
def nextFirst (conf : FlqConf) (c k : ℕ) : ℕ := (giveBack conf.bufsPerPg c (c + conf.size) k).1

/-- A refill cuts as many buffers as it gives back. -/
theorem giveBack_add {nb c n k : ℕ} (hk : k ≤ n) (hfrontier : c ≤ (c + n) / nb * nb) :
    (giveBack nb c (c + n) k).2 + k = (giveBack nb c (c + n) k).1 + n := by
  have hle := Nat.div_mul_le_self (c + n) nb
  unfold giveBack
  split <;> dsimp only <;> omega

/-- `qdma_flq_refill` refills all entries it is asked for. A property of pages and buffers
that its replacements and cuts keep holds afterwards. -/
theorem Stable.refill (henv : env.Succeeds) {st : FlqState} (h : Stable conf c st.flq st.heap)
    {k d idx c2hBufsz : ℕ} (hk : k ≤ conf.size) {J I : ℕ → BufView → Prop}
    (hJ : ReplaceKeeps conf env (nextFirst conf c k) J)
    (hJI : ∀ v, J (nextFirst conf c k / conf.bufsPerPg) v →
      I (giveBack conf.bufsPerPg c (c + conf.size) k).2 v)
    (hI : FillKeeps conf (nextFirst conf c k) d c2hBufsz I)
    (hv : J (c / conf.bufsPerPg) (bufView st.flq st.heap)) (hidx : idx ≤ conf.size)
    (hmod : idx % conf.size =
      ((giveBack conf.bufsPerPg c (c + conf.size) k).2 + d) % conf.size)
    (havail : st.avail + k < 2 ^ 32) :
    ∃ st', qdmaFlqRefill env c2hBufsz true idx k false st = some (k, st') ∧
      Stable conf (nextFirst conf c k) st'.flq st'.heap ∧
      I (nextFirst conf c k + conf.size) (bufView st'.flq st'.heap) ∧
      st'.avail = st.avail + k := by
  have hfuel : k ≤ refillFuel st.flq k := Nat.le_mul_of_pos_right k (Nat.succ_pos _)
  obtain ⟨nr, flq₁, hreturn, hshape₁, hsame⟩ := h.returnBufs hfuel (by omega)
  have hsum := giveBack_add hk h.frontier
  unfold nextFirst at *
  generalize giveBack conf.bufsPerPg c (c + conf.size) k = g at *
  obtain ⟨c', a'⟩ := g
  dsimp only at *
  have hdist : u32 (flq₁.allocIdx - flq₁.recycleIdx) =
      a' / conf.bufsPerPg - c / conf.bufsPerPg := by
    obtain ⟨n, hn, hpages⟩ := conf.numPages_eq
    have hpow : 2 ^ n ≤ 2 ^ 30 := Nat.pow_le_pow_right (by decide) hn
    have hle : c / conf.bufsPerPg ≤ a' / conf.bufsPerPg :=
      le_of_mul_le_mul_right (hshape₁.used.trans hshape₁.frontier) FlqConf.bufsPerPg_pos
    have hfar := Nat.div_le_div_right (c := conf.bufsPerPg) hshape₁.window
    rw [Nat.mul_div_cancel _ FlqConf.bufsPerPg_pos] at hfar
    rw [hshape₁.alloc, hshape₁.recycle, u32_sub hle (by omega)]
  obtain ⟨flq₂, heap₂, hreplace, hshape₂, hv₂⟩ := hshape₁.replacePages henv hJ
    (by rwa [hsame.bufView_eq]) rfl
  have hentry : Shape conf c' a' (c' / conf.bufsPerPg)
      ({ flq := flq₂, heap := heap₂, avail := st.avail } : FlqState).flq heap₂ := hshape₂
  obtain ⟨st', hentries, hshape', hv', hav⟩ :=
    hentry.refillEntries hI (hJI _ hv₂) hidx hmod (by omega) havail
  refine ⟨st', ?_, ?_, ?_, hav⟩
  · unfold qdmaFlqRefill flqRefillPages
    rw [if_neg (by decide), h.recycle, hreturn]
    simp only [Option.map_some, Bool.false_eq_true, if_false]
    rw [hdist, hreplace]
    exact congrArg some hentries
  · unfold Stable
    rw [← hsum]
    exact hshape'
  · rw [← hsum]
    exact hv'

/-- Whatever number of entries it is asked for, `qdma_flq_refill` refills them all. -/
theorem Stable.refill_all (henv : env.Succeeds) {st : FlqState} (h : Stable conf c st.flq st.heap)
    {k idx : ℕ} (c2hBufsz : ℕ) (hk : k ≤ conf.size) (hidx : idx ≤ conf.size)
    (havail : st.avail + k < 2 ^ 32) :
    ∃ st', qdmaFlqRefill env c2hBufsz true idx k false st = some (k, st') ∧
      Stable conf (nextFirst conf c k) st'.flq st'.heap ∧ st'.avail = st.avail + k := by
  generalize hcut : (giveBack conf.bufsPerPg c (c + conf.size) k).2 = a
  have hmod : idx % conf.size = (a + (idx + a * (conf.size - 1))) % conf.size := by
    have hpos := conf.size_pos
    have hlaps : a + (idx + a * (conf.size - 1)) = idx + conf.size * a := by
      obtain ⟨m, hm⟩ : ∃ m, conf.size = m + 1 := ⟨conf.size - 1, by omega⟩
      rw [hm, Nat.add_sub_cancel, Nat.add_mul, Nat.mul_comm a m]
      omega
    rw [hlaps, Nat.add_mul_mod_self_left]
  obtain ⟨st', hrefill, hstable, -, hav⟩ := h.refill henv hk (J := fun _ _ => True)
    (I := fun _ _ => True) (fun _ _ _ _ _ _ _ _ _ => trivial) (fun _ _ => trivial)
    (fun _ _ _ _ _ => trivial) trivial hidx (hcut ▸ hmod) havail
  exact ⟨st', hrefill, hstable, hav⟩

end Refill

end OnicDriver.C2h
