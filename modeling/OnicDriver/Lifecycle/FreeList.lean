import OnicDriver.C2h.FreeListShape
import OnicDriver.Lib.Holdings
import OnicDriver.Queue.Descq

/-!
# The memory of a free list

The functions that obtain and release the memory behind the receive buffers
of a streaming C2H queue: the array of pages, the pages with their mappings
and references, and the array of buffers. Pointers are addresses, the null
pointer is 0, and a bus address is the address of the thing that has it.
-/

namespace OnicDriver.Lifecycle

open Lib Queue
open C2h (PgSdesc getNextPowof2 flqNumPages)

/-- What is obtained for a queue: coherent memory, memory of the kernel heap, a reference to
pages, and the mapping of pages. -/
inductive Thing
  | ring (addr bus len : ℕ)
  | slab (addr : ℕ)
  | page (addr order : ℕ)
  | mapping (bus len : ℕ)
  deriving DecidableEq, Repr

/-- A pointer leads to the thing. -/
def Thing.isAt (p : ℕ) : Thing → Bool
  | .ring addr _ _ => addr == p
  | .slab addr => addr == p
  | .page addr _ => addr == p
  | .mapping _ _ => false

/-- The memory obtained so far. -/
abbrev Memory := Holdings Thing

/-- The allocators, which may refuse any request. -/
abbrev Grant := ℕ → Bool

/-- `kfree`. -/
def kfree (p : ℕ) (mem : Memory) : Memory := if p = 0 then mem else mem.release (.slab p) 1

/-- `struct qdma_flq`, the fields that the memory depends on. What `pg_sdesc` points to are the
`pages`. -/
structure Flq where
  size : ℕ := 0
  descBufSize : ℕ := 0
  numPages : ℕ := 0
  numPgsMask : ℕ := 0
  numBufsPerPg : ℕ := 0
  allocIdx : ℕ := 0
  maxPgOffset : ℕ := 0
  descPgOrder : ℕ := 0
  descPgShift : ℕ := 0
  desc : ℕ := 0
  pgSdesc : ℕ := 0
  pages : List PgSdesc := []
  sdesc : ℕ := 0
  deriving DecidableEq, Repr

/-! ## Pages -/

/-- `flq_fill_page_one`. -/
def flqFillPageOne (grant : Grant) (pgOrder : ℕ) (p : PgSdesc) (mem : Memory) :
    ℤ × PgSdesc × Memory :=
  let (pg, mem) := mem.acquire grant (.page · pgOrder)
  if pg = 0 then (-ENOMEM, p, mem)
  else
    let (mapping, mem) := mem.acquire grant (.mapping · (PAGE_SIZE * 2 ^ pgOrder))
    if mapping = 0 then (-EINVAL, p, mem.release (.page pg pgOrder) 1)
    else (0, { pgBase := pg, pgDmaBaseAddr := mapping, pgOffset := 0 }, mem)

/-- `flq_unmap_page_one`. -/
def flqUnmapPageOne (pgOrder : ℕ) (p : PgSdesc) (mem : Memory) : Memory :=
  if p.pgDmaBaseAddr = 0 then mem
  else mem.release (.mapping p.pgDmaBaseAddr (PAGE_SIZE * 2 ^ pgOrder)) 1

/-- `flq_free_page_one`: a reference for each buffer of the page, and one more. -/
def flqFreePageOne (pgOrder pgShift : ℕ) (p : PgSdesc) (mem : Memory) : Memory :=
  if p.pgBase = 0 then mem
  else
    let pageCount := p.pgOffset / 2 ^ pgShift + 1
    (flqUnmapPageOne pgOrder p mem).release (.page p.pgBase pgOrder) pageCount

/-- The page loop of `descq_flq_alloc_resource`. -/
def fillPages (grant : Grant) (pgOrder : ℕ) : List PgSdesc → Memory → ℤ × List PgSdesc × Memory
  | [], mem => (0, [], mem)
  | p :: ps, mem =>
    match flqFillPageOne grant pgOrder p mem with
    | (rv, p, mem) =>
      if rv < 0 then (rv, p :: ps, mem)
      else
        match fillPages grant pgOrder ps mem with
        | (rv, ps, mem) => (rv, p :: ps, mem)

/-- The loop of `descq_flq_free_page_resource`. -/
def freePages (pgOrder pgShift : ℕ) (ps : List PgSdesc) (mem : Memory) : Memory :=
  ps.foldl (fun mem p => flqFreePageOne pgOrder pgShift p mem) mem

/-- `descq_flq_free_page_resource`, which clears the whole free list. Where there is no array,
the loop skips its first page, and reads the others after the null pointer. -/
def descqFlqFreePageResource (flq : Flq) (mem : Memory) : Flq × Memory :=
  let mem :=
    if flq.pgSdesc = 0 then if 1 < flq.numPages then mem.fault else mem
    else freePages flq.descPgOrder flq.descPgShift flq.pages (mem.use (Thing.isAt flq.pgSdesc))
  ({}, kfree flq.pgSdesc mem)

/-- `descq_flq_free_resource`, which writes to every buffer and descriptor. -/
def descqFlqFreeResource (flq : Flq) (mem : Memory) : Flq × Memory :=
  if flq.sdesc = 0 then (flq, mem)
  else
    let mem :=
      if flq.size = 0 then mem
      else (mem.use (Thing.isAt flq.sdesc)).use (Thing.isAt flq.desc)
    ({ flq with sdesc := 0 }, kfree flq.sdesc mem)

/-! ## Buffers -/

/-- `flq_fill_one`: a buffer is cut from the current page. -/
def flqFillOne (flq : Flq) (mem : Memory) : ℤ × Flq × Memory :=
  let pgIdx := flq.allocIdx &&& flq.numPgsMask
  if pgIdx ≥ flq.numPages then (-EINVAL, flq, mem)
  else
    let mem := mem.use (Thing.isAt flq.pgSdesc)
    let p := flq.pages.getD pgIdx {}
    if p.pgBase = 0 then (-EINVAL, flq, mem)
    else if p.pgOffset + flq.descBufSize > flq.maxPgOffset then (-ENOMEM, flq, mem)
    else
      let mem := (mem.use (Thing.isAt flq.sdesc)).use (Thing.isAt flq.desc)
      let filled := { p with pgOffset := p.pgOffset + flq.descBufSize }
      let allocIdx := if filled.pgOffset + flq.descBufSize > flq.maxPgOffset then
        u32 (flq.allocIdx + 1) else flq.allocIdx
      (0, { flq with pages := flq.pages.set pgIdx filled, allocIdx := allocIdx },
        mem.hold (.page p.pgBase flq.descPgOrder))

/-- The descriptor loop of `descq_flq_alloc_resource`. -/
def fillDescs : ℕ → Flq → Memory → ℤ × Flq × Memory
  | 0, flq, mem => (0, flq, mem)
  | n + 1, flq, mem =>
    match flqFillOne flq mem with
    | (rv, flq, mem) => if rv < 0 then (rv, flq, mem) else fillDescs n flq mem

/-- The part of `descq_flq_alloc_resource` after the pages. The buffers are made a ring, which
needs a last one. -/
def allocBufs (grant : Grant) (flq : Flq) (mem : Memory) : ℤ × Flq × Memory :=
  let (sdesc, mem) := mem.acquire grant .slab
  if sdesc = 0 then (-ENOMEM, descqFlqFreePageResource flq mem)
  else
    let mem := if flq.size = 0 then mem.fault else mem
    match fillDescs flq.size { flq with sdesc := sdesc, allocIdx := 0 } mem with
    | (rv, flq, mem) =>
      if rv < 0 then
        let (flq, mem) := descqFlqFreeResource flq mem
        (rv, descqFlqFreePageResource flq mem)
      else (0, flq, mem)

/-- `descq_flq_alloc_resource`. -/
def descqFlqAllocResource (grant : Grant) (flq : Flq) (mem : Memory) : ℤ × Flq × Memory :=
  let flq := { flq with numBufsPerPg := flq.maxPgOffset / 2 ^ flq.descPgShift }
  if flq.numBufsPerPg = 0 then (-EINVAL, flq, mem)
  else
    let numPages := flqNumPages flq.size flq.numBufsPerPg
    let flq := { flq with numPages := numPages, numPgsMask := numPages - 1 }
    let (pgSdesc, mem) := mem.acquire grant .slab
    if pgSdesc = 0 then (-ENOMEM, flq, mem)
    else
      match fillPages grant flq.descPgOrder (List.replicate numPages {}) mem with
      | (rv, pages, mem) =>
        let flq := { flq with pgSdesc := pgSdesc, pages := pages }
        if rv < 0 then (rv, descqFlqFreePageResource flq mem) else allocBufs grant flq mem

/-! ## What a free list holds -/

/-- What is held for a page: its mapping, a reference for each buffer, and one more. -/
def pageOwned (pgOrder pgShift : ℕ) (p : PgSdesc) : Multiset Thing :=
  if p.pgBase = 0 then 0
  else
    (if p.pgDmaBaseAddr = 0 then 0 else {.mapping p.pgDmaBaseAddr (PAGE_SIZE * 2 ^ pgOrder)}) +
      Multiset.replicate (p.pgOffset / 2 ^ pgShift + 1) (.page p.pgBase pgOrder)

/-- What is held for the pages of a list. -/
def pagesOwned (pgOrder pgShift : ℕ) (ps : List PgSdesc) : Multiset Thing :=
  (ps.map (pageOwned pgOrder pgShift)).sum

/-- What is held behind a pointer into the kernel heap. -/
def slabOwned (p : ℕ) : Multiset Thing := if p = 0 then 0 else {.slab p}

/-- What a free list holds. -/
def Flq.owned (flq : Flq) : Multiset Thing :=
  pagesOwned flq.descPgOrder flq.descPgShift flq.pages + slabOwned flq.pgSdesc +
    slabOwned flq.sdesc

section

variable {grant : Grant} {order shift : ℕ} {r : Multiset Thing} {f : ℕ} {mem : Memory}

@[simp] theorem slabOwned_zero : slabOwned 0 = 0 := rfl

@[simp] theorem slabOwned_succ (a : ℕ) : slabOwned (a + 1) = {.slab (a + 1)} := rfl

@[simp] theorem pagesOwned_nil : pagesOwned order shift [] = 0 := rfl

@[simp] theorem pagesOwned_cons (p : PgSdesc) (ps : List PgSdesc) :
    pagesOwned order shift (p :: ps) = pageOwned order shift p + pagesOwned order shift ps := rfl

/-- Nothing is held for null pages. -/
theorem pagesOwned_of_null {ps : List PgSdesc} (hps : ∀ p ∈ ps, p.pgBase = 0) :
    pagesOwned order shift ps = 0 := by
  induction ps with
  | nil => rfl
  | cons p ps ih =>
    have hp : pageOwned order shift p = 0 := if_pos (hps p List.mem_cons_self)
    rw [pagesOwned_cons, hp, Multiset.zero_add]
    exact ih fun q hq => hps q (List.mem_cons_of_mem _ hq)

/-- One page of a list changes what it holds. -/
theorem pagesOwned_set {ps : List PgSdesc} {i : ℕ} {p' : PgSdesc} {x : Thing}
    (hi : i < ps.length)
    (hp : pageOwned order shift p' = x ::ₘ pageOwned order shift (ps.getD i {})) :
    pagesOwned order shift (ps.set i p') = x ::ₘ pagesOwned order shift ps := by
  induction ps generalizing i with
  | nil => exact absurd hi (Nat.not_lt_zero i)
  | cons p ps ih =>
    cases i with
    | zero =>
      rw [List.set_cons_zero, pagesOwned_cons, pagesOwned_cons, hp, List.getD_cons_zero,
        Multiset.cons_add]
    | succ i =>
      rw [List.set_cons_succ, pagesOwned_cons, pagesOwned_cons,
        ih (Nat.lt_of_succ_lt_succ hi) hp, Multiset.add_cons]

@[simp] theorem Flq.owned_empty : Flq.owned {} = 0 := rfl

theorem Are.kfree {p : ℕ} (h : mem.Are (r + slabOwned p) f) : (kfree p mem).Are r f := by
  unfold Lifecycle.kfree
  cases p with
  | zero => exact h.congr (Multiset.add_zero r)
  | succ a => exact Holdings.Are.release (n := 1) h

/-- Memory of the kernel heap that is held can be used. -/
theorem Are.useSlab {p : ℕ} (h : mem.Are r f) (hp : .slab p ∈ r) :
    (mem.use (Thing.isAt p)).Are r f :=
  Holdings.Are.use (p := Thing.isAt p) h hp (beq_self_eq_true p)

theorem slab_mem_slabOwned {p : ℕ} (hp : p ≠ 0) : .slab p ∈ r + slabOwned p := by
  apply Multiset.mem_add.mpr
  right
  rw [slabOwned, if_neg hp]
  exact Multiset.mem_singleton_self _

/-- A page is held with its mapping, or nothing is. -/
theorem Are.flqFillPageOne (h : mem.Are r f) {p : PgSdesc} (hp : p.pgBase = 0) :
    ∃ rv p' mem', Lifecycle.flqFillPageOne grant order p mem = (rv, p', mem') ∧
      mem'.Are (r + pageOwned order shift p') f := by
  have hnone : pageOwned order shift p = 0 := if_pos hp
  unfold Lifecycle.flqFillPageOne
  rcases h.acquire grant (.page · order) with
    ⟨pg, mem₁, hpage, h₁, -⟩ | ⟨mem₁, hpage, h₁, -⟩
  · rw [hpage]
    dsimp only
    rw [if_neg (Nat.succ_ne_zero pg)]
    rcases h₁.acquire grant (.mapping · (PAGE_SIZE * 2 ^ order)) with
      ⟨bus, mem₂, hmap, h₂, -⟩ | ⟨mem₂, hmap, h₂, -⟩
    · rw [hmap]
      dsimp only
      rw [if_neg (Nat.succ_ne_zero bus)]
      refine ⟨_, _, _, rfl, h₂.congr ?_⟩
      unfold pageOwned
      dsimp only
      rw [if_neg (Nat.succ_ne_zero pg), if_neg (Nat.succ_ne_zero bus), Nat.zero_div,
        Multiset.replicate_one, Multiset.add_comm r, Multiset.add_assoc, Multiset.singleton_add,
        Multiset.singleton_add]
    · rw [hmap]
      dsimp only
      rw [if_pos rfl]
      refine ⟨_, _, _, rfl, h₂.release_one.congr ?_⟩
      rw [hnone, Multiset.add_zero]
  · rw [hpage]
    dsimp only
    rw [if_pos rfl]
    refine ⟨_, _, _, rfl, h₁.congr ?_⟩
    rw [hnone, Multiset.add_zero]

/-- What is held for a page is given up. -/
theorem Are.flqFreePageOne {p : PgSdesc} (h : mem.Are (r + pageOwned order shift p) f) :
    (flqFreePageOne order shift p mem).Are r f := by
  unfold Lifecycle.flqFreePageOne flqUnmapPageOne
  unfold pageOwned at h
  split at h
  · rename_i hnull
    rw [if_pos hnull]
    exact h.congr (Multiset.add_zero r)
  · rename_i hbase
    rw [if_neg hbase]
    apply Holdings.Are.release
    split at h
    · rename_i hdma
      rw [if_pos hdma]
      exact h.congr (by rw [Multiset.zero_add])
    · rename_i hdma
      rw [if_neg hdma]
      apply Holdings.Are.release
      refine h.congr ?_
      rw [Multiset.replicate_one, Multiset.add_assoc,
        Multiset.add_comm (Multiset.replicate _ _) {_}]

/-- The page loop of the allocation. -/
theorem Are.fillPages (h : mem.Are r f) {ps : List PgSdesc} (hps : ∀ p ∈ ps, p.pgBase = 0) :
    ∃ rv ps' mem', fillPages grant order ps mem = (rv, ps', mem') ∧
      mem'.Are (r + pagesOwned order shift ps') f := by
  induction ps generalizing r mem with
  | nil => exact ⟨_, _, _, rfl, h.congr (Multiset.add_zero r).symm⟩
  | cons p ps ih =>
    obtain ⟨rv, p', mem₁, hpage, h₁⟩ : ∃ rv p' mem', Lifecycle.flqFillPageOne grant order p mem =
        (rv, p', mem') ∧ mem'.Are (r + pageOwned order shift p') f :=
      Are.flqFillPageOne h (hps p List.mem_cons_self)
    unfold Lifecycle.fillPages
    rw [hpage]
    dsimp only
    have hrest : pagesOwned order shift ps = 0 :=
      pagesOwned_of_null fun q hq => hps q (List.mem_cons_of_mem _ hq)
    split
    · refine ⟨_, _, _, rfl, h₁.congr ?_⟩
      rw [pagesOwned_cons, hrest, Multiset.add_zero]
    · obtain ⟨rv₂, ps', mem₂, hpages, h₂⟩ :=
        ih h₁ fun q hq => hps q (List.mem_cons_of_mem _ hq)
      rw [hpages]
      refine ⟨_, _, _, rfl, h₂.congr ?_⟩
      rw [pagesOwned_cons, Multiset.add_assoc]

/-- The page loop of the release. -/
theorem Are.freePages {ps : List PgSdesc} (h : mem.Are (r + pagesOwned order shift ps) f) :
    (freePages order shift ps mem).Are r f := by
  induction ps generalizing r mem with
  | nil => exact h.congr (Multiset.add_zero r)
  | cons p ps ih =>
    apply ih
    apply Are.flqFreePageOne
    refine h.congr ?_
    rw [pagesOwned_cons, Multiset.add_assoc, Multiset.add_comm (pageOwned order shift p)]

/-- All pages and their array are given up. -/
theorem Are.descqFlqFreePageResource (flq : Flq)
    (h : mem.Are (r + pagesOwned flq.descPgOrder flq.descPgShift flq.pages +
      slabOwned flq.pgSdesc) f)
    (hnull : flq.pgSdesc = 0 → flq.numPages ≤ 1 ∧ flq.pages = []) :
    ∃ mem', descqFlqFreePageResource flq mem = ({}, mem') ∧ mem'.Are r f := by
  refine ⟨_, rfl, ?_⟩
  apply Are.kfree
  split
  · rename_i hzero
    obtain ⟨hone, hnil⟩ := hnull hzero
    rw [if_neg (Nat.not_lt.mpr hone)]
    rwa [hnil, pagesOwned_nil, Multiset.add_zero] at h
  · rename_i hne
    apply Are.freePages
    refine (Are.useSlab h (slab_mem_slabOwned hne)).congr ?_
    rw [Multiset.add_assoc, Multiset.add_comm (pagesOwned _ _ _), Multiset.add_assoc]

/-- The array of the buffers is given up. -/
theorem Are.descqFlqFreeResource (flq : Flq) (h : mem.Are (r + slabOwned flq.sdesc) f)
    (hdesc : flq.sdesc ≠ 0 → ∃ x ∈ r, x.isAt flq.desc) :
    ∃ mem', descqFlqFreeResource flq mem = ({ flq with sdesc := 0 }, mem') ∧ mem'.Are r f := by
  unfold Lifecycle.descqFlqFreeResource
  split
  · rename_i hzero
    rw [hzero, slabOwned_zero, Multiset.add_zero] at h
    refine ⟨mem, ?_, h⟩
    rw [← hzero]
  · rename_i hne
    refine ⟨_, rfl, ?_⟩
    apply Are.kfree
    split
    · exact h
    · obtain ⟨x, hx, hat⟩ := hdesc hne
      exact (Are.useSlab h (slab_mem_slabOwned hne)).use (Multiset.mem_add.mpr (.inl hx)) hat

/-! ## Buffers that are cut -/

/-- The pointers of a free list lead to something held. -/
structure Flq.Reachable (flq : Flq) (r : Multiset Thing) : Prop where
  pgSdesc : .slab flq.pgSdesc ∈ r
  sdesc : .slab flq.sdesc ∈ r
  desc : ∃ x ∈ r, x.isAt flq.desc

/-- A buffer that is cut holds one more reference to its page. -/
theorem Are.flqFillOne {flq : Flq}
    (h : mem.Are (r + pagesOwned flq.descPgOrder flq.descPgShift flq.pages) f)
    (hr : flq.Reachable r) (hsize : flq.descBufSize = 2 ^ flq.descPgShift) :
    ∃ rv pages allocIdx mem', flqFillOne flq mem =
        (rv, { flq with pages := pages, allocIdx := allocIdx }, mem') ∧
      mem'.Are (r + pagesOwned flq.descPgOrder flq.descPgShift pages) f := by
  obtain ⟨x, hx, hat⟩ := hr.desc
  have h₁ := Are.useSlab h (Multiset.mem_add.mpr (.inl hr.pgSdesc))
  unfold Lifecycle.flqFillOne
  generalize flq.allocIdx &&& flq.numPgsMask = pgIdx
  dsimp only
  split
  · exact ⟨_, flq.pages, flq.allocIdx, _, rfl, h⟩
  · split
    · exact ⟨_, flq.pages, flq.allocIdx, _, rfl, h₁⟩
    · rename_i hbase
      split
      · exact ⟨_, flq.pages, flq.allocIdx, _, rfl, h₁⟩
      · refine ⟨_, _, _, _, rfl, ?_⟩
        have hlt : pgIdx < flq.pages.length := by
          by_contra hge
          apply hbase
          rw [List.getD_eq_getElem?_getD, List.getElem?_eq_none (Nat.not_lt.mp hge)]
          rfl
        have hcut : pageOwned flq.descPgOrder flq.descPgShift
            { flq.pages.getD pgIdx {} with
              pgOffset := (flq.pages.getD pgIdx {}).pgOffset + flq.descBufSize } =
            .page (flq.pages.getD pgIdx {}).pgBase flq.descPgOrder ::ₘ
              pageOwned flq.descPgOrder flq.descPgShift (flq.pages.getD pgIdx {}) := by
          unfold pageOwned
          dsimp only
          rw [if_neg hbase, if_neg hbase, hsize, Nat.add_div_right _ (Nat.two_pow_pos _),
            Multiset.replicate_succ, Multiset.add_cons]
        have h₂ := Are.useSlab h₁ (Multiset.mem_add.mpr (.inl hr.sdesc))
        have h₃ := h₂.use (Multiset.mem_add.mpr (.inl hx)) hat
        refine (h₃.hold _).congr ?_
        rw [pagesOwned_set hlt hcut, Multiset.add_cons]

/-- The descriptor loop of the allocation. -/
theorem Are.fillDescs (n : ℕ) (flq : Flq)
    (h : mem.Are (r + pagesOwned flq.descPgOrder flq.descPgShift flq.pages) f)
    (hr : flq.Reachable r) (hsize : flq.descBufSize = 2 ^ flq.descPgShift) :
    ∃ rv pages allocIdx mem', fillDescs n flq mem =
        (rv, { flq with pages := pages, allocIdx := allocIdx }, mem') ∧
      mem'.Are (r + pagesOwned flq.descPgOrder flq.descPgShift pages) f := by
  induction n generalizing flq mem with
  | zero => exact ⟨0, flq.pages, flq.allocIdx, mem, rfl, h⟩
  | succ n ih =>
    obtain ⟨rv, pages, allocIdx, mem₁, hone, h₁⟩ := Are.flqFillOne h hr hsize
    unfold Lifecycle.fillDescs
    rw [hone]
    dsimp only
    split
    · exact ⟨_, _, _, _, rfl, h₁⟩
    · obtain ⟨rv', pages', allocIdx', mem₂, hrest, h₂⟩ :=
        ih { flq with pages := pages, allocIdx := allocIdx } h₁
          ⟨hr.pgSdesc, hr.sdesc, hr.desc⟩ hsize
      exact ⟨rv', pages', allocIdx', mem₂, hrest, h₂⟩

/-! ## The whole free list -/

/-- A free list can be released: the null pointer is no array of several pages, and the ring that
the buffers were entered in is still there. -/
structure Flq.Releasable (flq : Flq) (r : Multiset Thing) : Prop where
  null : flq.pgSdesc = 0 → flq.numPages ≤ 1 ∧ flq.pages = []
  desc : flq.sdesc ≠ 0 → ∃ x ∈ r, x.isAt flq.desc

theorem Flq.releasable_empty : Flq.Releasable {} r := ⟨fun _ => ⟨Nat.zero_le 1, rfl⟩, absurd rfl⟩

/-- A free list of one buffer has one page. -/
theorem flqNumPages_one {size nb : ℕ} (hsize : 0 < size) (hone : size ≤ 1) (hnb : nb ≠ 0) :
    flqNumPages size nb ≤ 1 := by
  obtain rfl : size = 1 := by omega
  rcases (by omega : nb = 1 ∨ 1 < nb) with rfl | hlt
  · decide
  · unfold flqNumPages
    rw [Nat.div_eq_of_lt hlt, Nat.mod_eq_of_lt hlt]
    decide

theorem Are.allocBufs (flq : Flq) {q : Multiset Thing} (hq : q ≤ r)
    (h : mem.Are (r + pagesOwned flq.descPgOrder flq.descPgShift flq.pages +
      slabOwned flq.pgSdesc) f)
    (hpg : flq.pgSdesc ≠ 0) (hdesc : ∃ x ∈ q, x.isAt flq.desc) (hsize : flq.size ≠ 0)
    (hbuf : flq.descBufSize = 2 ^ flq.descPgShift) :
    ∃ rv flq' mem', allocBufs grant flq mem = (rv, flq', mem') ∧
      mem'.Are (r + flq'.owned) f ∧ flq'.Releasable q := by
  have hdesc' : ∃ x ∈ r, x.isAt flq.desc := by
    obtain ⟨x, hx, hat⟩ := hdesc
    exact ⟨x, Multiset.mem_of_le hq hx, hat⟩
  have hnull : flq.pgSdesc = 0 → flq.numPages ≤ 1 ∧ flq.pages = [] := fun hzero =>
    absurd hzero hpg
  unfold Lifecycle.allocBufs
  rcases h.acquire grant .slab with ⟨sdesc, mem₁, hslab, h₁, -⟩ | ⟨mem₁, hslab, h₁, -⟩
  · rw [hslab]
    dsimp only
    rw [if_neg (Nat.succ_ne_zero sdesc), if_neg hsize]
    have hr : Flq.Reachable { flq with sdesc := sdesc + 1, allocIdx := 0 }
        (r + slabOwned flq.pgSdesc + slabOwned (sdesc + 1)) := by
      obtain ⟨x, hx, hat⟩ := hdesc'
      refine ⟨?_, slab_mem_slabOwned (Nat.succ_ne_zero sdesc), x, ?_, hat⟩
      · exact Multiset.mem_add.mpr (.inl (slab_mem_slabOwned hpg))
      · exact Multiset.mem_add.mpr (.inl (Multiset.mem_add.mpr (.inl hx)))
    have h₂ : mem₁.Are (r + slabOwned flq.pgSdesc + slabOwned (sdesc + 1) +
        pagesOwned flq.descPgOrder flq.descPgShift flq.pages) f := by
      refine h₁.congr ?_
      rw [slabOwned_succ, ← Multiset.singleton_add]
      ac_rfl
    obtain ⟨rv, pages, allocIdx, mem₂, hfill, h₃⟩ := Are.fillDescs flq.size
      { flq with sdesc := sdesc + 1, allocIdx := 0 } h₂ hr hbuf
    rw [hfill]
    dsimp only
    split
    · have h₄ : mem₂.Are (r + slabOwned flq.pgSdesc +
          pagesOwned flq.descPgOrder flq.descPgShift pages + slabOwned (sdesc + 1)) f := by
        refine h₃.congr ?_
        ac_rfl
      obtain ⟨mem₃, hfree, h₅⟩ := Are.descqFlqFreeResource
        { flq with sdesc := sdesc + 1, pages := pages, allocIdx := allocIdx } h₄ (by
          intro _
          obtain ⟨x, hx, hat⟩ := hdesc'
          exact ⟨x, Multiset.mem_add.mpr (.inl (Multiset.mem_add.mpr (.inl hx))), hat⟩)
      rw [hfree]
      have h₆ : mem₃.Are (r + pagesOwned flq.descPgOrder flq.descPgShift pages +
          slabOwned flq.pgSdesc) f := by
        refine h₅.congr ?_
        ac_rfl
      obtain ⟨mem₄, hpages, h₇⟩ := Are.descqFlqFreePageResource
        { flq with sdesc := 0, pages := pages, allocIdx := allocIdx } h₆
        fun hzero => absurd hzero hpg
      dsimp only
      rw [hpages]
      exact ⟨_, _, _, rfl, h₇.congr (Multiset.add_zero r).symm, Flq.releasable_empty⟩
    · refine ⟨_, _, _, rfl, h₃.congr ?_, fun hzero => absurd hzero hpg, fun _ => hdesc⟩
      unfold Flq.owned
      ac_rfl
  · rw [hslab]
    dsimp only
    rw [if_pos rfl]
    obtain ⟨mem₂, hpages, h₂⟩ := Are.descqFlqFreePageResource flq h₁ hnull
    rw [hpages]
    exact ⟨_, _, _, rfl, h₂.congr (Multiset.add_zero r).symm, Flq.releasable_empty⟩

/-- What the allocation of a free list leaves is held by the list. The array of the pages must
not be refused, unless there is but one. -/
theorem Are.descqFlqAllocResource {flq : Flq} {q : Multiset Thing} (hq : q ≤ r)
    (h : mem.Are r f) (hempty : flq.owned = 0)
    (hnone : flq.pgSdesc = 0 ∧ flq.pages = [] ∧ flq.sdesc = 0 ∧ flq.numPages = 0)
    (hdesc : ∃ x ∈ q, x.isAt flq.desc) (hsize : flq.size ≠ 0)
    (hbuf : flq.descBufSize = 2 ^ flq.descPgShift)
    (hgrant : grant mem.calls = false → flq.size ≤ 1) :
    ∃ rv flq' mem', descqFlqAllocResource grant flq mem = (rv, flq', mem') ∧
      mem'.Are (r + flq'.owned) f ∧ flq'.Releasable q := by
  obtain ⟨hpg, hpages, hsdesc, hnum⟩ := hnone
  unfold Lifecycle.descqFlqAllocResource
  dsimp only
  split
  · refine ⟨_, _, _, rfl, h.congr ?_, ?_, absurd hsdesc⟩
    · exact (Multiset.add_zero r).symm.trans (congrArg (r + ·) hempty.symm)
    · exact fun _ => ⟨hnum.trans_le (Nat.zero_le 1), hpages⟩
  · rename_i hbufs
    rcases h.acquire grant .slab with ⟨pg, mem₁, hslab, h₁, -⟩ | ⟨mem₁, hslab, h₁, hrefused⟩
    · rw [hslab]
      dsimp only
      rw [if_neg (Nat.succ_ne_zero pg)]
      obtain ⟨rv, pages, mem₂, hfill, h₂⟩ : ∃ rv pages mem',
          Lifecycle.fillPages grant flq.descPgOrder
          (List.replicate (flqNumPages flq.size (flq.maxPgOffset / 2 ^ flq.descPgShift)) {})
            mem₁ = (rv, pages, mem') ∧
          mem'.Are (.slab (pg + 1) ::ₘ r + pagesOwned flq.descPgOrder flq.descPgShift pages) f :=
        Are.fillPages h₁ fun p hp => (List.eq_of_mem_replicate hp) ▸ rfl
      rw [hfill]
      dsimp only
      have h₃ : mem₂.Are (r + pagesOwned flq.descPgOrder flq.descPgShift pages +
          slabOwned (pg + 1)) f := by
        refine h₂.congr ?_
        rw [slabOwned_succ, ← Multiset.singleton_add]
        ac_rfl
      split
      · obtain ⟨mem₃, hfree, h₄⟩ := Are.descqFlqFreePageResource
          { flq with
            numBufsPerPg := flq.maxPgOffset / 2 ^ flq.descPgShift
            numPages := flqNumPages flq.size (flq.maxPgOffset / 2 ^ flq.descPgShift)
            numPgsMask := flqNumPages flq.size (flq.maxPgOffset / 2 ^ flq.descPgShift) - 1
            pgSdesc := pg + 1, pages := pages } h₃ (absurd · (Nat.succ_ne_zero pg))
        rw [hfree]
        exact ⟨_, _, _, rfl, h₄.congr (Multiset.add_zero r).symm, Flq.releasable_empty⟩
      · exact Are.allocBufs
          { flq with
            numBufsPerPg := flq.maxPgOffset / 2 ^ flq.descPgShift
            numPages := flqNumPages flq.size (flq.maxPgOffset / 2 ^ flq.descPgShift)
            numPgsMask := flqNumPages flq.size (flq.maxPgOffset / 2 ^ flq.descPgShift) - 1
            pgSdesc := pg + 1, pages := pages } hq h₃ (Nat.succ_ne_zero pg) hdesc hsize hbuf
    · rw [hslab]
      dsimp only
      rw [if_pos rfl]
      refine ⟨_, _, _, rfl, h₁.congr ?_, ?_, absurd hsdesc⟩
      · exact (Multiset.add_zero r).symm.trans (congrArg (r + ·) hempty.symm)
      · exact fun _ => ⟨flqNumPages_one (Nat.pos_of_ne_zero hsize) (hgrant hrefused) hbufs, hpages⟩

end

end OnicDriver.Lifecycle
