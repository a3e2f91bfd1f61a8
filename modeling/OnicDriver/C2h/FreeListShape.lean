import OnicDriver.C2h.FreeList
import OnicDriver.Queue.Ring
import Mathlib.Data.Set.Finite.Basic
import Mathlib.Data.Int.ModEq
import Mathlib.Tactic.Ring

/-!
# Page offsets and frontiers of the free list

The buffers of a free list are numbered in the order in which they are cut.
Those in use are `c, …, a - 1`; buffer `b` lies in page number `b / nb` of the
sequence of pages, which occupies slot `b / nb % P`. This file shows that the
offsets and the two page indices of the code follow `c` and `a`, whatever the
number of buffers refilled at a time.
-/

namespace OnicDriver.C2h

open Lib

/-! ## Configurations -/

/-- `get_next_powof2` rounds up to a power of two. -/
theorem getNextPowof2_spec {v : ℕ} (hv : 0 < v) :
    ∃ n, getNextPowof2 v = 2 ^ n ∧ v ≤ 2 ^ n ∧ 2 ^ n < 2 * v := by
  have hle : 2 ^ v.log2 ≤ v := Nat.log2_self_le hv.ne'
  have hlt : v < 2 ^ (v.log2 + 1) := Nat.lt_log2_self
  have hpos : 0 < 2 ^ v.log2 := Nat.two_pow_pos _
  unfold getNextPowof2
  dsimp only
  generalize hk : v.log2 = k at *
  rw [pow_succ] at hlt
  by_cases heq : v = 2 ^ k
  · have hdiv : (v + (2 ^ k - 1)) / 2 ^ k = 1 := by
      rw [Nat.div_eq_iff hpos]
      omega
    exact ⟨k, by rw [hdiv, one_mul], heq.le, by omega⟩
  · have hdiv : (v + (2 ^ k - 1)) / 2 ^ k = 2 := by
      rw [Nat.div_eq_iff hpos]
      omega
    refine ⟨k + 1, by rw [hdiv, pow_succ, mul_comm], by rw [pow_succ]; omega, ?_⟩
    rw [pow_succ]
    omega

/-- The number of pages is a power of two, and enough for the buffers of a full ring
wherever in a page the first of them starts. -/
theorem flqNumPages_spec {size nb : ℕ} (hsize : 0 < size) (hnb : 0 < nb) :
    ∃ n, flqNumPages size nb = 2 ^ n ∧ size ≤ nb * (2 ^ n - 1) + 1 ∧ 2 ^ n < 2 * size := by
  obtain ⟨v, hv⟩ : ∃ v, size / nb + (if size % nb = 0 then 0 else 1) = v := ⟨_, rfl⟩
  have hdiv := Nat.div_add_mod size nb
  have hmod := Nat.mod_lt size hnb
  have hceil : size ≤ nb * v ∧ 0 < v ∧ v ≤ size := by
    have hself : size / nb ≤ size := Nat.div_le_self _ _
    by_cases hzero : size % nb = 0
    · rw [if_pos hzero, add_zero] at hv
      rw [hzero, add_zero, hv] at hdiv
      refine ⟨hdiv.ge, ?_, by omega⟩
      rcases Nat.eq_zero_or_pos v with rfl | hpos
      · omega
      · exact hpos
    · rw [if_neg hzero] at hv
      have hlt : size / nb < size := by
        by_cases hone : nb = 1
        · subst hone
          omega
        · exact Nat.div_lt_self hsize (by omega)
      refine ⟨?_, hv ▸ Nat.succ_pos _, hv ▸ hlt⟩
      rw [← hv, mul_add, mul_one]
      omega
  obtain ⟨hle, hpos, hvle⟩ := hceil
  obtain ⟨n, hn, hvn, hlt⟩ := getNextPowof2_spec hpos
  unfold flqNumPages
  dsimp only
  rw [hv, hn]
  have hmono : nb * v ≤ nb * 2 ^ n := Nat.mul_le_mul_left nb hvn
  have hone : 1 ≤ 2 ^ n := Nat.one_le_two_pow
  split
  · refine ⟨n + 1, by rw [pow_succ], ?_, by rw [pow_succ]; omega⟩
    have hroom : nb * 2 ^ n ≤ nb * (2 ^ (n + 1) - 1) := by
      refine Nat.mul_le_mul_left nb ?_
      rw [pow_succ]
      omega
    omega
  · refine ⟨n, rfl, ?_, by omega⟩
    have hroom : 2 ^ n - 1 ≤ nb * (2 ^ n - 1) := Nat.le_mul_of_pos_left _ hnb
    omega

/-- The sizes of a free list: the ring size, and the sizes of a buffer and of a page as
powers of two. -/
structure FlqConf where
  size : ℕ
  shift : ℕ
  pgBits : ℕ
  size_pos : 0 < size
  size_lt : size < 2 ^ 30
  shift_le : shift ≤ pgBits
  pgBits_lt : pgBits < 31

namespace FlqConf

variable (conf : FlqConf)

/-- The size of a buffer. -/
def bufSize : ℕ := 2 ^ conf.shift

/-- The number of buffers of a page. -/
def bufsPerPg : ℕ := 2 ^ (conf.pgBits - conf.shift)

/-- The number of page slots. -/
def numPages : ℕ := flqNumPages conf.size conf.bufsPerPg

/-- The free list as `qdma_descq_alloc_resource` sets it up. -/
def flq : Flq :=
  { size := conf.size, descBufSize := conf.bufSize, descPgShift := conf.shift
    maxPgOffset := 2 ^ conf.pgBits }

variable {conf}

theorem bufSize_pos : 0 < conf.bufSize := Nat.two_pow_pos _

theorem bufsPerPg_pos : 0 < conf.bufsPerPg := Nat.two_pow_pos _

/-- The buffers fill a page. -/
theorem bufSize_mul_bufsPerPg : conf.bufSize * conf.bufsPerPg = 2 ^ conf.pgBits := by
  unfold bufSize bufsPerPg
  rw [← pow_add, Nat.add_sub_cancel' conf.shift_le]

/-- The number of pages is a power of two that divides the range of a 32-bit index. -/
theorem numPages_eq : ∃ n, n ≤ 30 ∧ conf.numPages = 2 ^ n := by
  obtain ⟨n, hn, -, hlt⟩ := flqNumPages_spec conf.size_pos (bufsPerPg_pos : 0 < conf.bufsPerPg)
  have hsize := conf.size_lt
  have hbound : 2 ^ n < 2 ^ 31 := by omega
  have hn31 : n < 31 := (Nat.pow_lt_pow_iff_right (by decide)).mp hbound
  exact ⟨n, by omega, hn⟩

theorem numPages_pos : 0 < conf.numPages := by
  obtain ⟨n, -, hn⟩ := conf.numPages_eq
  rw [hn]
  exact Nat.two_pow_pos n

/-- The pages suffice for the buffers of a full ring. -/
theorem div_lt_add_numPages {c a : ℕ} (h : a < c + conf.size) :
    a / conf.bufsPerPg < c / conf.bufsPerPg + conf.numPages := by
  obtain ⟨n, hn, hroom, -⟩ := flqNumPages_spec conf.size_pos (bufsPerPg_pos : 0 < conf.bufsPerPg)
  rw [numPages, hn]
  have hone : 1 ≤ 2 ^ n := Nat.one_le_two_pow
  have hle : a ≤ c + conf.bufsPerPg * (2 ^ n - 1) := by omega
  have hdiv := Nat.div_le_div_right (c := conf.bufsPerPg) hle
  rw [Nat.add_mul_div_left _ _ bufsPerPg_pos] at hdiv
  omega

end FlqConf

/-! ## The shape of a free list -/

/-- The number of buffers among `c, …, a - 1` that lie in page `q`. -/
def inPage (nb c a q : ℕ) : ℕ := min a ((q + 1) * nb) - max c (q * nb)

/-- The fields of a free list that the configuration fixes. -/
structure Fits (conf : FlqConf) (flq : Flq) : Prop where
  size : flq.size = conf.size
  bufSize : flq.descBufSize = conf.bufSize
  shift : flq.descPgShift = conf.shift
  maxPg : flq.maxPgOffset = 2 ^ conf.pgBits
  numPages : flq.numPages = conf.numPages
  mask : flq.numPgsMask = conf.numPages - 1

/-- The buffers in use are `c, …, a - 1`, and the pages before page `r` were replaced.
The slots hold the pages `r, …, r + P - 1`. -/
structure Shape (conf : FlqConf) (c a r : ℕ) (flq : Flq) (heap : PageHeap) : Prop where
  fits : Fits conf flq
  alloc : flq.allocIdx = a / conf.bufsPerPg % 2 ^ 32
  recycle : flq.recycleIdx = r % 2 ^ 32
  used : r * conf.bufsPerPg ≤ c
  frontier : c ≤ a / conf.bufsPerPg * conf.bufsPerPg
  window : a ≤ (r + conf.numPages) * conf.bufsPerPg
  offset : ∀ q, r ≤ q → q < r + conf.numPages →
    (flq.pgSdesc (q % conf.numPages)).pgOffset = conf.bufSize * inPage conf.bufsPerPg c a q
  pages : ∀ slot < conf.numPages, (flq.pgSdesc slot).pgBase ≠ 0
  finite : {p | heap.refs p ≠ 0}.Finite

/-- Masking a wrapped page index gives the slot of the page. -/
theorem FlqConf.land_mask (conf : FlqConf) (q : ℕ) :
    q % 2 ^ 32 &&& (conf.numPages - 1) = q % conf.numPages := by
  obtain ⟨n, hn, hpages⟩ := conf.numPages_eq
  rw [hpages, Nat.and_two_pow_sub_one_eq_mod, Nat.mod_mod_of_dvd _ (Nat.pow_dvd_pow 2 (by omega))]

/-- Stepping a wrapped page index. -/
theorem u32_succ (q : ℕ) : u32 ((q % 2 ^ 32 : ℕ) + 1) = (q + 1) % 2 ^ 32 := by
  unfold u32
  omega

/-- The distance of two wrapped page indices. -/
theorem u32_sub {p q : ℕ} (hle : q ≤ p) (hlt : p - q < 2 ^ 32) :
    u32 ((p % 2 ^ 32 : ℕ) - (q % 2 ^ 32 : ℕ)) = p - q := by
  unfold u32
  omega

/-- The end of a page is not beyond a later one. -/
theorem succ_mul_le (nb : ℕ) {p q : ℕ} (h : p < q) : (p + 1) * nb ≤ q * nb :=
  Nat.mul_le_mul_right nb h

section Shape

variable {conf : FlqConf} {c a r : ℕ} {flq : Flq} {heap : PageHeap}

theorem Shape.page_lt (h : Shape conf c a r flq heap) {q : ℕ} (hq : q * conf.bufsPerPg < a) :
    q < r + conf.numPages :=
  lt_of_mul_lt_mul_right (hq.trans_le h.window) (Nat.zero_le _)

/-- Changing the offset of one page. -/
theorem Shape.offset_update (h : Shape conf c a r flq heap) {c' a' q : ℕ} {x : PgSdesc}
    (hq : r ≤ q) (hqn : q < r + conf.numPages)
    (hx : x.pgOffset = conf.bufSize * inPage conf.bufsPerPg c' a' q)
    (hother : ∀ p, p ≠ q → inPage conf.bufsPerPg c' a' p = inPage conf.bufsPerPg c a p) :
    ∀ p, r ≤ p → p < r + conf.numPages →
      ((flq.setPgSdesc (q % conf.numPages) x).pgSdesc (p % conf.numPages)).pgOffset =
        conf.bufSize * inPage conf.bufsPerPg c' a' p := by
  intro p hp hpn
  by_cases heq : p = q
  · subst heq
    simpa [Flq.setPgSdesc] using hx
  · have hslot : p % conf.numPages ≠ q % conf.numPages :=
      fun hmod => heq (eq_of_mod_eq hp hpn hq hqn hmod)
    rw [hother p heq, ← h.offset p hp hpn]
    simp [Flq.setPgSdesc, Function.update_of_ne hslot]

/-- Writing a page offset back, for buffers in use from `c'` to `a'` that lie in the same
pages up to the frontier. -/
theorem Shape.setOffset (h : Shape conf c a r flq heap) {c' a' q n : ℕ} (hq : r ≤ q)
    (hqn : q < r + conf.numPages) (hused : r * conf.bufsPerPg ≤ c')
    (hfrontier : c' ≤ a' / conf.bufsPerPg * conf.bufsPerPg)
    (hdiv : a' / conf.bufsPerPg = a / conf.bufsPerPg) (ha : a' ≤ a)
    (hx : n = conf.bufSize * inPage conf.bufsPerPg c' a' q)
    (hother : ∀ p, p ≠ q → inPage conf.bufsPerPg c' a' p = inPage conf.bufsPerPg c a p) :
    Shape conf c' a' r (flq.setPgSdesc (q % conf.numPages)
      { flq.pgSdesc (q % conf.numPages) with pgOffset := n }) heap := by
  refine ⟨⟨h.fits.1, h.fits.2, h.fits.3, h.fits.4, h.fits.5, h.fits.6⟩, ?_, h.recycle, hused,
    hfrontier, ha.trans h.window, h.offset_update hq hqn hx hother, ?_, h.finite⟩
  · rw [hdiv]
    exact h.alloc
  · intro slot hslot
    by_cases heq : slot = q % conf.numPages
    · subst heq
      simpa [Flq.setPgSdesc] using h.pages _ hslot
    · simpa [Flq.setPgSdesc, Function.update_of_ne heq] using h.pages slot hslot

/-- What returning `k` buffers leaves in use. Beyond the frontier, the page that buffers
are cut from, it takes back the buffers cut last and not the oldest ones. -/
def giveBack (nb c a k : ℕ) : ℕ × ℕ :=
  if c + k ≤ a / nb * nb then (c + k, a) else (a / nb * nb, a - (k - (a / nb * nb - c)))

/-- Two free lists that differ in page offsets only. -/
def SamePages (flq flq' : Flq) : Prop :=
  ∃ f, flq' = { flq with pgSdesc := f } ∧ ∀ slot, (f slot).pgBase = (flq.pgSdesc slot).pgBase ∧
    (f slot).pgDmaBaseAddr = (flq.pgSdesc slot).pgDmaBaseAddr

theorem SamePages.refl (flq : Flq) : SamePages flq flq := ⟨flq.pgSdesc, rfl, fun _ => ⟨rfl, rfl⟩⟩

theorem SamePages.trans {flq₁ flq₂ flq₃ : Flq} (h₁ : SamePages flq₁ flq₂)
    (h₂ : SamePages flq₂ flq₃) : SamePages flq₁ flq₃ := by
  obtain ⟨f, rfl, hf⟩ := h₁
  obtain ⟨g, rfl, hg⟩ := h₂
  exact ⟨g, rfl, fun slot => ⟨(hg slot).1.trans (hf slot).1, (hg slot).2.trans (hf slot).2⟩⟩

theorem SamePages.setOffset (flq : Flq) (slot n : ℕ) :
    SamePages flq (flq.setPgSdesc slot { flq.pgSdesc slot with pgOffset := n }) := by
  refine ⟨_, rfl, fun s => ?_⟩
  by_cases heq : s = slot
  · subst heq
    simp
  · simp [Function.update_of_ne heq]

theorem returnBufs_zero (passedOn recycle : Bool) (fuel nr : ℕ) (flq : Flq) (heap : PageHeap) :
    returnBufs passedOn recycle fuel 0 nr flq heap = some (nr, flq, heap) := by
  cases fuel <;> simp [returnBufs]

/-- One round of the first loop of `flq_refill_pages`, at the page that buffer `c` lies in. -/
theorem Shape.returnBufs_round (h : Shape conf c a r flq heap) (fuel : ℕ) {left : ℕ}
    (hleft : 0 < left) (hq : c / conf.bufsPerPg < r + conf.numPages) :
    ∃ nr, returnBufs true false (fuel + 1) left (c / conf.bufsPerPg % 2 ^ 32) flq heap =
        returnBufs true false fuel
          (left - min (inPage conf.bufsPerPg c a (c / conf.bufsPerPg)) left) nr
          (flq.setPgSdesc (c / conf.bufsPerPg % conf.numPages)
            { flq.pgSdesc (c / conf.bufsPerPg % conf.numPages) with
              pgOffset := conf.bufSize * (inPage conf.bufsPerPg c a (c / conf.bufsPerPg) -
                min (inPage conf.bufsPerPg c a (c / conf.bufsPerPg)) left) }) heap ∧
      (inPage conf.bufsPerPg c a (c / conf.bufsPerPg) ≤ left →
        nr = (c / conf.bufsPerPg + 1) % 2 ^ 32) := by
  have hr : r ≤ c / conf.bufsPerPg := (Nat.le_div_iff_mul_le FlqConf.bufsPerPg_pos).mpr h.used
  have hoffset := h.offset _ hr hq
  generalize c / conf.bufsPerPg = q at *
  generalize hx : inPage conf.bufsPerPg c a q = x at *
  have hslot : q % 2 ^ 32 &&& flq.numPgsMask = q % conf.numPages := by
    rw [h.fits.mask, conf.land_mask]
  have hfree : (flq.pgSdesc (q % conf.numPages)).pgOffset / 2 ^ flq.descPgShift = x := by
    rw [hoffset, h.fits.shift]
    exact Nat.mul_div_cancel_left x (Nat.two_pow_pos _)
  have hrest : (flq.pgSdesc (q % conf.numPages)).pgOffset - min x left * flq.descBufSize =
      conf.bufSize * (x - min x left) := by
    rw [hoffset, h.fits.bufSize, Nat.mul_comm (min x left), ← Nat.mul_sub]
  refine ⟨if conf.bufSize * (x - min x left) = 0 then u32 ((q % 2 ^ 32 : ℕ) + 1) else q % 2 ^ 32,
    ?_, ?_⟩
  · conv_lhs => unfold returnBufs
    rw [if_neg (Nat.pos_iff_ne_zero.mp hleft)]
    simp only [hslot, hfree, hrest, Bool.true_eq_false, and_false, if_false]
  · intro hle
    rw [min_eq_left hle, Nat.sub_self, mul_zero, if_pos rfl, u32_succ]

/-- Returning buffers from a page before the frontier. -/
theorem Shape.returnBufs_behind (h : Shape conf c a r flq heap) {m : ℕ}
    (hc : c < a / conf.bufsPerPg * conf.bufsPerPg)
    (hm : m ≤ inPage conf.bufsPerPg c a (c / conf.bufsPerPg)) :
    0 < inPage conf.bufsPerPg c a (c / conf.bufsPerPg) ∧
      c + m ≤ a / conf.bufsPerPg * conf.bufsPerPg ∧
      (m = inPage conf.bufsPerPg c a (c / conf.bufsPerPg) →
        (c + m) / conf.bufsPerPg = c / conf.bufsPerPg + 1) ∧
      Shape conf (c + m) a r (flq.setPgSdesc (c / conf.bufsPerPg % conf.numPages)
        { flq.pgSdesc (c / conf.bufsPerPg % conf.numPages) with
          pgOffset := conf.bufSize * (inPage conf.bufsPerPg c a (c / conf.bufsPerPg) - m) })
        heap := by
  have hnb : 0 < conf.bufsPerPg := FlqConf.bufsPerPg_pos
  have hcle := Nat.div_mul_le_self c conf.bufsPerPg
  have hclt : c < c / conf.bufsPerPg * conf.bufsPerPg + conf.bufsPerPg := Nat.lt_div_mul_add hnb
  have hale := Nat.div_mul_le_self a conf.bufsPerPg
  have hr : r ≤ c / conf.bufsPerPg := (Nat.le_div_iff_mul_le hnb).mpr h.used
  have hqn : c / conf.bufsPerPg < r + conf.numPages := h.page_lt (by omega)
  generalize hq : c / conf.bufsPerPg = q at *
  generalize hA : a / conf.bufsPerPg = A at *
  have hqA : (q + 1) * conf.bufsPerPg ≤ A * conf.bufsPerPg :=
    succ_mul_le _ (lt_of_mul_lt_mul_right (hcle.trans_lt hc) (Nat.zero_le _))
  have hpage : inPage conf.bufsPerPg c a q = (q + 1) * conf.bufsPerPg - c := by
    unfold inPage
    omega
  have hsucc : (q + 1) * conf.bufsPerPg = q * conf.bufsPerPg + conf.bufsPerPg := by
    rw [add_mul, one_mul]
  rw [hpage] at hm ⊢
  refine ⟨by omega, by omega, fun heq => ?_, ?_⟩
  · have hend : c + m = (q + 1) * conf.bufsPerPg := by omega
    rw [hend, Nat.mul_div_cancel _ hnb]
  · have hused := h.used
    refine h.setOffset hr hqn (by omega) (by rw [hA]; omega) rfl le_rfl ?_ ?_
    · congr 1
      unfold inPage
      omega
    · intro p hp
      unfold inPage
      rcases lt_or_gt_of_ne hp with hlt | hgt
      · have := succ_mul_le conf.bufsPerPg hlt
        omega
      · have := succ_mul_le conf.bufsPerPg hgt
        omega

/-- Returning buffers from the page at the frontier. -/
theorem Shape.returnBufs_frontier (h : Shape conf c a r flq heap) {m : ℕ}
    (hc : c = a / conf.bufsPerPg * conf.bufsPerPg) (hpos : 0 < m) (hm : m ≤ a - c) :
    inPage conf.bufsPerPg c a (c / conf.bufsPerPg) = a - c ∧
      (a - m) / conf.bufsPerPg = a / conf.bufsPerPg ∧
      c / conf.bufsPerPg < r + conf.numPages ∧
      Shape conf c (a - m) r (flq.setPgSdesc (c / conf.bufsPerPg % conf.numPages)
        { flq.pgSdesc (c / conf.bufsPerPg % conf.numPages) with
          pgOffset := conf.bufSize * (a - c - m) }) heap := by
  have hnb : 0 < conf.bufsPerPg := FlqConf.bufsPerPg_pos
  have halt : a < a / conf.bufsPerPg * conf.bufsPerPg + conf.bufsPerPg := Nat.lt_div_mul_add hnb
  have hq : c / conf.bufsPerPg = a / conf.bufsPerPg := by
    rw [hc, Nat.mul_div_cancel _ hnb]
  have hr : r ≤ c / conf.bufsPerPg := (Nat.le_div_iff_mul_le hnb).mpr h.used
  have hqn : c / conf.bufsPerPg < r + conf.numPages := h.page_lt (by rw [hq, ← hc]; omega)
  have hdiv : (a - m) / conf.bufsPerPg = a / conf.bufsPerPg :=
    Nat.div_eq_of_lt_le (by omega) (by rw [add_mul, one_mul]; omega)
  rw [hq] at hr hqn ⊢
  generalize hA : a / conf.bufsPerPg = A at *
  have hsucc : (A + 1) * conf.bufsPerPg = A * conf.bufsPerPg + conf.bufsPerPg := by
    rw [add_mul, one_mul]
  refine ⟨by unfold inPage; omega, hdiv, hqn, ?_⟩
  refine h.setOffset hr hqn h.used (by rw [hdiv]; omega) (hdiv.trans hA.symm) (Nat.sub_le _ _) ?_ ?_
  · congr 1
    unfold inPage
    omega
  · intro p hp
    unfold inPage
    rcases lt_or_gt_of_ne hp with hlt | hgt
    · have := succ_mul_le conf.bufsPerPg hlt
      omega
    · have := succ_mul_le conf.bufsPerPg hgt
      omega

/-- The first loop of `flq_refill_pages` ends, and returns buffers as `giveBack` says. -/
theorem Shape.returnBufs (h : Shape conf c a r flq heap) {fuel left : ℕ} (hfuel : left ≤ fuel)
    (hleft : left ≤ a - c) :
    ∃ nr flq', returnBufs true false fuel left (c / conf.bufsPerPg % 2 ^ 32) flq heap =
        some (nr, flq', heap) ∧
      Shape conf (giveBack conf.bufsPerPg c a left).1 (giveBack conf.bufsPerPg c a left).2 r flq'
        heap ∧
      SamePages flq flq' := by
  induction fuel generalizing left c flq with
  | zero =>
    obtain rfl : left = 0 := by omega
    have hsame : giveBack conf.bufsPerPg c a 0 = (c, a) := by simp [giveBack, h.frontier]
    rw [hsame]
    exact ⟨_, flq, returnBufs_zero .., h, SamePages.refl flq⟩
  | succ fuel ih =>
    rcases Nat.eq_zero_or_pos left with rfl | hpos
    · have hsame : giveBack conf.bufsPerPg c a 0 = (c, a) := by simp [giveBack, h.frontier]
      rw [hsame]
      exact ⟨_, flq, returnBufs_zero .., h, SamePages.refl flq⟩
    · have hfrontier := h.frontier
      by_cases hc : c < a / conf.bufsPerPg * conf.bufsPerPg
      · obtain ⟨hpage, hle, hdiv, hshape⟩ := h.returnBufs_behind hc (min_le_left _ left)
        have hqn : c / conf.bufsPerPg < r + conf.numPages := by
          have := Nat.div_mul_le_self c conf.bufsPerPg
          have := Nat.div_mul_le_self a conf.bufsPerPg
          exact h.page_lt (by omega)
        obtain ⟨nr, hround, hnr⟩ := h.returnBufs_round fuel hpos hqn
        rw [hround]
        generalize inPage conf.bufsPerPg c a (c / conf.bufsPerPg) = x at *
        have hgive : giveBack conf.bufsPerPg (c + min x left) a (left - min x left) =
            giveBack conf.bufsPerPg c a left := by
          unfold giveBack
          split <;> split <;> first | omega | (congr 1; omega)
        rcases le_total x left with hxl | hlx
        · rw [min_eq_left hxl] at *
          rw [hnr hxl, ← hdiv rfl]
          have hfuel' : left - x ≤ fuel := by omega
          have hleft' : left - x ≤ a - (c + x) := by omega
          obtain ⟨nr', flq', heq, hs, hsame⟩ := ih hshape hfuel' hleft'
          rw [hgive] at hs
          exact ⟨nr', flq', heq, hs, (SamePages.setOffset ..).trans hsame⟩
        · rw [min_eq_right hlx] at *
          rw [Nat.sub_self, returnBufs_zero]
          refine ⟨nr, _, rfl, ?_, SamePages.setOffset ..⟩
          rw [← hgive]
          simpa [giveBack, hle] using hshape
      · have hceq : c = a / conf.bufsPerPg * conf.bufsPerPg := by omega
        obtain ⟨hpage, hdiv, hqn, hshape⟩ := h.returnBufs_frontier hceq hpos hleft
        obtain ⟨nr, hround, -⟩ := h.returnBufs_round fuel hpos hqn
        rw [hround, hpage, min_eq_right hleft, Nat.sub_self, returnBufs_zero]
        refine ⟨nr, _, rfl, ?_, SamePages.setOffset ..⟩
        have hgive : giveBack conf.bufsPerPg c a left = (c, a - left) := by
          unfold giveBack
          rw [if_neg (by omega), ← hceq]
          simp
        rw [hgive]
        exact hshape

end Shape

end OnicDriver.C2h
