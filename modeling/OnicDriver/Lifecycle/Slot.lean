import OnicDriver.Lifecycle.FreeList
import OnicDriver.Setup.Config

/-!
# A queue slot and its memory

A slot of the queue arrays is added, configured, started, stopped and removed
many times. Starting a queue obtains its rings and its free list or bypass
list; what exists is told by the pointers and by the current configuration.
-/

namespace OnicDriver.Lifecycle

open Lib Access Queue Setup

def ERANGE : ℤ := 34

def DESC_SZ_64B_BYTES : ℕ := 64

/-- `sizeof` of the descriptors and of the status entries at the end of a ring. -/
def sizeofMmDesc : ℕ := 32
def sizeofC2hDesc : ℕ := 8
def sizeofH2cDesc : ℕ := 16
def sizeofDescCmplStatus : ℕ := 8
def sizeofC2hCmptCmplStatus : ℕ := 8

def PAGE_SHIFT : ℕ := 12

/-- `enum qdma_desc_eng_mode`. -/
inductive DescEngMode
  | internalBypass
  | bypassOnly
  | internalOnly
  deriving DecidableEq, Repr

/-- `struct xlnx_dma_dev`, what the life of a queue depends on: whether it is the device of a VF,
whether the design is an EQDMA of Vivado 2020.2 or later, and where the resource manager keeps the
function. -/
structure Xdev where
  isVf : Bool
  attributes : DevAttributes
  ipType : IpType
  vivado2020_2 : Bool := false
  descEngMode : DescEngMode := .internalBypass
  drvMode : DrvMode
  csrInfo : GlobalCsrConf
  dmaDeviceIndex : ℕ
  funcId : ℕ
  qmax : ℕ
  qmax_lt : qmax < 2 ^ 16

/-- `struct qdma_queue_conf` as the client passes it: the fields for the contexts, the index it
asks for, and those that only the software reads. -/
structure ClientConf where
  conf : QdmaQueueConf
  qidx : ℕ
  apertureSize : ℕ := 0
  fpBypassDescFill : Bool := false
  deriving DecidableEq, Repr

/-- `struct qdma_descq` of a slot. -/
structure Slot where
  qState : QState := .disabled
  descq : Setup.Descq
  qidx : ℕ
  qHndl : ℕ := 0
  apertureSize : ℕ := 0
  fpBypassDescFill : Bool := false
  cmptEntryLen : ℕ := 0
  desc : ℕ := 0
  descList : ℕ := 0
  descCmpt : ℕ := 0
  flq : Flq := {}

namespace Slot

/-- The configuration of the queue. -/
def conf (s : Slot) : QdmaQueueConf := s.descq.conf

/-- `is_ul_ext`: the client fills the descriptors. -/
def isUlExt (s : Slot) : Bool := s.conf.descBypass && s.fpBypassDescFill

end Slot

/-! ## Rings -/

/-- `get_desc_size`. -/
def getDescSize (conf : QdmaQueueConf) : ℕ :=
  if conf.bypass64 then DESC_SZ_64B_BYTES
  else if conf.st = false then sizeofMmDesc
  else if conf.qType = .c2h then sizeofC2hDesc
  else sizeofH2cDesc

/-- The length of a ring, before it is stored in an unsigned integer. -/
def ringLen (ringSz descSz csSz : ℕ) : ℤ := s32 ringSz * descSz + csSz

/-- `desc_ring_alloc`, which computes the length with 32 bits. -/
def descRingAlloc (grant : Grant) (ringSz descSz csSz : ℕ) (mem : Memory) : ℕ × Memory :=
  mem.acquire grant fun a => .ring a a (u32 (ringLen ringSz descSz csSz))

/-- `desc_ring_free`, which computes the length with 64 bits. -/
def descRingFree (ringSz descSz csSz desc descBus : ℕ) (mem : Memory) : Memory :=
  mem.release (.ring desc descBus (u64 (ringLen ringSz descSz csSz))) 1

/-! ## All resources of a queue -/

/-- The free list or the bypass list in `qdma_descq_free_resource`. -/
def freeLists (s : Slot) (mem : Memory) : Flq × Memory :=
  if s.conf.stC2h then
    let (flq, mem) := descqFlqFreeResource s.flq mem
    descqFlqFreePageResource flq mem
  else (s.flq, kfree s.descList mem)

/-- The descriptor ring in `qdma_descq_free_resource`, with what belongs to it. -/
def freeDesc (s : Slot) (mem : Memory) : Slot × Memory :=
  if s.desc = 0 then (s, mem)
  else
    let (flq, mem) := freeLists s mem
    ({ s with flq := flq, desc := 0, descq := { s.descq with descBus := 0 } },
      descRingFree s.descq.rngsz (getDescSize s.conf) sizeofDescCmplStatus s.desc s.descq.descBus
        mem)

/-- The completion ring in `qdma_descq_free_resource`. -/
def freeDescCmpt (s : Slot) (mem : Memory) : Slot × Memory :=
  if s.descCmpt = 0 then (s, mem)
  else
    ({ s with descCmpt := 0, descq := { s.descq with descCmptBus := 0 } },
      descRingFree s.descq.rngszCmpt s.cmptEntryLen sizeofC2hCmptCmplStatus s.descCmpt
        s.descq.descCmptBus mem)

/-- `qdma_descq_free_resource`. -/
def qdmaDescqFreeResource (s : Slot) (mem : Memory) : Slot × Memory :=
  let (s, mem) := freeDesc s mem
  freeDescCmpt s mem

/-- The descriptor ring of `qdma_descq_alloc_resource`. -/
def allocDesc (grant : Grant) (s : Slot) (mem : Memory) : Bool × Slot × Memory :=
  if s.conf.qType = .cmpt then (true, s, mem)
  else
    let (desc, mem) := descRingAlloc grant s.descq.rngsz (getDescSize s.conf)
      sizeofDescCmplStatus mem
    if desc = 0 then (false, { s with desc := 0 }, mem)
    else (true, { s with desc := desc, descq := { s.descq with descBus := desc } }, mem)

/-- The sizes of the free list. -/
def setupFlq (s : Slot) : Flq :=
  let descBufSize := C2h.getNextPowof2 s.descq.c2hBufsz
  let descPgShift := descBufSize.log2
  let descPgOrder := descPgShift - PAGE_SHIFT
  { s.flq with
    desc := s.desc
    size := s.descq.rngsz
    descBufSize := descBufSize
    descPgShift := descPgShift
    descPgOrder := descPgOrder
    maxPgOffset := PAGE_SIZE * 2 ^ descPgOrder }

/-- The free list or the bypass list of `qdma_descq_alloc_resource`. -/
def allocLists (grant : Grant) (s : Slot) (mem : Memory) : Bool × Slot × Memory :=
  if s.conf.stC2h then
    let (rv, flq, mem) := descqFlqAllocResource grant (setupFlq s) mem
    (decide (0 ≤ rv), { s with flq := flq }, mem)
  else if s.isUlExt then
    let (descList, mem) := mem.acquire grant .slab
    (decide (descList ≠ 0), { s with descList := descList }, mem)
  else (true, s, mem)

/-- The completion ring of `qdma_descq_alloc_resource`. -/
def allocDescCmpt (grant : Grant) (s : Slot) (mem : Memory) : Bool × Slot × Memory :=
  if s.conf.withCmpt then
    let (descCmpt, mem) := descRingAlloc grant s.descq.rngszCmpt s.cmptEntryLen
      sizeofC2hCmptCmplStatus mem
    if descCmpt = 0 then (false, { s with descCmpt := 0 }, mem)
    else
      (true, { s with descCmpt := descCmpt, descq := { s.descq with descCmptBus := descCmpt } },
        mem)
  else (true, s, mem)

/-- `err_out` of `qdma_descq_alloc_resource`. -/
def allocFailed (s : Slot) (mem : Memory) : ℤ × Slot × Memory :=
  (-ENOMEM, qdmaDescqFreeResource s mem)

/-- `qdma_descq_alloc_resource`. -/
def qdmaDescqAllocResource (grant : Grant) (s : Slot) (mem : Memory) : ℤ × Slot × Memory :=
  match allocDesc grant s mem with
  | (false, s, mem) => allocFailed s mem
  | (true, s, mem) =>
    match allocLists grant s mem with
    | (false, s, mem) => allocFailed s mem
    | (true, s, mem) =>
      match allocDescCmpt grant s mem with
      | (false, s, mem) => allocFailed s mem
      | (true, s, mem) => (0, s, mem)

/-! ## The life of a slot -/

/-- `qdma_descq_config` when the queue is added. -/
def Slot.configure (s : Slot) (c : ClientConf) : Slot :=
  { s with
    descq := { s.descq with conf := c.conf }
    qidx := c.qidx
    apertureSize := c.apertureSize
    fpBypassDescFill := c.fpBypassDescFill }

/-- `qdma_descq_config` when the queue is configured again. -/
def Slot.reconfigure (x : Xdev) (s : Slot) (c : ClientConf) : Slot :=
  { s with
    descq := qdmaDescqReconfig x.drvMode x.ipType c.conf s.descq
    apertureSize := c.apertureSize }

/-- `qdma_queue_config` on a slot. -/
def Slot.config (x : Xdev) (s : Slot) (c : ClientConf) : ℤ × Slot :=
  if s.qState ≠ .enabled then (-EINVAL, s)
  else if qdmaValidateQconfig x.ipType c.conf = false then (-EINVAL, s)
  else (0, s.reconfigure x c)

/-- `qdma_descq_config_complete`. -/
def Slot.configComplete (x : Xdev) (s : Slot) : Slot :=
  { s with
    descq := qdmaDescqConfigComplete x.csrInfo s.descq
    cmptEntryLen := if s.conf.withCmpt then 8 * 2 ^ s.conf.cmplDescSz.val else s.cmptEntryLen }

/-- The checks of `qdma_queue_start` on an added queue. -/
def Slot.startCheck (x : Xdev) (s : Slot) : ℤ :=
  if x.ipType = .eqdmaSoftIp ∧ x.vivado2020_2 ∧
      (x.descEngMode = .bypassOnly ∨ s.conf.descBypass ∧ x.descEngMode = .internalOnly) then -EINVAL
  else if s.apertureSize ≠ 0 ∧ s.apertureSize &&& (s.apertureSize - 1) ≠ 0 then -ERANGE
  else 0

/-- `qdma_queue_start` on a slot, where `ctxt` is what `qdma_descq_prog_hw` returns. -/
def Slot.start (x : Xdev) (grant : Grant) (ctxt : ℤ) (s : Slot) (mem : Memory) :
    ℤ × Slot × Memory :=
  if s.qState ≠ .enabled then (-EINVAL, s, mem)
  else if s.startCheck x < 0 then (s.startCheck x, s, mem)
  else
    match qdmaDescqAllocResource grant (s.configComplete x) mem with
    | (rv, s, mem) =>
      if rv < 0 then (rv, s, mem)
      else if ctxt < 0 then (ctxt, qdmaDescqFreeResource s mem)
      else (0, { s with qState := .online }, mem)

/-- `qdma_queue_stop` on a slot. -/
def Slot.stop (s : Slot) (mem : Memory) : ℤ × Slot × Memory :=
  if s.qState ≠ .online then (-EINVAL, s, mem)
  else (0, qdmaDescqFreeResource { s with qState := .enabled } mem)

/-! ## What a slot holds -/

/-- The descriptor ring of a slot. -/
def Slot.ring (s : Slot) : Thing :=
  .ring s.desc s.descq.descBus
    (u32 (ringLen s.descq.rngsz (getDescSize s.conf) sizeofDescCmplStatus))

/-- The completion ring of a slot. -/
def Slot.ringCmpt (s : Slot) : Thing :=
  .ring s.descCmpt s.descq.descCmptBus
    (u32 (ringLen s.descq.rngszCmpt s.cmptEntryLen sizeofC2hCmptCmplStatus))

/-- The free list or the bypass list of a slot. -/
def Slot.listsOwned (s : Slot) : Multiset Thing :=
  if s.conf.stC2h then s.flq.owned else slabOwned s.descList

/-- What a slot holds with its descriptor ring. -/
def Slot.descOwned (s : Slot) : Multiset Thing :=
  if s.desc = 0 then 0 else {s.ring} + s.listsOwned

/-- What a slot holds with its completion ring. -/
def Slot.descCmptOwned (s : Slot) : Multiset Thing :=
  if s.descCmpt = 0 then 0 else {s.ringCmpt}

/-- What a slot holds, as `qdma_descq_free_resource` finds it. -/
def Slot.owned (s : Slot) : Multiset Thing := s.descOwned + s.descCmptOwned

/-- The length of a ring has 31 bits, so that the two ways to compute it agree. -/
def RingFits (ringSz descSz csSz : ℕ) : Prop := 0 < descSz ∧ ringSz * descSz + csSz < 2 ^ 31

/-- The resources of a slot can be released: the lengths of its rings agree, and its free list is
either that of its descriptor ring or empty. -/
structure Slot.Releasable (s : Slot) : Prop where
  desc : s.desc ≠ 0 → RingFits s.descq.rngsz (getDescSize s.conf) sizeofDescCmplStatus
  descCmpt : s.descCmpt ≠ 0 → RingFits s.descq.rngszCmpt s.cmptEntryLen sizeofC2hCmptCmplStatus
  flq : s.conf.stC2h = true → s.desc ≠ 0 → s.flq.Releasable {s.ring}
  flqIdle : (s.conf.stC2h = true → s.desc = 0) → s.flq = {}

/-- A slot without resources. -/
structure Slot.Idle (s : Slot) : Prop where
  desc : s.desc = 0
  descCmpt : s.descCmpt = 0
  flq : s.flq = {}

/-- The queue of a slot is the same, whatever its resources. -/
structure Slot.SameQueue (s s' : Slot) : Prop where
  qState : s'.qState = s.qState
  conf : s'.conf = s.conf
  qidx : s'.qidx = s.qidx
  qHndl : s'.qHndl = s.qHndl

/-- A slot without the resources it had. -/
def Slot.Cleared (s s' : Slot) : Prop :=
  ∃ bus busCmpt, s' =
    { s with
      desc := 0, descCmpt := 0, flq := {}
      descq := { s.descq with descBus := bus, descCmptBus := busCmpt } }

section

variable {s s' : Slot} {grant : Grant} {r : Multiset Thing} {f : ℕ} {mem : Memory}

theorem Slot.Cleared.idle (h : s.Cleared s') : s'.Idle := by
  obtain ⟨bus, busCmpt, rfl⟩ := h
  exact ⟨rfl, rfl, rfl⟩

theorem Slot.Cleared.sameQueue (h : s.Cleared s') : s.SameQueue s' := by
  obtain ⟨bus, busCmpt, rfl⟩ := h
  exact ⟨rfl, rfl, rfl, rfl⟩

theorem Slot.SameQueue.trans {s'' : Slot} (h : s.SameQueue s') (h' : s'.SameQueue s'') :
    s.SameQueue s'' :=
  ⟨h'.qState.trans h.qState, h'.conf.trans h.conf, h'.qidx.trans h.qidx, h'.qHndl.trans h.qHndl⟩

theorem Slot.Idle.owned (h : s.Idle) : s.owned = 0 := by
  unfold Slot.owned Slot.descOwned Slot.descCmptOwned
  rw [if_pos h.desc, if_pos h.descCmpt]
  rfl

theorem u32_ringLen {ringSz descSz csSz : ℕ} (h : RingFits ringSz descSz csSz) :
    u32 (ringLen ringSz descSz csSz) = u64 (ringLen ringSz descSz csSz) := by
  obtain ⟨hpos, hlt⟩ := h
  have hle : ringSz ≤ ringSz * descSz := Nat.le_mul_of_pos_right ringSz hpos
  have hsz : s32 ringSz = ringSz := s32_of_lt (by omega) (by omega)
  unfold ringLen u32 u64
  rw [hsz, ← Nat.cast_mul]
  omega

theorem Are.descRingFree {ringSz descSz csSz desc bus : ℕ} (hfits : RingFits ringSz descSz csSz)
    (h : mem.Are (r + {.ring desc bus (u32 (ringLen ringSz descSz csSz))}) f) :
    (descRingFree ringSz descSz csSz desc bus mem).Are r f := by
  unfold Lifecycle.descRingFree
  rw [← u32_ringLen hfits]
  exact Holdings.Are.release (n := 1) h

theorem Are.freeLists (h : mem.Are (r + s.listsOwned) f) {q : Multiset Thing} (hr : q ≤ r)
    (hs : s.conf.stC2h = true → s.flq.Releasable q) (hidle : s.conf.stC2h = false → s.flq = {}) :
    ∃ mem', freeLists s mem = ({}, mem') ∧ mem'.Are r f := by
  unfold Lifecycle.freeLists
  unfold Slot.listsOwned at h
  by_cases hst : s.conf.stC2h = true
  · rw [if_pos hst] at h ⊢
    obtain ⟨hnull, hdesc⟩ := hs hst
    unfold Flq.owned at h
    rw [← Multiset.add_assoc] at h
    obtain ⟨mem₁, hbufs, h₁⟩ := Are.descqFlqFreeResource s.flq h (by
      intro hne
      obtain ⟨x, hx, hat⟩ := hdesc hne
      exact ⟨x, Multiset.mem_add.mpr (.inl (Multiset.mem_of_le hr hx)), hat⟩)
    rw [hbufs]
    rw [← Multiset.add_assoc] at h₁
    exact Are.descqFlqFreePageResource { s.flq with sdesc := 0 } h₁ hnull
  · rw [if_neg hst] at h ⊢
    rw [hidle (Bool.eq_false_of_not_eq_true hst)]
    exact ⟨_, rfl, Are.kfree h⟩

theorem Are.freeDesc (h : mem.Are (r + s.descOwned) f) (hs : s.Releasable) :
    ∃ bus mem', freeDesc s mem =
        ({ s with desc := 0, flq := {}, descq := { s.descq with descBus := bus } }, mem') ∧
      mem'.Are r f := by
  unfold Lifecycle.freeDesc
  unfold Slot.descOwned at h
  by_cases hzero : s.desc = 0
  · rw [if_pos hzero, Multiset.add_zero] at h
    rw [if_pos hzero]
    have hflq : s.flq = {} := hs.flqIdle fun _ => hzero
    refine ⟨s.descq.descBus, mem, ?_, h⟩
    rw [← hflq, ← hzero]
  · rw [if_neg hzero, ← Multiset.add_assoc] at h
    rw [if_neg hzero]
    obtain ⟨mem₁, hlists, h₁⟩ := Are.freeLists h (Multiset.le_add_left _ _)
      (fun hst => hs.flq hst hzero) (fun hst => hs.flqIdle fun htrue => by
        rw [hst] at htrue
        cases htrue)
    rw [hlists]
    exact ⟨0, _, rfl, Are.descRingFree (hs.desc hzero) h₁⟩

/-- All that a slot holds is given up. -/
theorem Are.qdmaDescqFreeResource (h : mem.Are (r + s.owned) f) (hs : s.Releasable) :
    ∃ s' mem', qdmaDescqFreeResource s mem = (s', mem') ∧ s.Cleared s' ∧ mem'.Are r f := by
  have h₀ : mem.Are (r + s.descCmptOwned + s.descOwned) f := by
    refine h.congr ?_
    unfold Slot.owned
    ac_rfl
  obtain ⟨bus, mem₁, hdesc, h₁⟩ := Are.freeDesc h₀ hs
  unfold Lifecycle.qdmaDescqFreeResource
  rw [hdesc]
  unfold freeDescCmpt
  unfold Slot.descCmptOwned at h₁
  dsimp only
  split
  · rename_i hzero
    rw [if_pos hzero, Multiset.add_zero] at h₁
    refine ⟨_, _, rfl, ⟨bus, s.descq.descCmptBus, ?_⟩, h₁⟩
    rw [← hzero]
  · rename_i hne
    rw [if_neg hne] at h₁
    exact ⟨_, _, rfl, ⟨bus, 0, rfl⟩, Are.descRingFree (hs.descCmpt hne) h₁⟩

end

/-! ## What an allocation leaves -/

/-- A start of a configured queue that keeps the memory in order. The sizes are those of real
rings and buffers. The array of the pages is not refused, unless there is but one page. A queue
without a bypass list is not one whose slot had such a list before, and a completion queue gets
none. -/
structure StartSafe (grant : Grant) (s : Slot) (mem : Memory) : Prop where
  desc : RingFits s.descq.rngsz (getDescSize s.conf) sizeofDescCmplStatus
  descCmpt : s.conf.withCmpt = true →
    RingFits s.descq.rngszCmpt s.cmptEntryLen sizeofC2hCmptCmplStatus
  flq : s.conf.stC2h = true → s.descq.rngsz ≠ 0 ∧ s.descq.c2hBufsz ≠ 0
  pages : s.conf.stC2h = true → grant mem.calls = true → grant (mem.calls + 1) = false →
    s.descq.rngsz ≤ 1
  list : s.conf.qType ≠ .cmpt → s.conf.stC2h = false → s.isUlExt = false →
    grant mem.calls = true → s.descList = 0
  cmptList : s.conf.qType = .cmpt → s.isUlExt = true → grant mem.calls = false

section

variable {s : Slot} {grant : Grant} {r : Multiset Thing} {f : ℕ} {mem : Memory}

/-- Either the descriptor ring is there where one is needed, or it was refused. -/
theorem Are.allocDesc (h : mem.Are r f) (hs : s.Idle) (grant : Grant) :
    (∃ mem', allocDesc grant s mem = (false, s, mem') ∧ mem'.Are r f) ∨
      (s.conf.qType = .cmpt ∧ allocDesc grant s mem = (true, s, mem)) ∨
      ∃ a s' mem', s.conf.qType ≠ .cmpt ∧ allocDesc grant s mem = (true, s', mem') ∧
        s' = { s with desc := a + 1, descq := { s.descq with descBus := a + 1 } } ∧
        mem'.Are (r + {s'.ring}) f ∧ grant mem.calls = true ∧ mem'.calls = mem.calls + 1 := by
  unfold Lifecycle.allocDesc
  split
  · rename_i hcmpt
    exact .inr (.inl ⟨hcmpt, rfl⟩)
  · rename_i hne
    unfold descRingAlloc
    rcases h.acquire grant (fun a => .ring a a (u32 (ringLen s.descq.rngsz (getDescSize s.conf)
      sizeofDescCmplStatus))) with ⟨a, mem₁, hring, h₁, hgrant, hcalls⟩ | ⟨mem₁, hring, h₁, -⟩
    · rw [hring]
      refine .inr (.inr ⟨a, _, _, hne, rfl, rfl, h₁.congr ?_, hgrant, hcalls⟩)
      rw [Multiset.add_comm, Multiset.singleton_add]
      rfl
    · have hsame : { s with desc := 0 } = s := by rw [← hs.desc]
      rw [hring]
      exact .inl ⟨mem₁, congrArg (fun s' => (false, s', mem₁)) hsame, h₁⟩

/-- The free list of a ring is set up, as far as the allocators allow. -/
theorem Are.allocFlq {a bus : ℕ} (hs : s.Idle) (hst : s.conf.stC2h = true)
    (hsafe : StartSafe grant s mem) {s₁ : Slot}
    (hs₁ : s₁ = { s with desc := a + 1, descq := { s.descq with descBus := bus } })
    {mem₁ : Memory} (h : mem₁.Are (r + {s₁.ring}) f) (hgrant : grant mem.calls = true)
    (hcalls : mem₁.calls = mem.calls + 1) :
    ∃ rv flq mem', Lifecycle.descqFlqAllocResource grant (setupFlq s₁) mem₁ = (rv, flq, mem') ∧
      mem'.Are (r + {s₁.ring} + flq.owned) f ∧ flq.Releasable {s₁.ring} := by
  obtain ⟨hsize, hbuf⟩ := hsafe.flq hst
  obtain ⟨n, hpow, -, -⟩ := C2h.getNextPowof2_spec (Nat.pos_of_ne_zero hbuf)
  have hflq : s₁.flq = {} := by
    rw [hs₁]
    exact hs.flq
  have hbufsz : s₁.descq.c2hBufsz = s.descq.c2hBufsz := by rw [hs₁]
  have hrngsz : s₁.descq.rngsz = s.descq.rngsz := by rw [hs₁]
  apply Are.descqFlqAllocResource (Multiset.le_add_left _ _) h
  · unfold setupFlq
    rw [hflq]
    rfl
  · unfold setupFlq
    rw [hflq]
    exact ⟨rfl, rfl, rfl, rfl⟩
  · refine ⟨s₁.ring, Multiset.mem_singleton_self _, ?_⟩
    exact beq_self_eq_true s₁.desc
  · rw [setupFlq, hrngsz]
    exact hsize
  · unfold setupFlq
    dsimp only
    rw [hbufsz, hpow, Nat.log2_two_pow]
  · intro hrefused
    rw [hcalls] at hrefused
    rw [setupFlq, hrngsz]
    exact hsafe.pages hst hgrant hrefused

/-- What a slot has after the lists of its queue, whether or not all of it could be obtained. -/
structure Slot.Filled (s s' : Slot) : Prop where
  same : ∃ a bus flq list, s' =
    { s with desc := a, descq := { s.descq with descBus := bus }, flq := flq, descList := list }
  releasable : s'.Releasable

/-- A completion queue has no descriptor ring and nothing that belongs to it. -/
theorem Are.allocLists_cmpt (h : mem.Are r f) (hs : s.Idle) (hsafe : StartSafe grant s mem)
    (hcmpt : s.conf.qType = .cmpt) :
    ∃ ok s₂ mem₂, allocLists grant s mem = (ok, s₂, mem₂) ∧ s.Filled s₂ ∧
      mem₂.Are (r + s₂.owned) f := by
  have hst : ¬ s.conf.stC2h = true := by
    unfold QdmaQueueConf.stC2h
    rw [hcmpt, beq_eq_false_iff_ne.mpr (by decide), Bool.and_false]
    exact Bool.false_ne_true
  have hfilled : ∀ list, s.Filled { s with descList := list } := fun list =>
    ⟨⟨s.desc, s.descq.descBus, s.flq, list, rfl⟩, absurd hs.desc, absurd hs.descCmpt,
      fun _ hne => absurd hs.desc hne, fun _ => hs.flq⟩
  have howned : ∀ list, Slot.owned { s with descList := list } = 0 := fun list =>
    Slot.Idle.owned ⟨hs.desc, hs.descCmpt, hs.flq⟩
  unfold Lifecycle.allocLists
  rw [if_neg hst]
  split
  · rename_i hext
    rcases h.acquire grant .slab with ⟨a, mem₁, hslab, -, hgrant, -⟩ | ⟨mem₁, hslab, h₁, -⟩
    · rw [hsafe.cmptList hcmpt hext] at hgrant
      cases hgrant
    · rw [hslab]
      refine ⟨_, _, _, rfl, hfilled 0, h₁.congr ?_⟩
      exact (Multiset.add_zero r).symm.trans (congrArg (r + ·) (howned 0).symm)
  · refine ⟨_, _, _, rfl, hfilled s.descList, h.congr ?_⟩
    exact (Multiset.add_zero r).symm.trans (congrArg (r + ·) (howned s.descList).symm)

/-- The free list or the bypass list belongs to the descriptor ring. -/
theorem Are.allocLists (hs : s.Idle) (hsafe : StartSafe grant s mem)
    (hne : s.conf.qType ≠ .cmpt) {s₁ : Slot} {mem₁ : Memory} {a : ℕ}
    (hs₁ : s₁ = { s with desc := a + 1, descq := { s.descq with descBus := a + 1 } })
    (h : mem₁.Are (r + {s₁.ring}) f) (hgrant : grant mem.calls = true)
    (hcalls : mem₁.calls = mem.calls + 1) :
    ∃ ok s₂ mem₂, allocLists grant s₁ mem₁ = (ok, s₂, mem₂) ∧ s.Filled s₂ ∧
      mem₂.Are (r + s₂.owned) f := by
  have hconf : s₁.conf = s.conf := by
    rw [hs₁]
    rfl
  have hext : s₁.isUlExt = s.isUlExt := by
    rw [hs₁]
    rfl
  have hlist : s₁.descList = s.descList := by rw [hs₁]
  -- what any slot with this ring and these lists has
  have hresult : ∀ (flq : Flq) (list : ℕ) (mem₂ : Memory),
      (s.conf.stC2h = true → flq.Releasable {s₁.ring}) → (s.conf.stC2h = false → flq = {}) →
      mem₂.Are (r + {s₁.ring} + if s.conf.stC2h then flq.owned else slabOwned list) f →
      s.Filled { s₁ with flq := flq, descList := list } ∧
        mem₂.Are (r + Slot.owned { s₁ with flq := flq, descList := list }) f := by
    intro flq list mem₂ hrel hidle h₂
    subst hs₁
    refine ⟨⟨⟨_, _, flq, list, rfl⟩, fun _ => hsafe.desc, absurd hs.descCmpt, ?_, ?_⟩, ?_⟩
    · exact fun hst _ => hrel hst
    · intro himp
      apply hidle
      by_contra htrue
      exact Nat.succ_ne_zero a (himp (Bool.eq_true_of_not_eq_false htrue))
    · refine h₂.congr ?_
      unfold Slot.owned Slot.descOwned Slot.descCmptOwned
      rw [if_neg (Nat.succ_ne_zero a), if_pos hs.descCmpt, Multiset.add_zero, Multiset.add_assoc]
      rfl
  unfold Lifecycle.allocLists
  rw [hconf]
  by_cases hst : s.conf.stC2h = true
  · obtain ⟨rv, flq, mem₂, halloc, h₂, hrel⟩ := Are.allocFlq hs hst hsafe hs₁ h hgrant hcalls
    rw [if_pos hst, halloc]
    obtain ⟨hfilled, h₃⟩ := hresult flq s₁.descList mem₂ (fun _ => hrel)
      (fun hfalse => absurd hst (by rw [hfalse]; exact Bool.false_ne_true))
      (h₂.congr (by rw [if_pos hst]))
    exact ⟨_, _, _, rfl, hfilled, h₃⟩
  · have hfalse : s.conf.stC2h = false := Bool.eq_false_of_not_eq_true hst
    have hflq : s₁.flq = {} := by
      rw [hs₁]
      exact hs.flq
    rw [if_neg hst, hext]
    split
    · rcases h.acquire grant .slab with ⟨b, mem₂, hslab, h₂, -⟩ | ⟨mem₂, hslab, h₂, -⟩
      · rw [hslab]
        obtain ⟨hfilled, h₃⟩ := hresult s₁.flq (b + 1) mem₂ (absurd · hst) (fun _ => hflq)
          (h₂.congr (by
            rw [if_neg hst, slabOwned_succ, Multiset.add_comm _ {Thing.slab (b + 1)},
              Multiset.singleton_add]))
        exact ⟨_, _, _, rfl, hfilled, h₃⟩
      · rw [hslab]
        obtain ⟨hfilled, h₃⟩ := hresult s₁.flq 0 mem₂ (absurd · hst) (fun _ => hflq)
          (h₂.congr (by rw [if_neg hst, slabOwned_zero, Multiset.add_zero]))
        exact ⟨_, _, _, rfl, hfilled, h₃⟩
    · rename_i hno
      have hzero : s₁.descList = 0 :=
        hlist.trans (hsafe.list hne hfalse (Bool.eq_false_of_not_eq_true hno) hgrant)
      obtain ⟨hfilled, h₃⟩ := hresult s₁.flq s₁.descList mem₁ (absurd · hst) (fun _ => hflq)
        (h.congr (by rw [if_neg hst, hzero, slabOwned_zero, Multiset.add_zero]))
      exact ⟨_, _, _, rfl, hfilled, h₃⟩

theorem Slot.Filled.sameQueue {s' : Slot} (h : s.Filled s') : s.SameQueue s' := by
  obtain ⟨a, bus, flq, list, rfl⟩ := h.same
  exact ⟨rfl, rfl, rfl, rfl⟩

/-- The completion ring is there where one is needed, or it was refused. -/
theorem Are.allocDescCmpt (hs : s.Idle) (hsafe : StartSafe grant s mem) {s₂ : Slot}
    {mem₂ : Memory} (hfilled : s.Filled s₂) (h : mem₂.Are (r + s₂.owned) f) :
    ∃ ok s₃ mem₃, allocDescCmpt grant s₂ mem₂ = (ok, s₃, mem₃) ∧ s.SameQueue s₃ ∧
      s₃.Releasable ∧ mem₃.Are (r + s₃.owned) f := by
  have hsame := hfilled.sameQueue
  have hrel := hfilled.releasable
  obtain ⟨a, bus, flq, list, hs₂⟩ := hfilled.same
  have hnone : s₂.descCmpt = 0 := by
    rw [hs₂]
    exact hs.descCmpt
  unfold Lifecycle.allocDescCmpt
  split
  · rename_i hcmpt
    rw [hsame.conf] at hcmpt
    have hfits : RingFits s₂.descq.rngszCmpt s₂.cmptEntryLen sizeofC2hCmptCmplStatus := by
      rw [hs₂]
      exact hsafe.descCmpt hcmpt
    unfold descRingAlloc
    rcases h.acquire grant (fun a => .ring a a (u32 (ringLen s₂.descq.rngszCmpt s₂.cmptEntryLen
      sizeofC2hCmptCmplStatus))) with ⟨b, mem₃, hring, h₃, -⟩ | ⟨mem₃, hring, h₃, -⟩
    · rw [hring]
      refine ⟨_, _, _, rfl, ⟨hsame.qState, hsame.conf, hsame.qidx, hsame.qHndl⟩,
        ⟨hrel.desc, fun _ => hfits, hrel.flq, hrel.flqIdle⟩, h₃.congr ?_⟩
      unfold Slot.owned
      have hcmptOwned : s₂.descCmptOwned = 0 := if_pos hnone
      rw [hcmptOwned, Multiset.add_zero, ← Multiset.singleton_add,
        Multiset.add_comm {_}, Multiset.add_assoc]
      rfl
    · have hzero : { s₂ with descCmpt := 0 } = s₂ := by rw [← hnone]
      rw [hring]
      exact ⟨_, _, _, congrArg (fun s' => (false, s', mem₃)) hzero, hsame, hrel, h₃⟩
  · exact ⟨_, _, _, rfl, hsame, hrel, h⟩

/-- What is left of an allocation: all of it, or nothing. -/
structure AllocResult (s : Slot) (r : Multiset Thing) (f : ℕ) (res : ℤ × Slot × Memory) :
    Prop where
  sameQueue : s.SameQueue res.2.1
  failed : res.1 < 0 → res.2.1.Idle ∧ res.2.2.Are r f
  done : ¬ res.1 < 0 → res.2.1.Releasable ∧ res.2.2.Are (r + res.2.1.owned) f

theorem allocFailed_result {s₁ : Slot} (hsame : s.SameQueue s₁) (hrel : s₁.Releasable)
    (h : mem.Are (r + s₁.owned) f) : AllocResult s r f (allocFailed s₁ mem) := by
  obtain ⟨s₂, mem₂, hfree, hcleared, h₂⟩ := Are.qdmaDescqFreeResource h hrel
  unfold allocFailed
  rw [hfree]
  exact ⟨hsame.trans hcleared.sameQueue, fun _ => ⟨hcleared.idle, h₂⟩,
    fun hok => absurd (by decide : -ENOMEM < 0) hok⟩

theorem Slot.Idle.releasable (hs : s.Idle) : s.Releasable :=
  ⟨absurd hs.desc, absurd hs.descCmpt, fun _ hne => absurd hs.desc hne, fun _ => hs.flq⟩

theorem Slot.SameQueue.refl (s : Slot) : s.SameQueue s := ⟨rfl, rfl, rfl, rfl⟩

/-- The part of the allocation after the descriptor ring. -/
theorem allocRest_result {s₁ : Slot} {mem₁ : Memory} (hs : s.Idle)
    (hsafe : StartSafe grant s mem)
    (hlists : ∃ ok s₂ mem₂, allocLists grant s₁ mem₁ = (ok, s₂, mem₂) ∧ s.Filled s₂ ∧
      mem₂.Are (r + s₂.owned) f) :
    AllocResult s r f
      (match allocLists grant s₁ mem₁ with
        | (false, s, mem) => allocFailed s mem
        | (true, s, mem) =>
          match allocDescCmpt grant s mem with
          | (false, s, mem) => allocFailed s mem
          | (true, s, mem) => (0, s, mem)) := by
  obtain ⟨ok, s₂, mem₂, heq, hfilled, h₂⟩ := hlists
  rw [heq]
  cases ok with
  | false => exact allocFailed_result hfilled.sameQueue hfilled.releasable h₂
  | true =>
    obtain ⟨ok, s₃, mem₃, heq, hsame, hrel, h₃⟩ := Are.allocDescCmpt hs hsafe hfilled h₂
    dsimp only
    rw [heq]
    cases ok with
    | false => exact allocFailed_result hsame hrel h₃
    | true => exact ⟨hsame, fun hneg => absurd hneg (lt_irrefl 0), fun _ => ⟨hrel, h₃⟩⟩

/-- `qdma_descq_alloc_resource` obtains all resources of the queue or none. -/
theorem Are.qdmaDescqAllocResource (h : mem.Are r f) (hs : s.Idle)
    (hsafe : StartSafe grant s mem) :
    AllocResult s r f (qdmaDescqAllocResource grant s mem) := by
  unfold Lifecycle.qdmaDescqAllocResource
  rcases Are.allocDesc h hs grant with ⟨mem₁, hring, h₁⟩ | ⟨hcmpt, hring⟩ |
    ⟨a, s₁, mem₁, hne, hring, hs₁, h₁, hgrant, hcalls⟩
  · rw [hring]
    refine allocFailed_result (.refl s) hs.releasable (h₁.congr ?_)
    rw [hs.owned, Multiset.add_zero]
  · rw [hring]
    exact allocRest_result hs hsafe (Are.allocLists_cmpt h hs hsafe hcmpt)
  · rw [hring]
    exact allocRest_result hs hsafe (Are.allocLists hs hsafe hne hs₁ h₁ hgrant hcalls)

end

end OnicDriver.Lifecycle
