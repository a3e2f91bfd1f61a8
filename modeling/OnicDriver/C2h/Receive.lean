import OnicDriver.C2h.Completion
import OnicDriver.C2h.Refill

/-!
# Receiving a packet

What `rcv_pkt` does when the callback takes the packet, and which fields of the
queue a refill leaves alone.
-/

namespace OnicDriver.C2h

open Lib

/-! ## The number of descriptors -/

/-- Every packet uses a descriptor, a zero-length one included. -/
theorem getFlNr_pos {c2hBufsz pgShift : ℕ} (hbuf : 0 < c2hBufsz) (len : ℕ) :
    0 < (getFlNr len c2hBufsz pgShift (2 ^ pgShift - 1)).1 := by
  unfold getFlNr
  split
  · dsimp only
    split
    · have hpos : 0 < 2 ^ pgShift := Nat.two_pow_pos _
      exact Nat.div_pos (by omega) hpos
    · exact Nat.one_pos
  · split
    · exact Nat.one_pos
    · rename_i hlong
      obtain ⟨n, rfl⟩ : ∃ n, len = n + 1 := ⟨len - 1, by omega⟩
      have hfirst : 0 < (subBufs c2hBufsz (n + 1) (n + 1)).1 := by
        unfold subBufs
        rw [if_pos (by omega)]
        exact Nat.succ_pos _
      dsimp only
      split
      · exact Nat.succ_pos _
      · exact hfirst

/-! ## The packet callback -/

/-- The packet callback accepts every packet. -/
def C2hEnv.Accepts (env : C2hEnv) : Prop := ∀ n call, 0 ≤ env.fpDescqC2hPacket n call

/-- The free list after `rcv_pkt` wrote the length of the last buffer. -/
def lastLen (conf : C2hConf) (pidx len : ℕ) (flq : Flq) : Flq :=
  let last := ringIdxIncr pidx (flNr conf flq len - 1) conf.rngsz
  let lLen := (getFlNr len conf.c2hBufsz flq.descPgShift (2 ^ flq.descPgShift - 1)).2
  let sdesc := { flq.sdesc last with len := if len = 0 then 0 else lLen }
  { flq with sdesc := Function.update flq.sdesc last sdesc }

/-- The queue when the callback was called with a packet: its descriptors are taken off `avail`. -/
def C2hQueue.handed (conf : C2hConf) (pidx len entry : ℕ) (q : C2hQueue) : C2hQueue :=
  { q with
    rx := { q.rx with
      flq := lastLen conf pidx len q.rx.flq, avail := q.rx.avail - flNr conf q.rx.flq len }
    callbacks := q.callbacks ++ [packetCall conf (lastLen conf pidx len q.rx.flq) pidx len
      (flNr conf q.rx.flq len) entry] }

/-- The queue after a packet that the callback took, which ends before the descriptor `next`. -/
def C2hQueue.taken (next : ℕ) (q : C2hQueue) : C2hQueue :=
  { q with rx := { q.rx with flq := { q.rx.flq with pidxPend := next } } }

/-- The result of the callback for the next packet. -/
def C2hQueue.answer (env : C2hEnv) (conf : C2hConf) (pidx len entry : ℕ) (q : C2hQueue) : ℤ :=
  env.fpDescqC2hPacket q.callbacks.length (packetCall conf (lastLen conf pidx len q.rx.flq) pidx
    len (flNr conf q.rx.flq len) entry)

/-- The three ends of `rcv_pkt`: too few descriptors, a callback that fails, and a packet taken. -/
theorem rcvPkt_eq (env : C2hEnv) (conf : C2hConf) (pidx len entry : ℕ) (q : C2hQueue) :
    rcvPkt env conf pidx len entry q =
      if q.rx.avail < flNr conf q.rx.flq len then
        (-EBUSY, pidx, { q with rx := { q.rx with flq := lastLen conf pidx len q.rx.flq } })
      else if q.answer env conf pidx len entry < 0 then
        (q.answer env conf pidx len entry, pidx, q.handed conf pidx len entry)
      else
        (0, ringIdxIncr (ringIdxIncr pidx (flNr conf q.rx.flq len - 1) conf.rngsz) 1 conf.rngsz,
          (q.handed conf pidx len entry).taken
            (ringIdxIncr (ringIdxIncr pidx (flNr conf q.rx.flq len - 1) conf.rngsz) 1
              conf.rngsz)) :=
  rfl

/-- `rcv_pkt` on a packet that fits: the callback gets the buffers of the descriptors from
`pidx` on, and both producer indices move past them. -/
theorem rcvPkt_accepts {env : C2hEnv} (henv : env.Accepts) {conf : C2hConf}
    (hbuf : 0 < conf.c2hBufsz) {pidx len : ℕ} (entry : ℕ) {q : C2hQueue}
    (hpidx : pidx < conf.rngsz) (hfit : flNr conf q.rx.flq len ≤ q.rx.avail)
    (havail : q.rx.avail < conf.rngsz) :
    rcvPkt env conf pidx len entry q =
      (0, (pidx + flNr conf q.rx.flq len) % conf.rngsz,
        { q with
          rx := { q.rx with
            flq := { lastLen conf pidx len q.rx.flq with
              pidxPend := (pidx + flNr conf q.rx.flq len) % conf.rngsz }
            avail := q.rx.avail - flNr conf q.rx.flq len }
          callbacks := q.callbacks ++ [packetCall conf (lastLen conf pidx len q.rx.flq) pidx len
            (flNr conf q.rx.flq len) entry] }) := by
  have hpos : 0 < flNr conf q.rx.flq len := getFlNr_pos hbuf len
  have hnext : ringIdxIncr (ringIdxIncr pidx (flNr conf q.rx.flq len - 1) conf.rngsz) 1 conf.rngsz =
      (pidx + flNr conf q.rx.flq len) % conf.rngsz := by
    rw [ringIdxIncr_eq_mod hpidx (by omega), ringIdxIncr_mod _ (by omega) (by omega),
      Nat.add_assoc, Nat.sub_add_cancel hpos]
  have hrv := henv q.callbacks.length
    (packetCall conf (lastLen conf pidx len q.rx.flq) pidx len (flNr conf q.rx.flq len) entry)
  unfold rcvPkt C2hQueue.callback
  simp only [hnext]
  rw [if_neg (by omega)]
  exact if_neg (not_lt.mpr hrv)

/-! ## What setup and refill leave alone -/

/-- The fields of a free list that filling descriptors and pages leaves alone. -/
structure SameLayout (flq flq' : Flq) : Prop where
  size : flq'.size = flq.size
  bufSize : flq'.descBufSize = flq.descBufSize
  shift : flq'.descPgShift = flq.descPgShift
  maxPg : flq'.maxPgOffset = flq.maxPgOffset
  numPages : flq'.numPages = flq.numPages
  mask : flq'.numPgsMask = flq.numPgsMask
  pidxPend : flq'.pidxPend = flq.pidxPend

theorem SameLayout.refl (flq : Flq) : SameLayout flq flq := ⟨rfl, rfl, rfl, rfl, rfl, rfl, rfl⟩

theorem SameLayout.trans {flq₁ flq₂ flq₃ : Flq} (h : SameLayout flq₁ flq₂)
    (h' : SameLayout flq₂ flq₃) : SameLayout flq₁ flq₃ :=
  ⟨h'.1.trans h.1, h'.2.trans h.2, h'.3.trans h.3, h'.4.trans h.4, h'.5.trans h.5, h'.6.trans h.6,
    h'.7.trans h.7⟩

theorem SameLayout.fits {conf : FlqConf} {flq flq' : Flq} (h : SameLayout flq flq')
    (hfits : Fits conf flq) : Fits conf flq' :=
  ⟨h.size.trans hfits.size, h.bufSize.trans hfits.bufSize, h.shift.trans hfits.shift,
    h.maxPg.trans hfits.maxPg, h.numPages.trans hfits.numPages, h.mask.trans hfits.mask⟩

theorem returnBufs_sameLayout {passedOn recycle : Bool} {fuel left nr : ℕ} {flq : Flq}
    {heap : PageHeap} {r : ℕ × Flq × PageHeap}
    (h : returnBufs passedOn recycle fuel left nr flq heap = some r) :
    SameLayout flq r.2.1 := by
  induction fuel generalizing left nr flq heap with
  | zero =>
    unfold returnBufs at h
    split at h
    · rw [← Option.some.inj h]
      exact SameLayout.refl flq
    · cases h
  | succ fuel ih =>
    unfold returnBufs at h
    split at h
    · rw [← Option.some.inj h]
      exact SameLayout.refl flq
    · have hrest := ih h
      exact ⟨hrest.1, hrest.2, hrest.3, hrest.4, hrest.5, hrest.6, hrest.7⟩

theorem flqFillPageOne_sameLayout (env : PageEnv) (flq : Flq) (heap : PageHeap) (slot : ℕ) :
    SameLayout flq (flqFillPageOne env flq heap slot).2.1 := by
  unfold flqFillPageOne
  split
  · exact SameLayout.refl flq
  · split
    · exact SameLayout.refl flq
    · exact ⟨rfl, rfl, rfl, rfl, rfl, rfl, rfl⟩

theorem replacePages_sameLayout (env : PageEnv) (n : ℕ) (flq : Flq) (heap : PageHeap) :
    SameLayout flq (replacePages env n flq heap).1 := by
  induction n generalizing flq heap with
  | zero => exact SameLayout.refl flq
  | succ n ih =>
    unfold replacePages
    dsimp only
    split
    · exact SameLayout.refl flq
    · have hfill := flqFillPageOne_sameLayout env
        (flq.setPgSdesc (flq.recycleIdx &&& flq.numPgsMask)
          { flq.pgSdesc (flq.recycleIdx &&& flq.numPgsMask) with pgDmaBaseAddr := 0 })
        (heap.putPage (flq.pgSdesc (flq.recycleIdx &&& flq.numPgsMask)).pgBase 1)
        (flq.recycleIdx &&& flq.numPgsMask)
      have hset : SameLayout flq (flq.setPgSdesc (flq.recycleIdx &&& flq.numPgsMask)
          { flq.pgSdesc (flq.recycleIdx &&& flq.numPgsMask) with pgDmaBaseAddr := 0 }) :=
        ⟨rfl, rfl, rfl, rfl, rfl, rfl, rfl⟩
      split
      · exact hset.trans hfill
      · refine (hset.trans hfill).trans (SameLayout.trans ?_ (ih ..))
        exact ⟨rfl, rfl, rfl, rfl, rfl, rfl, rfl⟩

theorem flqFillOne_sameLayout (c2hBufsz : ℕ) (flq : Flq) (heap : PageHeap) (idx : ℕ) :
    SameLayout flq (flqFillOne c2hBufsz flq heap idx).2.1 := by
  unfold flqFillOne
  dsimp only
  split_ifs <;> exact ⟨rfl, rfl, rfl, rfl, rfl, rfl, rfl⟩

theorem fillPages_sameLayout (env : PageEnv) (n slot : ℕ) (flq : Flq) (heap : PageHeap) :
    SameLayout flq (fillPages env n slot flq heap).2.1 := by
  induction n generalizing slot flq heap with
  | zero => exact SameLayout.refl flq
  | succ n ih =>
    have hfill := flqFillPageOne_sameLayout env flq heap slot
    unfold fillPages
    dsimp only
    split
    · exact hfill
    · exact hfill.trans (ih ..)

theorem fillDescs_sameLayout (c2hBufsz n idx : ℕ) (flq : Flq) (heap : PageHeap) :
    SameLayout flq (fillDescs c2hBufsz n idx flq heap).2.1 := by
  induction n generalizing idx flq heap with
  | zero => exact SameLayout.refl flq
  | succ n ih =>
    have hfill := flqFillOne_sameLayout c2hBufsz flq heap idx
    unfold fillDescs
    dsimp only
    split
    · exact hfill
    · exact hfill.trans (ih ..)

/-- The free list with which `descq_flq_alloc_resource` fills pages. -/
def emptyFlq (flq : Flq) : Flq :=
  let numBufsPerPg := flq.maxPgOffset / 2 ^ flq.descPgShift
  let numPages := flqNumPages flq.size numBufsPerPg
  { flq with
    numBufsPerPg := numBufsPerPg, numPages := numPages, numPgsMask := numPages - 1
    pgSdesc := fun _ => {} }

/-- The free list with which `descq_flq_alloc_resource` fills descriptors. -/
def pagedFlq (flq : Flq) : Flq :=
  { flq with sdesc := fun _ => { len := 0 }, sdescInfo := fun _ => {}, allocIdx := 0 }

/-- A successful setup fills all pages and then all descriptors. -/
theorem descqFlqAllocResource_filled {env : PageEnv} {c2hBufsz : ℕ} {pgSdescOk sdescOk : Bool}
    {flq flq' : Flq} {heap heap' : PageHeap}
    (h : descqFlqAllocResource env c2hBufsz pgSdescOk sdescOk flq heap = (0, flq', heap')) :
    ∃ rv rv' flq₁ heap₁,
      fillPages env (emptyFlq flq).numPages 0 (emptyFlq flq) heap = (rv, flq₁, heap₁) ∧ 0 ≤ rv ∧
      fillDescs c2hBufsz flq₁.size 0 (pagedFlq flq₁) heap₁ = (rv', flq', heap') ∧ 0 ≤ rv' := by
  unfold descqFlqAllocResource at h
  dsimp only at h
  split_ifs at h with hbufs hpg hpages hsdesc hdescs
  · simp [EINVAL] at h
  · simp [ENOMEM] at h
  · exact absurd (Prod.mk.inj h).1 hpages.ne
  · simp [ENOMEM] at h
  · exact absurd (Prod.mk.inj h).1 hdescs.ne
  · refine ⟨_, _, _, _, rfl, not_lt.mp hpages, ?_, not_lt.mp hdescs⟩
    exact Prod.ext rfl (Prod.mk.inj h).2

/-- A successful setup leaves the size of the ring and the producer index alone. -/
theorem descqFlqAllocResource_kept {env : PageEnv} {c2hBufsz : ℕ} {pgSdescOk sdescOk : Bool}
    {flq flq' : Flq} {heap heap' : PageHeap}
    (h : descqFlqAllocResource env c2hBufsz pgSdescOk sdescOk flq heap = (0, flq', heap')) :
    flq'.size = flq.size ∧ flq'.pidxPend = flq.pidxPend := by
  obtain ⟨rv, rv', flq₁, heap₁, hpages, -, hdescs, -⟩ := descqFlqAllocResource_filled h
  have hsame₁ := fillPages_sameLayout env (emptyFlq flq).numPages 0 (emptyFlq flq) heap
  have hsame₂ := fillDescs_sameLayout c2hBufsz flq₁.size 0 (pagedFlq flq₁) heap₁
  rw [hpages] at hsame₁
  rw [hdescs] at hsame₂
  exact ⟨hsame₂.size.trans hsame₁.size, hsame₂.pidxPend.trans hsame₁.pidxPend⟩

/-- A successful setup leaves the producer index alone. -/
theorem descqFlqAllocResource_pidxPend {env : PageEnv} {c2hBufsz : ℕ} {pgSdescOk sdescOk : Bool}
    {flq flq' : Flq} {heap heap' : PageHeap}
    (h : descqFlqAllocResource env c2hBufsz pgSdescOk sdescOk flq heap = (0, flq', heap')) :
    flq'.pidxPend = flq.pidxPend :=
  (descqFlqAllocResource_kept h).2

theorem refillEntries_sameLayout (c2hBufsz : ℕ) (recycle : Bool) (n idx : ℕ) (st : FlqState) :
    SameLayout st.flq (refillEntries c2hBufsz recycle n idx st).2.flq := by
  induction n generalizing idx st with
  | zero => exact SameLayout.refl st.flq
  | succ n ih =>
    unfold refillEntries
    dsimp only
    generalize (if idx = st.flq.size then 0 else idx) = idx
    have hfree : SameLayout st.flq (flqFreeOne st.flq idx) := ⟨rfl, rfl, rfl, rfl, rfl, rfl, rfl⟩
    have hfill := hfree.trans (flqFillOne_sameLayout c2hBufsz (flqFreeOne st.flq idx) st.heap idx)
    split
    · refine SameLayout.trans ?_ (ih ..)
      exact ⟨rfl, rfl, rfl, rfl, rfl, rfl, rfl⟩
    · split
      · refine hfill.trans ?_
        split <;> exact ⟨rfl, rfl, rfl, rfl, rfl, rfl, rfl⟩
      · refine hfill.trans (SameLayout.trans ?_ (ih ..))
        exact ⟨rfl, rfl, rfl, rfl, rfl, rfl, rfl⟩

/-- `qdma_flq_refill` leaves the layout and the producer index alone. -/
theorem qdmaFlqRefill_sameLayout {env : PageEnv} {c2hBufsz idx count : ℕ}
    {passedOn recycle : Bool} {st : FlqState} {r : ℕ × FlqState}
    (h : qdmaFlqRefill env c2hBufsz passedOn idx count recycle st = some r) :
    SameLayout st.flq r.2.flq := by
  unfold qdmaFlqRefill at h
  split at h
  · rw [← Option.some.inj h]
    exact refillEntries_sameLayout ..
  · obtain ⟨⟨flq, heap⟩, hpages, rfl⟩ := Option.map_eq_some_iff.mp h
    unfold flqRefillPages at hpages
    obtain ⟨⟨nr, flq₁, heap₁⟩, hreturn, heq⟩ := Option.map_eq_some_iff.mp hpages
    refine (returnBufs_sameLayout hreturn).trans ?_
    refine SameLayout.trans ?_ (refillEntries_sameLayout ..)
    dsimp only at heq ⊢
    split at heq
    · rw [← (Prod.mk.inj heq).1]
      exact ⟨rfl, rfl, rfl, rfl, rfl, rfl, rfl⟩
    · rw [← (Prod.mk.inj heq).1]
      exact replacePages_sameLayout ..

/-- `qdma_flq_refill` leaves the producer index alone. -/
theorem qdmaFlqRefill_pidxPend {env : PageEnv} {c2hBufsz idx count : ℕ} {passedOn recycle : Bool}
    {st : FlqState} {r : ℕ × FlqState}
    (h : qdmaFlqRefill env c2hBufsz passedOn idx count recycle st = some r) :
    r.2.flq.pidxPend = st.flq.pidxPend :=
  (qdmaFlqRefill_sameLayout h).pidxPend

/-- The loop of `qdma_flq_refill` counts at most the descriptors it was asked for. -/
theorem refillEntries_avail (c2hBufsz n idx : ℕ) (recycle : Bool) (st : FlqState) :
    (refillEntries c2hBufsz recycle n idx st).2.avail ≤ st.avail + n := by
  induction n generalizing idx st with
  | zero => exact le_rfl
  | succ n ih =>
    have hone : u32 (st.avail + 1) ≤ st.avail + 1 := by
      unfold u32
      omega
    unfold refillEntries
    dsimp only
    generalize (if idx = st.flq.size then 0 else idx) = idx
    split
    · refine (ih ..).trans ?_
      dsimp only
      omega
    · split
      · exact Nat.le_add_right _ _
      · refine (ih ..).trans ?_
        dsimp only
        omega

/-- `qdma_flq_refill` counts at most the descriptors it was asked for. -/
theorem qdmaFlqRefill_avail {env : PageEnv} {c2hBufsz idx count : ℕ} {passedOn recycle : Bool}
    {st : FlqState} {r : ℕ × FlqState}
    (h : qdmaFlqRefill env c2hBufsz passedOn idx count recycle st = some r) :
    r.2.avail ≤ st.avail + count := by
  unfold qdmaFlqRefill at h
  split at h
  · rw [← Option.some.inj h]
    exact refillEntries_avail ..
  · obtain ⟨⟨flq, heap⟩, -, rfl⟩ := Option.map_eq_some_iff.mp h
    exact refillEntries_avail c2hBufsz count idx recycle { st with flq := flq, heap := heap }

end OnicDriver.C2h
