import OnicDriver.C2h.Exclusive
import OnicDriver.C2h.Receive
import OnicDriver.Lib.Runs

/-!
# Runs of a receive queue

A receive queue from its setup on, in batches: packets are handed to the stack,
the descriptors of the batch are refilled, and the stack drops buffers at any
time. The buffers of the hardware and those of the stack stay disjoint in every
run whose refills stay behind the page that buffers are cut from.
-/

namespace OnicDriver.C2h

open Lib

/-- The queue, the descriptor at which the current batch starts, and the buffers whose
references the stack still holds. -/
structure RxState where
  q : C2hQueue
  start : ℕ := 0
  held : List SwSg := []

inductive RxEvent
  | packet (len entry : ℕ)
  | refill
  | drop (s : SwSg)
  deriving DecidableEq, Repr

/-- The queue after `descq_flq_alloc_resource`. -/
def rxStart (env : C2hEnv) (conf : FlqConf) (heap : PageHeap) : RxState :=
  let r := descqFlqAllocResource env.toPageEnv conf.bufSize true true conf.flq heap
  { q := { rx := { flq := r.2.1, heap := r.2.2, avail := conf.size - 1 } } }

/-- One step: `rcv_pkt` on the next packet, `qdma_flq_refill` of the descriptors used since
the last one as `descq_process_completion_st_c2h` calls it, or `put_page` on a buffer that
the stack holds. -/
def rxStep (env : C2hEnv) (conf : C2hConf) (s : RxState) : RxEvent → RxState
  | .packet len entry =>
    let (_, next, q) := rcvPkt env conf s.q.pidx len entry s.q
    { s with
      q := { q with pidx := next }
      held := s.held ++ (q.callbacks.drop s.q.callbacks.length).flatMap (·.sgl) }
  | .refill =>
    let flq := s.q.rx.flq
    if flq.pidxPend = s.start then s
    else
      match qdmaFlqRefill env.toPageEnv conf.c2hBufsz true s.start
        (ringIdxDelta flq.pidxPend s.start flq.size) false s.q.rx with
      | none => s
      | some (_, rx) => { s with q := { s.q with rx := rx }, start := rx.flq.pidxPend }
  | .drop b =>
    if b ∈ s.held then
      { s with
        q := { s.q with rx := { s.q.rx with heap := s.q.rx.heap.putPage b.pg 1 } }
        held := s.held.erase b }
    else s

/-- The number of descriptors that the hardware owns: those from `pidx_pend` up to the
producer index that was posted, one before the start of the batch. -/
def RxState.ownedCount (s : RxState) : ℕ :=
  let flq := s.q.rx.flq
  ringIdxDelta (ringIdxDecr s.start 1 flq.size) flq.pidxPend flq.size

/-- The descriptors that the hardware owns. -/
def RxState.owned (s : RxState) : List ℕ :=
  (List.range s.ownedCount).map fun i => ringIdxIncr s.q.rx.flq.pidxPend i s.q.rx.flq.size

/-- The buffers of the hardware are disjoint from each other and from those of the stack. -/
def RxState.BuffersDisjoint (s : RxState) : Prop :=
  let flq := s.q.rx.flq
  (∀ i ∈ s.owned, ∀ j ∈ s.owned, i ≠ j →
    RangesDisjoint flq.descBufSize (flq.dstAddr i) (flq.dstAddr j)) ∧
  ∀ i ∈ s.owned, ∀ b ∈ s.held, RangesDisjoint flq.descBufSize (flq.dstAddr i) b.dmaAddr

instance (s : RxState) : Decidable s.BuffersDisjoint := inferInstanceAs (Decidable (_ ∧ _))

/-- A batch uses descriptors that the hardware owns, and the stack drops buffers it holds. -/
def RxAllowed (conf : C2hConf) (s : RxState) : RxEvent → Prop
  | .packet len _ => flNr conf s.q.rx.flq len ≤ s.ownedCount
  | .refill => True
  | .drop b => b ∈ s.held

instance (conf : C2hConf) (s : RxState) (e : RxEvent) : Decidable (RxAllowed conf s e) :=
  match e with
  | .packet .. => inferInstanceAs (Decidable (_ ≤ _))
  | .refill => isTrue trivial
  | .drop _ => inferInstanceAs (Decidable (_ ∈ _))

/-- The descriptors to refill and the buffers cut so far from the page at `alloc_idx` fit
into the ring together, so the refill gives back no buffer of that page. -/
def RxState.RefillsBehind (s : RxState) : Prop :=
  let flq := s.q.rx.flq
  ringIdxDelta flq.pidxPend s.start flq.size +
    (flq.pgSdesc (flq.allocIdx &&& flq.numPgsMask)).pgOffset / flq.descBufSize ≤ flq.size

instance (s : RxState) : Decidable s.RefillsBehind := inferInstanceAs (Decidable (_ ≤ _))

/-- `RxAllowed` with the condition on refills. -/
def RxAllowedBehind (conf : C2hConf) (s : RxState) (e : RxEvent) : Prop :=
  RxAllowed conf s e ∧ (e = .refill → s.RefillsBehind)

/-- The queue has the ring and the buffers of the free list. -/
structure FlqConf.Of (conf : FlqConf) (qconf : C2hConf) : Prop where
  rngsz : qconf.rngsz = conf.size
  c2hBufsz : qconf.c2hBufsz = conf.bufSize

/-- The invariant of these runs: `pend` descriptors were used since the last refill, which
left the buffers from `c` on. -/
structure RxInv (conf : FlqConf) (env : PageEnv) (c pend : ℕ) (s : RxState) : Prop where
  stable : Stable conf c s.q.rx.flq s.q.rx.heap
  start : s.start = c % conf.size
  pidxPend : s.q.rx.flq.pidxPend = (c + pend) % conf.size
  pidx : s.q.pidx = (c + pend) % conf.size
  avail : pend + s.q.rx.avail + 1 = conf.size
  exclusive : Exclusive conf env s.held (c + pend) (c + conf.size) (c / conf.bufsPerPg)
    (bufView s.q.rx.flq s.q.rx.heap)

section

variable {conf : FlqConf} {qconf : C2hConf} {env : C2hEnv} {s : RxState} {c pend : ℕ}

/-- The shape does not depend on the descriptors' lengths and the producer index. -/
theorem Shape.lastLen {a r : ℕ} {flq : Flq} {heap : PageHeap} (h : Shape conf c a r flq heap)
    (pidx len next : ℕ) :
    Shape conf c a r { lastLen qconf pidx len flq with pidxPend := next } heap :=
  ⟨⟨h.fits.1, h.fits.2, h.fits.3, h.fits.4, h.fits.5, h.fits.6⟩, h.alloc, h.recycle, h.used,
    h.frontier, h.window, h.offset, h.pages, h.finite⟩

theorem Exclusive.lastLen {held : List SwSg} {f a r : ℕ} {flq : Flq} {heap : PageHeap}
    (h : Exclusive conf env.toPageEnv held f a r (bufView flq heap)) (qconf : C2hConf)
    (pidx len : ℕ) :
    Exclusive conf env.toPageEnv held f a r (bufView (lastLen qconf pidx len flq) heap) :=
  h.setLen _ _

/-- The callback gets consecutive descriptors of the ring. -/
theorem packetCall_sgl (qconf : C2hConf) (flq : Flq) (b len entry : ℕ) {n : ℕ}
    (hpos : 0 < qconf.rngsz)
    (hn : n ≤ qconf.rngsz) :
    (packetCall qconf flq (b % qconf.rngsz) len n entry).sgl =
      (List.range n).map fun i => flq.sdesc ((b + i) % qconf.rngsz) := by
  refine List.map_congr_left fun i hi => ?_
  have hlt := List.mem_range.mp hi
  rw [ringIdxIncr_mod b hpos (by omega)]

/-- The hardware owns the descriptors that are not used up, one of the ring excepted. -/
theorem RxInv.ownedCount (h : RxInv conf env.toPageEnv c pend s) : s.ownedCount = s.q.rx.avail := by
  have hsize := h.stable.fits.size
  have havail := h.avail
  have hlt : c % conf.size < conf.size := Nat.mod_lt c conf.size_pos
  have hposted : (c % conf.size + conf.size - 1) % conf.size =
      (c + pend + s.q.rx.avail) % conf.size := by
    have hsum : c % conf.size + conf.size - 1 = c % conf.size + (conf.size - 1) := by omega
    rw [hsum, Nat.mod_add_mod]
    congr 1
    omega
  unfold RxState.ownedCount
  simp only [hsize, h.start, h.pidxPend]
  rw [ringIdxDecr_one hlt, hposted, ringIdxDelta_mod _ (by omega)]

/-- A descriptor of the hardware holds a buffer in use. -/
theorem RxInv.mem_owned (h : RxInv conf env.toPageEnv c pend s) {i : ℕ} (hi : i ∈ s.owned) :
    ∃ b, c + pend ≤ b ∧ b < c + conf.size ∧ i = b % conf.size := by
  have havail := h.avail
  obtain ⟨j, hj, rfl⟩ := List.mem_map.mp hi
  rw [List.mem_range, h.ownedCount] at hj
  refine ⟨c + pend + j, by omega, by omega, ?_⟩
  rw [h.stable.fits.size, h.pidxPend, ringIdxIncr_mod _ conf.size_pos (by omega)]

/-- The invariant makes the buffers disjoint. -/
theorem RxInv.buffersDisjoint (h : RxInv conf env.toPageEnv c pend s)
    (hmaps : env.MapsDisjoint (2 ^ conf.pgBits)) : s.BuffersDisjoint := by
  unfold RxState.BuffersDisjoint
  dsimp only
  rw [h.stable.fits.bufSize]
  constructor
  · intro i hi j hj hne
    obtain ⟨b, hb, hba, rfl⟩ := h.mem_owned hi
    obtain ⟨b', hb', hba', rfl⟩ := h.mem_owned hj
    exact h.exclusive.owned_disjoint hmaps hb hba hb' hba' fun heq => hne (heq ▸ rfl)
  · intro i hi t ht
    obtain ⟨b, hb, hba, rfl⟩ := h.mem_owned hi
    exact h.exclusive.held_disjoint hmaps hb hba ht

/-- A packet of the next descriptors. -/
theorem RxInv.packet (h : RxInv conf env.toPageEnv c pend s) (hq : conf.Of qconf)
    (henv : env.Accepts) {len : ℕ} (entry : ℕ)
    (hfit : flNr qconf s.q.rx.flq len ≤ s.ownedCount) :
    RxInv conf env.toPageEnv c (pend + flNr qconf s.q.rx.flq len)
      (rxStep env qconf s (.packet len entry)) := by
  have havail := h.avail
  have hbuf : 0 < qconf.c2hBufsz := by
    rw [hq.c2hBufsz]
    exact FlqConf.bufSize_pos
  have hpidx : s.q.pidx < qconf.rngsz := by
    rw [h.pidx, hq.rngsz]
    exact Nat.mod_lt _ conf.size_pos
  rw [h.ownedCount] at hfit
  have hrcv := rcvPkt_accepts henv hbuf entry hpidx hfit (by rw [hq.rngsz]; omega)
  unfold rxStep
  simp only [hrcv]
  generalize flNr qconf s.q.rx.flq len = n at *
  have hnext : (s.q.pidx + n) % qconf.rngsz = (c + (pend + n)) % conf.size := by
    rw [h.pidx, hq.rngsz, Nat.mod_add_mod, Nat.add_assoc]
  refine ⟨h.stable.lastLen _ _ _, h.start, hnext, hnext, by dsimp only; omega, ?_⟩
  have htake := (h.exclusive.lastLen qconf s.q.pidx len).takeMany (n := n) (by omega)
  have hsgl := packetCall_sgl qconf (lastLen qconf s.q.pidx len s.q.rx.flq) (c + pend) len entry
    (n := n) (by omega) (by rw [hq.rngsz]; omega)
  rw [hq.rngsz, ← h.pidx] at hsgl
  rw [Nat.add_assoc] at htake
  simp only [List.drop_left', List.flatMap_cons, List.flatMap_nil, List.append_nil, hsgl]
  exact htake

/-- A refill that the condition admits gives back buffers of earlier pages only. -/
theorem RxInv.refillsBehind (h : RxInv conf env.toPageEnv c pend s) (hbehind : s.RefillsBehind) :
    c + pend ≤ (c + conf.size) / conf.bufsPerPg * conf.bufsPerPg := by
  have hfits := h.stable.fits
  have havail := h.avail
  have hpend : ringIdxDelta ((c + pend) % conf.size) (c % conf.size) conf.size = pend :=
    ringIdxDelta_mod c (by omega)
  have hle := Nat.div_mul_le_self (c + conf.size) conf.bufsPerPg
  have hlt : c + conf.size < (c + conf.size) / conf.bufsPerPg * conf.bufsPerPg + conf.bufsPerPg :=
    Nat.lt_div_mul_add FlqConf.bufsPerPg_pos
  have hwindow := h.stable.window
  have hfrontier := h.stable.frontier
  have hr : c / conf.bufsPerPg ≤ (c + conf.size) / conf.bufsPerPg :=
    Nat.div_le_div_right (by omega)
  unfold RxState.RefillsBehind at hbehind
  simp only [hfits.size, hfits.bufSize, hfits.mask, h.stable.alloc, h.start, h.pidxPend, hpend,
    conf.land_mask] at hbehind
  by_cases hin : (c + conf.size) / conf.bufsPerPg < c / conf.bufsPerPg + conf.numPages
  · rw [h.stable.offset _ hr hin, Nat.mul_div_cancel_left _ FlqConf.bufSize_pos] at hbehind
    generalize (c + conf.size) / conf.bufsPerPg = A at *
    have hpage : inPage conf.bufsPerPg c (c + conf.size) A =
        c + conf.size - A * conf.bufsPerPg := by
      unfold inPage
      rw [Nat.add_mul, one_mul]
      omega
    omega
  · -- the buffers in use end with the window
    have hend : (c / conf.bufsPerPg + conf.numPages) * conf.bufsPerPg ≤
        (c + conf.size) / conf.bufsPerPg * conf.bufsPerPg :=
      Nat.mul_le_mul_right _ (by omega)
    omega

/-- A refill of the batch. -/
theorem RxInv.refill (h : RxInv conf env.toPageEnv c pend s) (hsucc : env.Succeeds)
    (hbehind : s.RefillsBehind) :
    ∃ c' pend', RxInv conf env.toPageEnv c' pend' (rxStep env qconf s .refill) := by
  have havail := h.avail
  have hsize := conf.size_lt
  have hpend : ringIdxDelta ((c + pend) % conf.size) (c % conf.size) conf.size = pend :=
    ringIdxDelta_mod c (by omega)
  unfold rxStep
  dsimp only
  by_cases hnone : s.q.rx.flq.pidxPend = s.start
  · rw [if_pos hnone]
    exact ⟨c, pend, h⟩
  · rw [if_neg hnone]
    have hgive : giveBack conf.bufsPerPg c (c + conf.size) pend = (c + pend, c + conf.size) :=
      if_pos (h.refillsBehind hbehind)
    have hfirst : nextFirst conf c pend = c + pend := congrArg Prod.fst hgive
    have hidx : s.start ≤ conf.size := by
      rw [h.start]
      exact (Nat.mod_lt c conf.size_pos).le
    have hmod : s.start % conf.size = (c + conf.size + 0) % conf.size := by
      rw [h.start, Nat.mod_mod, Nat.add_zero, Nat.add_mod_right]
    have hreplace : ReplaceKeeps conf env.toPageEnv (nextFirst conf c pend)
        (Exclusive conf env.toPageEnv s.held (c + pend) (c + conf.size)) := by
      rw [hfirst]
      exact Exclusive.replace
    have hfill : FillKeeps conf (nextFirst conf c pend) 0 qconf.c2hBufsz fun a =>
        Exclusive conf env.toPageEnv s.held (c + pend) a ((c + pend) / conf.bufsPerPg) := by
      rw [hfirst]
      exact Exclusive.fill rfl
    obtain ⟨rx, hrefill, hstable, hexclusive, hav⟩ := h.stable.refill hsucc (by omega) hreplace
      (by rw [hfirst, hgive]; exact fun v hv => hv) hfill h.exclusive hidx (hgive ▸ hmod)
      (by omega)
    have hframe := qdmaFlqRefill_pidxPend hrefill
    dsimp only at hframe
    rw [hfirst] at hstable hexclusive
    simp only [h.stable.fits.size]
    rw [h.start] at hrefill ⊢
    rw [h.pidxPend] at hframe ⊢
    rw [hpend, hrefill]
    exact ⟨c + pend, 0, hstable, hframe, hframe, h.pidx, by dsimp only; omega, hexclusive⟩

/-- The stack drops a buffer it holds. -/
theorem RxInv.drop (h : RxInv conf env.toPageEnv c pend s) {b : SwSg} (hb : b ∈ s.held) :
    RxInv conf env.toPageEnv c pend (rxStep env qconf s (.drop b)) := by
  have hs := h.stable
  unfold rxStep
  dsimp only
  rw [if_pos hb]
  exact ⟨⟨hs.fits, hs.alloc, hs.recycle, hs.used, hs.frontier, hs.window, hs.offset, hs.pages,
    finite_update hs.finite _ _⟩, h.start, h.pidxPend, h.pidx, h.avail, h.exclusive.drop hb⟩

/-- One step keeps the invariant. -/
theorem RxInv.step (hq : conf.Of qconf) (henv : env.Accepts) (hsucc : env.Succeeds) (s : RxState)
    (e : RxEvent) (h : ∃ c pend, RxInv conf env.toPageEnv c pend s)
    (hok : RxAllowedBehind qconf s e) :
    ∃ c pend, RxInv conf env.toPageEnv c pend (rxStep env qconf s e) := by
  obtain ⟨c, pend, hinv⟩ := h
  obtain ⟨hallowed, hbehind⟩ := hok
  cases e with
  | packet len entry => exact ⟨c, _, hinv.packet hq henv entry hallowed⟩
  | refill => exact hinv.refill hsucc (hbehind rfl)
  | drop b => exact ⟨c, pend, hinv.drop hallowed⟩

/-- The invariant holds after the setup. -/
theorem RxInv.start_inv (hsucc : env.Succeeds) {heap : PageHeap}
    (hfinite : {p | heap.refs p ≠ 0}.Finite) :
    RxInv conf env.toPageEnv 0 0 (rxStart env conf heap) := by
  have hfill : FillKeeps conf 0 0 conf.bufSize fun a =>
      Exclusive conf env.toPageEnv [] 0 a 0 :=
    Exclusive.fill (Nat.zero_div _).symm
  obtain ⟨flq, heap', hsetup, hstable, hexclusive⟩ :=
    descqFlqAllocResource_succeeds hsucc hfinite hfill fun v hv => Exclusive.start hv
  have hpos := conf.size_pos
  unfold rxStart
  rw [hsetup]
  refine ⟨hstable, (Nat.zero_mod _).symm, ?_, (Nat.zero_mod _).symm, by dsimp only; omega, ?_⟩
  · rw [Nat.zero_mod]
    exact descqFlqAllocResource_pidxPend hsetup
  · rw [Nat.zero_add, Nat.zero_add, Nat.zero_div]
    exact hexclusive

end

/-- In every run whose refills stay behind the page that buffers are cut from, the buffers of
the hardware are disjoint from each other and from those that the stack holds. -/
theorem receive_buffersDisjoint {conf : FlqConf} {qconf : C2hConf} {env : C2hEnv}
    (hq : conf.Of qconf) (henv : env.Accepts) (hsucc : env.Succeeds)
    (hmaps : env.MapsDisjoint (2 ^ conf.pgBits)) {heap : PageHeap}
    (hfinite : {p | heap.refs p ≠ 0}.Finite) {es : List RxEvent}
    (hrun : Admitted (rxStep env qconf) (RxAllowedBehind qconf) (rxStart env conf heap) es) :
    (run (rxStep env qconf) (rxStart env conf heap) es).BuffersDisjoint := by
  obtain ⟨c, pend, hinv⟩ := hrun.invariant (RxInv.step hq henv hsucc)
    ⟨0, 0, RxInv.start_inv hsucc hfinite⟩
  exact hinv.buffersDisjoint hmaps

/-! ## A ring of 64 descriptors with 16 buffers a page -/

open Classical in
/-- Pages are handed out in turn, one that is still referenced being skipped. -/
noncomputable def pagesInTurn (n : ℕ) (refs : ℕ → ℕ) : Option ℕ :=
  if refs (n + 1) = 0 then some (n + 1)
  else if h : ∃ pg, pg ≠ 0 ∧ refs pg = 0 then some h.choose else none

/-- A device with pages of 4 KiB at their own bus addresses. -/
noncomputable def env64 : C2hEnv :=
  { allocPages := pagesInTurn, dmaMapPage := fun pg => some (pg * 2 ^ 12)
    fpDescqC2hPacket := fun _ _ => 0, queueCmptCidxUpdate := fun _ => 0 }

/-- 64 descriptors with buffers of 256 bytes. -/
def ring64 : FlqConf :=
  { size := 64, shift := 8, pgBits := 12, size_pos := by decide, size_lt := by decide
    shift_le := by decide, pgBits_lt := by decide }

def conf64 : C2hConf := { rngsz := 64, rngszCmpt := 64, cmptEntryLen := 8, c2hBufsz := 256 }

theorem env64_succeeds : env64.Succeeds := by
  refine ⟨fun n refs hfinite => ?_, fun pg => by simp [env64]⟩
  have hfree : ∃ pg, pg ≠ 0 ∧ refs pg = 0 := by
    obtain ⟨pg, hpg⟩ := (hfinite.insert 0).exists_notMem
    rw [Set.mem_insert_iff, not_or] at hpg
    exact ⟨pg, hpg.1, not_not.mp hpg.2⟩
  unfold env64 pagesInTurn
  dsimp only
  by_cases hnext : refs (n + 1) = 0
  · rw [if_pos hnext]
    exact ⟨n + 1, rfl, Nat.succ_ne_zero n, hnext⟩
  · rw [if_neg hnext, dif_pos hfree]
    exact ⟨_, rfl, hfree.choose_spec⟩

theorem env64_mapsDisjoint : env64.MapsDisjoint (2 ^ ring64.pgBits) := by
  intro pg pg' mapping mapping' hne hmap hmap'
  obtain rfl : pg * 2 ^ 12 = mapping := Option.some.inj hmap
  obtain rfl : pg' * 2 ^ 12 = mapping' := Option.some.inj hmap'
  have hbits : ring64.pgBits = 12 := rfl
  unfold RangesDisjoint
  rw [hbits]
  omega

/-- A batch of five buffers is refilled, and the next one is under way. -/
theorem receive_buffersDisjoint_five :
    (run (rxStep env64 conf64) (rxStart env64 ring64 {})
      [.packet 1280 0, .refill, .packet 256 0]).BuffersDisjoint :=
  receive_buffersDisjoint ⟨rfl, rfl⟩ (fun _ _ => le_rfl) env64_succeeds env64_mapsDisjoint
    (by simp) ⟨⟨by decide +kernel, nofun⟩, ⟨trivial, fun _ => by decide +kernel⟩,
      ⟨by decide +kernel, nofun⟩, trivial⟩

/-- After a batch of five, a batch of 60 buffers reaches into the page that buffers are cut
from. Its refill cuts the buffer of descriptor 4 a second time, for descriptor 5. -/
theorem receive_shares_buffer :
    ¬ ∀ (conf : FlqConf) (qconf : C2hConf) (env : C2hEnv), conf.Of qconf → env.Accepts →
      env.Succeeds → env.MapsDisjoint (2 ^ conf.pgBits) → ∀ (heap : PageHeap),
      {p | heap.refs p ≠ 0}.Finite → ∀ es,
      Admitted (rxStep env qconf) (RxAllowed qconf) (rxStart env conf heap) es →
      (run (rxStep env qconf) (rxStart env conf heap) es).BuffersDisjoint := by
  intro h
  have hdisjoint := (h ring64 conf64 env64 ⟨rfl, rfl⟩ (fun _ _ => le_rfl) env64_succeeds
    env64_mapsDisjoint {} (by simp)
    [.packet 1280 0, .refill, .packet 15360 0, .refill]
    ⟨by decide +kernel, trivial, by decide +kernel, trivial, trivial⟩).1
  have hshared := hdisjoint 4 (by decide +kernel) 5 (by decide +kernel) (by decide)
  exact absurd hshared (by decide +kernel)

end OnicDriver.C2h
