import OnicDriver.Stream.Ring

/-!
# Requests and the bytes they are given

Every read moves bytes from the front of what is unread to the end of what the
request was given, until the request is full or nothing is unread.
-/

namespace OnicDriver.Stream

open Lib C2h
open Netdev (readMem readMem_add readMem_length)

/-- The request was given `data`, and is well formed. -/
structure Filled (req : Request) (data : List UInt8) : Prop where
  scattered : ∃ sgl : List (List UInt8), sgl.flatten.length = req.count ∧
    Scattered sgl 0 data
      { sgl := req.sgl, j := req.sgIdx, tsgoff := req.sgOffset, copied := data.length }
  bound : req.count < 2 ^ 32
  copies : req.noMemcpy = false

section

variable {req : Request} {data : List UInt8}

/-- A new request. -/
theorem Filled.new (htotal : req.sgl.flatten.length = req.count) (hbound : req.count < 2 ^ 32)
    (hcopies : req.noMemcpy = false) (hidx : req.sgIdx = 0) (hoff : req.sgOffset = 0) :
    Filled req [] := by
  refine ⟨⟨req.sgl, htotal, ?_⟩, hbound, hcopies⟩
  rw [hidx, hoff]
  exact Scattered.none (AtOffset.zero _)

theorem Filled.filled_eq (h : Filled req data) : req.filled = data.length := by
  obtain ⟨sgl, -, hscattered⟩ := h.scattered
  have hcursor := hscattered.cursor
  rw [Nat.zero_add] at hcursor
  exact hcursor

theorem Filled.got_eq (h : Filled req data) : req.got = data := by
  obtain ⟨sgl, -, hscattered⟩ := h.scattered
  have hflat : req.sgl.flatten = overwrite sgl.flatten 0 data := hscattered.flatten
  have htake : (overwrite sgl.flatten 0 data).take (0 + data.length) =
      sgl.flatten.take 0 ++ data := take_overwrite (Nat.zero_le _)
  unfold Request.got
  rw [h.filled_eq, hflat]
  rw [Nat.zero_add] at htake
  rw [htake, List.take_zero, List.nil_append]

theorem Filled.le (h : Filled req data) : data.length ≤ req.count := by
  obtain ⟨sgl, htotal, hscattered⟩ := h.scattered
  have hfits := hscattered.fits
  omega

/-- A request that is not full has an element to go on with. -/
theorem Filled.sgIdx_lt (h : Filled req data) (hmore : data.length < req.count) :
    req.sgIdx < req.sgl.length := by
  obtain ⟨sgl, htotal, hscattered⟩ := h.scattered
  have hcursor := hscattered.cursor
  have hlen := length_flatten_congr hscattered.lengths
  have hinside := hscattered.inside
  by_contra hge
  dsimp only at hcursor hlen hinside
  rw [List.drop_of_length_le (by omega)] at hinside
  rw [List.take_of_length_le (by omega), hlen] at hcursor
  have hzero : req.sgOffset = 0 := hinside
  omega

end

/-- Only the free list and the posted index differ. -/
def OnlyRing (q q' : C2hQueue) : Prop :=
  q' = { q with rx := q'.rx, pidxInfoPidx := q'.pidxInfoPidx }

theorem OnlyRing.refl (q : C2hQueue) : OnlyRing q q := rfl

theorem OnlyRing.trans {q₁ q₂ q₃ : C2hQueue} (h : OnlyRing q₁ q₂) (h' : OnlyRing q₂ q₃) :
    OnlyRing q₁ q₃ := by
  unfold OnlyRing at h h' ⊢
  rw [h', h]

theorem OnlyRing.pidx {q q' : C2hQueue} (h : OnlyRing q q') : q'.pidx = q.pidx := by
  unfold OnlyRing at h
  exact (congrArg C2hQueue.pidx h :)

/-- The descriptors from number `p` on are the same, up to a lap after number `r`. -/
def SameLater (size r p : ℕ) (q q' : C2hQueue) : Prop :=
  ∀ b, p ≤ b → b < r + size → q'.rx.flq.sdesc (b % size) = q.rx.flq.sdesc (b % size)

theorem SameLater.refl (size r p : ℕ) (q : C2hQueue) : SameLater size r p q q := fun _ _ _ => rfl

theorem SameLater.trans {size r r' p : ℕ} {q₁ q₂ q₃ : C2hQueue} (h : SameLater size r p q₁ q₂)
    (h' : SameLater size r' p q₂ q₃) (hr : r ≤ r') : SameLater size r p q₁ q₃ :=
  fun b hb hbs => (h' b hb (by omega)).trans (h b hb hbs)

/-- A read gave the request `more`, from buffer `r₀` up to buffer `r`, and changed nothing else. -/
structure Took (flqConf : FlqConf) (conf : C2hConf) (env : PageEnv) (dst : ℕ → ℕ)
    (mem : ℕ → UInt8) (c r₀ r p : ℕ) (data more : List UInt8) (q q' : C2hQueue)
    (req req' : Request) : Prop where
  le : r₀ ≤ r
  later : SameLater flqConf.size r₀ p q q'
  ring : RingAt flqConf conf env dst c r p q'.rx
  pend : q'.rx.flq.pidxPend = r % flqConf.size
  rest : OnlyRing q q'
  unread : unread env mem q = more ++ unread env mem q'
  filled : Filled req' (data ++ more)
  left : req'.left = u32 (req.left - more.length)
  same : req' = { req with
    sgl := req'.sgl, sgIdx := req'.sgIdx, sgOffset := req'.sgOffset, left := req'.left }
  ended : data.length + more.length = req.count ∨ Stream.unread env mem q' = []

section

variable {flqConf : FlqConf} {conf : C2hConf} {env : PageEnv} {dst : ℕ → ℕ} {c r p : ℕ}
  {q : C2hQueue} {mem : ℕ → UInt8} {req : Request} {data : List UInt8}

/-- The buffers after those read up were recycled. -/
theorem RingAt.recycleRead {rx : FlqState} (h : RingAt flqConf conf env dst c r p rx)
    {refill : Bool} (hrefill : refill = true → c = r) {i : ℕ} (hi : r + i ≤ p) :
    ∃ rx', (if refill = true ∧ i ≠ 0 then recycle conf (r % flqConf.size) i rx else rx) = rx' ∧
      RingAt flqConf conf env dst (if refill then r + i else c) (r + i) p rx' ∧
      ∀ b, r + i ≤ b → b < r + flqConf.size →
        rx'.flq.sdesc (b % flqConf.size) = rx.flq.sdesc (b % flqConf.size) := by
  have hroom := h.room
  have hmono := h.mono (Nat.le_add_right r i) hi
  by_cases hrec : refill = true ∧ i ≠ 0
  · have htrue := hrec.1
    obtain rfl := hrefill htrue
    obtain ⟨hring, hsdesc⟩ := hmono.recycled le_rfl
    rw [if_pos hrec, if_pos htrue]
    exact ⟨_, rfl, hring, hsdesc⟩
  · rw [if_neg hrec]
    refine ⟨rx, rfl, ?_, fun _ _ _ => rfl⟩
    split
    · rename_i htrue
      have hzero : i = 0 := by
        by_contra hne
        exact hrec ⟨htrue, hne⟩
      rw [hzero, Nat.add_zero]
      have := hrefill htrue
      subst this
      exact h
    · exact hmono

/-- The buffers after one of them was read in part. -/
theorem RingAt.advanceRead {rx : FlqState} (h : RingAt flqConf conf env dst c r p rx)
    (mem : ℕ → UInt8) {foff : ℕ}
    (hfoff : foff ≠ 0 → r < p ∧ foff < (rx.flq.sdesc (r % flqConf.size)).len) :
    ∃ flq', (if foff ≠ 0 then advance rx.flq (r % flqConf.size) foff else rx.flq) = flq' ∧
      RingAt flqConf conf env dst c r p { rx with flq := flq' } ∧
      (∀ b, p ≤ b → b < r + flqConf.size →
        flq'.sdesc (b % flqConf.size) = rx.flq.sdesc (b % flqConf.size)) ∧
      bufs env mem flqConf.size rx.flq.sdesc r (p - r) =
        (bufAt env mem flqConf.size rx.flq.sdesc r).take foff ++
          bufs env mem flqConf.size flq'.sdesc r (p - r) := by
  have hroom := h.room
  have hgiven := h.given
  by_cases hzero : foff = 0
  · rw [if_neg (by simp [hzero])]
    refine ⟨rx.flq, rfl, h, fun _ _ _ => rfl, ?_⟩
    rw [hzero, List.take_zero, List.nil_append]
  · obtain ⟨hrp, hlt⟩ := hfoff hzero
    rw [if_pos hzero]
    refine ⟨_, rfl, h.advanced hrp hlt.le, fun b hb hbs => Function.update_of_ne (fun heq => ?_) ..,
      bufs_advance (by omega) (by omega) hlt.le⟩
    have := eq_of_mod_eq (r := r) (by omega) hbs le_rfl (by omega) heq
    omega

/-- `descq_st_c2h_read`. -/
theorem RingAt.readRequest (hconf : StreamsOn flqConf conf)
    (h : RingAt flqConf conf env dst c r p q.rx) (mem : ℕ → UInt8)
    (hpend : q.rx.flq.pidxPend = r % flqConf.size)
    (hpidx : q.pidx = p % flqConf.size) (hreq : Filled req data)
    (hmore : req.sgIdx = 0 ∨ data.length < req.count) (hleft : req.left < 2 ^ 32)
    (updatePidx refill : Bool) (hrefill : refill = true → c = r) :
    ∃ r' more rv q' req', descqStC2hRead env conf mem req updatePidx refill q = (rv, q', req') ∧
      0 ≤ rv ∧ Took flqConf conf env dst mem (if refill then r' else c) r r' p data more q q' req
        req' := by
  have hpos := flqConf.size_pos
  have hread := h.read
  have hroom := h.room
  have hgiven := h.given
  have hunread := h.unread_eq mem hpend hpidx
  have hdelta : ringIdxDelta q.pidx q.rx.flq.pidxPend q.rx.flq.size = p - r := by
    have hsum : p = r + (p - r) := by omega
    rw [hpidx, hpend, h.size]
    conv_lhs => rw [hsum]
    exact ringIdxDelta_mod r (by omega)
  unfold descqStC2hRead
  dsimp only
  rw [hdelta]
  by_cases hnone : p - r = 0
  · rw [if_pos hnone]
    rw [hnone, bufs_zero] at hunread
    refine ⟨r, [], 0, q, req, rfl, le_rfl, le_rfl, SameLater.refl _ _ _ _, ?_, hpend, rfl, ?_, ?_,
      ?_,
      rfl, Or.inr hunread⟩
    · split
      · rename_i htrue
        have := hrefill htrue
        subst this
        exact h
      · exact h
    · rfl
    · rw [List.append_nil]
      exact hreq
    · unfold u32
      simp only [List.length_nil]
      omega
  · have hidx : ¬(req.sgIdx ≠ 0 ∧ req.sgl.length ≤ req.sgIdx) := by
      rintro ⟨hne, hge⟩
      rcases hmore with hzero | hlt
      · exact hne hzero
      · exact absurd (hreq.sgIdx_lt hlt) (by omega)
    obtain ⟨sgl, htotal, hscattered⟩ := hreq.scattered
    have hcursor := hscattered.cursor
    have hlens := length_flatten_congr hscattered.lengths
    dsimp only at hcursor hlens
    have hemptied := readBufs_emptied env mem q.rx.flq.sdesc hpos
      hscattered.inside r (p - r)
    rw [if_neg hnone, if_neg hidx, hreq.copies, hpend, hconf.rngsz, h.size]
    dsimp only at hemptied
    generalize readBufs env false mem flqConf.size q.rx.flq.sdesc (p - r) (r % flqConf.size)
      (req.sgl.drop req.sgIdx) req.sgOffset = out at *
    have hle := hemptied.le
    obtain ⟨rx₁, hrx₁, hring₁, hsdesc₁⟩ := h.recycleRead hrefill (i := out.i) (by omega)
    have hfoff : out.foff ≠ 0 →
        r + out.i < p ∧ out.foff < (rx₁.flq.sdesc ((r + out.i) % flqConf.size)).len := by
      intro hne
      obtain ⟨hlt, hlen⟩ := hemptied.foff hne
      rw [hsdesc₁ _ le_rfl (by omega)]
      exact ⟨by omega, hlen⟩
    obtain ⟨flq₂, hflq₂, hring₂, hlater₂, hbufs₂⟩ := hring₁.advanceRead mem hfoff
    have hnext : ringIdxIncr (r % flqConf.size) out.i flqConf.size =
        (r + out.i) % flqConf.size := ringIdxIncr_mod r hpos (by omega)
    rw [hrx₁, hnext, hflq₂]
    have hsame : bufs env mem flqConf.size rx₁.flq.sdesc (r + out.i) (p - (r + out.i)) =
        bufs env mem flqConf.size q.rx.flq.sdesc (r + out.i) (p - (r + out.i)) :=
      bufs_congr fun i hi => hsdesc₁ _ (by omega) (by omega)
    have hpart : (bufAt env mem flqConf.size rx₁.flq.sdesc (r + out.i)).take out.foff =
        (bufAt env mem flqConf.size q.rx.flq.sdesc (r + out.i)).take out.foff := by
      by_cases hzero : out.foff = 0
      · rw [hzero, List.take_zero, List.take_zero]
      · unfold bufAt
        rw [hsdesc₁ _ le_rfl (by have := (hfoff hzero).1; omega)]
    have hcount : p - r = out.i + (p - (r + out.i)) := by omega
    have hmoved := hemptied.scattered
    rw [hsame, hpart] at hbufs₂
    obtain ⟨more, hdata⟩ : ∃ more, bufs env mem flqConf.size q.rx.flq.sdesc r out.i ++
      (bufAt env mem flqConf.size q.rx.flq.sdesc (r + out.i)).take out.foff = more := ⟨_, rfl⟩
    rw [hdata] at hmoved
    have hcopied : out.copied = more.length := hmoved.copied
    refine ⟨r + out.i, more, out.copied, _, _, rfl, by omega, Nat.le_add_right _ _, ?_,
      hring₂.setPend _ _, rfl, rfl, ?_, ?_, ?_, ?_, ?_⟩
    · exact fun b hb hbs => (hlater₂ b hb (by omega)).trans (hsdesc₁ b (by omega) hbs)
    · rw [hunread, hcount, bufs_add, hbufs₂, ← List.append_assoc, hdata]
      congr 1
      symm
      apply RingAt.unread_eq (hring₂.setPend _ _) mem
      · rfl
      · exact hpidx
    · have hboth := hscattered.trans hmoved
      refine ⟨⟨sgl, htotal, ?_⟩, hreq.bound, rfl⟩
      rw [hcopied, ← List.length_append] at hboth
      exact hboth
    · rw [hcopied]
    · rw [hreq.copies]
    · have hsplit : (req.sgl.take req.sgIdx).flatten.length +
          (req.sgl.drop req.sgIdx).flatten.length = req.sgl.flatten.length := by
        rw [← List.length_append, ← List.flatten_append, List.take_append_drop]
      rcases hemptied.ended with hfull | ⟨hi, -⟩
      · left
        omega
      · right
        have hzero : p - (r + out.i) = 0 := by omega
        rw [RingAt.unread_eq (hring₂.setPend _ _) mem ?_ ?_, hzero, bufs_zero]
        · rfl
        · exact hpidx

/-! ## The requests of a queue -/

/-- A request that waits for the rest of its bytes. -/
structure Waits (cb : Request) : Prop where
  filled : Filled cb cb.got
  left : cb.left + cb.got.length = cb.count
  pos : 0 < cb.left
  offset : cb.offset = 0

/-- The requests of the list wait, and only the first was given bytes so far. -/
structure Queued (pend : List Request) : Prop where
  waits : ∀ cb ∈ pend, Waits cb
  tail : ∀ cb ∈ pend.tail, cb.got = []

theorem Queued.cons {cb : Request} {pend : List Request} (h : Queued (cb :: pend)) :
    Waits cb ∧ Queued pend ∧ pend.flatMap Request.got = [] := by
  refine ⟨h.waits cb List.mem_cons_self, ⟨?_, ?_⟩, ?_⟩
  · exact fun cb' hcb' => h.waits cb' (List.mem_cons_of_mem _ hcb')
  · exact fun cb' hcb' => h.tail cb' (List.mem_of_mem_tail hcb')
  · rw [List.flatMap_eq_nil_iff]
    exact h.tail

/-- A read for a request that waits. -/
theorem RingAt.readWaits (hconf : StreamsOn flqConf conf)
    (h : RingAt flqConf conf env dst c r p q.rx) (mem : ℕ → UInt8)
    (hpend : q.rx.flq.pidxPend = r % flqConf.size)
    (hpidx : q.pidx = p % flqConf.size) {cb : Request} (hcb : Waits cb) :
    ∃ r' rv q' cb', descqStC2hRead env conf mem cb false false q = (rv, q', cb') ∧ 0 ≤ rv ∧
      r ≤ r' ∧ SameLater flqConf.size r p q q' ∧
      RingAt flqConf conf env dst c r' p q'.rx ∧ q'.rx.flq.pidxPend = r' % flqConf.size ∧
      OnlyRing q q' ∧ Filled cb' cb'.got ∧ cb'.left + cb'.got.length = cb'.count ∧
      cb'.offset = 0 ∧ cb.got ++ unread env mem q = cb'.got ++ unread env mem q' ∧
      (cb'.left ≠ 0 → unread env mem q' = []) := by
  have hleft := hcb.left
  have hpos := hcb.pos
  have hbound := hcb.filled.bound
  obtain ⟨r', more, rv, q', cb', hread, hrv, htook⟩ := h.readRequest hconf mem hpend hpidx
    hcb.filled (Or.inr (by omega)) (by omega) false false (fun hf => by cases hf)
  have hgot := htook.filled.got_eq
  have hlen := congrArg List.length hgot
  have hle := htook.filled.le
  have hcount : cb'.count = cb.count := (congrArg Request.count htook.same :)
  have hnew : cb'.left = cb.left - more.length := by
    rw [htook.left]
    unfold u32
    rw [List.length_append] at hle
    omega
  rw [List.length_append] at hle hlen
  refine ⟨r', rv, q', cb', hread, hrv, htook.le, htook.later, htook.ring, htook.pend, htook.rest,
    ?_, by omega, ?_, ?_, ?_⟩
  · rw [hgot]
    exact htook.filled
  · exact (congrArg Request.offset htook.same :).trans hcb.offset
  · rw [htook.unread, hgot, List.append_assoc]
  · intro hne
    exact htook.ended.resolve_left (by omega)

/-- What the caller of a full request is told. -/
theorem qdmaSgtReqDone_right {cb : Request} (hfilled : Filled cb cb.got) (hleft : cb.left = 0)
    (hfull : cb.got.length = cb.count) (hoffset : cb.offset = 0) :
    (qdmaSgtReqDone cb 0).Right ↔ (qdmaSgtReqDone cb 0).Kept := by
  have hbound := hfilled.bound
  unfold qdmaSgtReqDone Read.Right Read.Kept
  by_cases hdone : cb.fpDone = true
  · simp [hdone, hoffset, hfull, eq_comm]
  · have hcount : (u32 ((cb.count : ℤ) - cb.left) : ℤ) = cb.count := by
      rw [hleft]
      unfold u32
      omega
    simp [hdone, hfull, hcount]

/-- `qdma_c2h_packets_proc_dflt` moves what is unread to the requests of the list, in order. -/
theorem RingAt.packetsProc (hconf : StreamsOn flqConf conf) {pend : List Request}
    (h : RingAt flqConf conf env dst c r p q.rx) (mem : ℕ → UInt8)
    (hpend : q.rx.flq.pidxPend = r % flqConf.size)
    (hpidx : q.pidx = p % flqConf.size) (hwait : Queued pend) :
    ∃ r' reads pend' q', qdmaC2hPacketsProcDflt env conf mem pend q = (reads, pend', q') ∧
      r ≤ r' ∧ SameLater flqConf.size r p q q' ∧
      RingAt flqConf conf env dst c r' p q'.rx ∧ q'.rx.flq.pidxPend = r' % flqConf.size ∧
      OnlyRing q q' ∧ Queued pend' ∧ (∀ rd ∈ reads, rd.Right ↔ rd.Kept) ∧
      pend.flatMap Request.got ++ unread env mem q =
        (reads.map Read.req ++ pend').flatMap Request.got ++ unread env mem q' ∧
      (pend' ≠ [] → unread env mem q' = []) := by
  induction pend generalizing r q with
  | nil =>
    exact ⟨r, [], [], q, rfl, le_rfl, SameLater.refl _ _ _ _, h, hpend, OnlyRing.refl q, hwait,
      nofun,
      rfl, fun hne => absurd rfl hne⟩
  | cons cb pend ih =>
    obtain ⟨hcb, hrest, hnone⟩ := hwait.cons
    obtain ⟨r₁, rv, q₁, cb₁, hread, hrv, hle₁, hlater₁, hring₁, hpend₁, honly, hfilled, hleft,
      hoffset, hmoved, hended⟩ := h.readWaits hconf mem hpend hpidx hcb
    unfold qdmaC2hPacketsProcDflt
    rw [if_neg hcb.pos.ne', hread]
    dsimp only
    rw [if_neg (not_lt.mpr hrv), List.flatMap_cons, hnone, List.append_nil, hmoved]
    by_cases hdone : cb₁.left = 0
    · rw [if_pos hdone]
      obtain ⟨r', reads, pend', q', hproc, hle', hlater', hring', hpend', honly', hwait', hright,
        hinOrder, hdrained⟩ := ih hring₁ hpend₁ (honly.pidx.trans hpidx) hrest
      rw [hnone, List.nil_append] at hinOrder
      rw [hproc]
      have hreq : (qdmaSgtReqDone cb₁ 0).req = cb₁ := by
        unfold qdmaSgtReqDone
        split <;> rfl
      refine ⟨r', _, pend', q', rfl, hle₁.trans hle', hlater₁.trans hlater' hle₁, hring', hpend',
        honly.trans honly', hwait', ?_, ?_, hdrained⟩
      · intro rd hrd
        rcases List.mem_cons.mp hrd with rfl | hmem
        · exact qdmaSgtReqDone_right hfilled hdone (by omega) hoffset
        · exact hright rd hmem
      · rw [List.map_cons, List.cons_append, List.flatMap_cons, hreq, List.append_assoc, hinOrder]
    · rw [if_neg hdone]
      refine ⟨r₁, [], cb₁ :: pend, q₁, rfl, hle₁, hlater₁, hring₁, hpend₁, honly, ⟨?_, ?_⟩, nofun,
        ?_, fun _ => hended hdone⟩
      · intro cb' hcb'
        rcases List.mem_cons.mp hcb' with rfl | hmem
        · exact ⟨hfilled, hleft, Nat.pos_of_ne_zero hdone, hoffset⟩
        · exact hrest.waits cb' hmem
      · exact List.flatMap_eq_nil_iff.mp hnone
      · rw [List.map_nil, List.nil_append, List.flatMap_cons, hnone, List.append_nil]

end

end OnicDriver.Stream
