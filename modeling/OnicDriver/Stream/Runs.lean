import OnicDriver.Stream.Processing

/-!
# Whole runs of a streaming queue

The invariant of a run: the packets whose entries were processed are what the
reads, the waiting requests and the buffers hold, and those that were received
since are at the next buffers, announced by the next entries of the completion
ring.
-/

namespace OnicDriver.Stream

open Lib C2h
open Netdev (readMem)

/-- A run after the packets `done` were processed and those of `out` received. -/
structure StreamInv (flqConf : FlqConf) (conf : C2hConf) (env : PageEnv) (dst : ℕ → ℕ) (r p : ℕ)
    (done : List (List UInt8)) (out : List (ℕ × List UInt8)) (s : StreamRun) : Prop where
  queue : QueueAt flqConf conf env dst s.mem r p done.flatten s.sq
  cursor : s.sq.q = s.sq.q.atEntry conf done.length
  err : s.sq.q.err = false
  carries : ∀ x ∈ out, Carries conf flqConf.shift x
  ring : Pending conf s.ring done.length (out.map Prod.fst)
  landed : Landed s.mem dst (fun i => pageAddress env (s.sq.q.rx.flq.sdesc i)) flqConf.size p
    (partsOf conf out)
  room : p + (partsOf conf out).length < r + flqConf.size
  few : out.length < conf.rngszCmpt
  csPidx : s.csPidx = (done.length + out.length) % conf.rngszCmpt
  hwColor : s.hwColor = lapColor conf.rngszCmpt (done.length + out.length)
  hwIdx : s.hwIdx = (p + (partsOf conf out).length) % flqConf.size
  received : s.received = done ++ out.map Prod.snd

section

variable {flqConf : FlqConf} {conf : C2hConf} {env : PageEnv} {dst : ℕ → ℕ} {r p : ℕ}
  {done : List (List UInt8)} {out : List (ℕ × List UInt8)} {s : StreamRun}

/-! ## What the hardware sees -/

theorem StreamInv.pending (h : StreamInv flqConf conf env dst r p done out s) :
    s.pending conf = out.length := by
  have hcidx : s.sq.q.cidxCmpt = done.length % conf.rngszCmpt :=
    congrArg C2hQueue.cidxCmpt h.cursor
  unfold StreamRun.pending
  rw [hcidx, h.csPidx]
  exact ringIdxDelta_mod done.length h.few

theorem StreamInv.processed (h : StreamInv flqConf conf env dst r p done out s) :
    s.processed conf = done := by
  unfold StreamRun.processed
  rw [h.pending, h.received, List.length_append, List.length_map, Nat.add_sub_cancel,
    List.take_left' rfl]

theorem StreamInv.inUse (h : StreamInv flqConf conf env dst r p done out s) :
    s.inUse = p + (partsOf conf out).length - r := by
  have hread := h.queue.ring.read
  have hroom := h.room
  have hsum : p + (partsOf conf out).length = r + (p + (partsOf conf out).length - r) := by omega
  unfold StreamRun.inUse
  rw [h.hwIdx, h.queue.pend, h.queue.ring.size]
  conv_lhs => rw [hsum]
  exact ringIdxDelta_mod r (by omega)

/-- The conservation of the bytes. -/
theorem StreamInv.inOrder {env : C2hEnv}
    (h : StreamInv flqConf conf env.toPageEnv dst r p done out s) : s.InOrder env conf := by
  unfold StreamRun.InOrder
  rw [h.processed]
  exact ⟨h.queue.inOrder, h.queue.drained⟩

/-! ## A packet arrives -/

/-- What the hardware writes into the buffers it owns is not what the driver reads. -/
theorem RingAt.unread_dmaWrite {q : C2hQueue} {c : ℕ}
    (h : RingAt flqConf conf env dst c r p q.rx) (mem : ℕ → UInt8)
    (hpend : q.rx.flq.pidxPend = r % flqConf.size)
    (hpidx : q.pidx = p % flqConf.size) {b : ℕ} (hb : p ≤ b) {parts : List (List UInt8)}
    (hroom : b + parts.length ≤ c + flqConf.size)
    (hlen : ∀ part ∈ parts, part.length ≤ flqConf.bufSize)
    (hdisjoint : ∀ i < flqConf.size, ∀ j < flqConf.size, i ≠ j →
      RangesDisjoint flqConf.bufSize (dst i) (dst j)) :
    unread env (dmaWrite flqConf.size dst (b % flqConf.size) parts mem) q = unread env mem q := by
  have hgiven := h.given
  have hread := h.read
  rw [h.unread_eq _ hpend hpidx, h.unread_eq _ hpend hpidx]
  unfold bufs bufAt
  refine List.flatMap_congr fun i hi => ?_
  have hlt := List.mem_range.mp hi
  rcases h.inside (r + i) (by omega) (by omega) with hzero | ⟨hlow, hhigh⟩
  · rw [hzero]
    rfl
  · refine readMem_dmaWrite_of_disjoint flqConf.bufSize flqConf.size_pos hlen fun k hk => ?_
    have hne : (r + i) % flqConf.size ≠ (b + k) % flqConf.size := by
      intro heq
      have := eq_of_mod_eq (r := c) (by omega) (by omega) (by omega) (by omega) heq
      omega
    have hranges := hdisjoint _ (Nat.mod_lt (r + i) flqConf.size_pos) _
      (Nat.mod_lt (b + k) flqConf.size_pos) hne
    unfold RangesDisjoint at hranges
    omega

/-- An entry that announces a packet. -/
theorem Announces.accepts {payload : List UInt8} {color : Bool} {entry : ℕ}
    (h : Announces conf payload color entry) :
    ∃ cmpl, conf.accepts entry = some cmpl ∧ cmpl.descUsed = true ∧
      cmpl.len = payload.length ∧ cmpl.color = color := by
  unfold Announces at h
  obtain ⟨cmpl, haccepts, heq⟩ := Option.map_eq_some_iff.mp h
  obtain ⟨hused, hrest⟩ := Prod.mk.inj heq
  obtain ⟨hlen, hcolor⟩ := Prod.mk.inj hrest
  exact ⟨cmpl, haccepts, hused, hlen, hcolor⟩

/-- Where a packet lands, the descriptors refer to the beginning of the buffer. -/
theorem StreamInv.landing {env : C2hEnv}
    (h : StreamInv flqConf conf env.toPageEnv dst r p done out s) {payload : List UInt8}
    {entry : ℕ} (hkept : StreamKept env conf s (.receive payload entry))
    (hfit : (blocksOf conf.c2hBufsz payload).length ≤ flqConf.size) {k : ℕ} {part : List UInt8}
    (hk : (blocksOf conf.c2hBufsz payload)[k]? = some part) (hne : part ≠ []) :
    pageAddress env.toPageEnv
        (s.sq.q.rx.flq.sdesc ((p + (partsOf conf out).length + k) % flqConf.size)) =
      dst ((p + (partsOf conf out).length + k) % flqConf.size) := by
  obtain ⟨hlt, -⟩ := List.getElem?_eq_some_iff.mp hk
  rcases hkept with hnil | hstart
  · rw [getElem?_blocksOf hlt, hnil, List.drop_nil, List.take_nil] at hk
    exact absurd (Option.some.inj hk).symm hne
  · have hindex : ringIdxIncr s.hwIdx k flqConf.size =
        (p + (partsOf conf out).length + k) % flqConf.size := by
      rw [h.hwIdx]
      exact ringIdxIncr_mod _ flqConf.size_pos (by omega)
    have hat := hstart ((p + (partsOf conf out).length + k) % flqConf.size) (by
      unfold StreamRun.landing
      rw [h.queue.ring.size]
      exact List.mem_map.mpr ⟨k, List.mem_range.mpr hlt, hindex⟩)
    rw [h.queue.ring.dstAddr] at hat
    exact hat

/-- A packet that arrives. -/
theorem StreamInv.receive {env : C2hEnv} (hconf : StreamsOn flqConf conf)
    (hdisjoint : ∀ i < flqConf.size, ∀ j < flqConf.size, i ≠ j →
      RangesDisjoint flqConf.bufSize (dst i) (dst j))
    (h : StreamInv flqConf conf env.toPageEnv dst r p done out s) {payload : List UInt8}
    {entry : ℕ} (hallowed : StreamAllowed conf s (.receive payload entry))
    (hkept : StreamKept env conf s (.receive payload entry)) :
    StreamInv flqConf conf env.toPageEnv dst r p done (out ++ [(entry, payload)])
      (streamStep env conf s (.receive payload entry)) := by
  obtain ⟨hpending, hannounces, hnumber, hinUse⟩ := hallowed
  have hpos := flqConf.size_pos
  have hread := h.queue.ring.read
  have hone : 1 ≤ conf.rngszCmpt := hconf.rngszCmpt_pos
  rw [h.pending] at hpending
  rw [h.inUse, h.queue.ring.size] at hinUse
  obtain ⟨cmpl, haccepts, hused, hlength, hcolor⟩ := hannounces.accepts
  unfold flNr at hnumber
  rw [h.queue.ring.shift] at hnumber
  have hlast : partsOf conf (out ++ [(entry, payload)]) =
      partsOf conf out ++ blocksOf conf.c2hBufsz payload := by
    unfold partsOf
    rw [List.flatMap_append, List.flatMap_singleton]
  have hcount : (out ++ [(entry, payload)]).length = out.length + 1 := by
    rw [List.length_append, List.length_singleton]
  have hbufs : ∀ out' : List (ℕ × List UInt8), ∀ part ∈ partsOf conf out',
      part.length ≤ flqConf.bufSize := by
    intro out' part hpart
    obtain ⟨x, -, hx⟩ := List.mem_flatMap.mp hpart
    exact (length_le_of_mem_blocksOf hx).trans hconf.c2hBufsz_le
  have hnew : ∀ part ∈ blocksOf conf.c2hBufsz payload, part.length ≤ flqConf.bufSize :=
    fun part hpart => (length_le_of_mem_blocksOf hpart).trans hconf.c2hBufsz_le
  have hunread := h.queue.ring.unread_dmaWrite s.mem h.queue.pend h.queue.pidx
    (Nat.le_add_right p (partsOf conf out).length) (by omega) hnew hdisjoint
  have hmem : dmaWrite s.sq.q.rx.flq.size s.sq.q.rx.flq.dstAddr s.hwIdx
      (blocksOf conf.c2hBufsz payload) s.mem = dmaWrite flqConf.size dst
        ((p + (partsOf conf out).length) % flqConf.size) (blocksOf conf.c2hBufsz payload)
        s.mem := by
    rw [h.queue.ring.size, h.queue.ring.dstAddr, h.hwIdx]
  have hnext : ringIdxIncr s.csPidx 1 conf.rngszCmpt =
      (done.length + (out.length + 1)) % conf.rngszCmpt := by
    rw [h.csPidx, ringIdxIncr_mod _ hconf.rngszCmpt_pos hone, Nat.add_assoc]
  unfold streamStep
  dsimp only
  rw [hmem, hnext]
  refine ⟨?_, h.cursor, h.err, ?_, ?_, ?_, ?_, ?_, ?_, ?_, ?_, ?_⟩
  · have hinOrder := h.queue.inOrder
    have hdrained := h.queue.drained
    rw [← hunread] at hinOrder hdrained
    exact ⟨h.queue.ring, h.queue.pend, h.queue.pidx, h.queue.requests, h.queue.right, hinOrder,
      hdrained⟩
  · intro x hx
    rcases List.mem_append.mp hx with hold | hlast
    · exact h.carries x hold
    · rw [List.mem_singleton.mp hlast]
      exact ⟨⟨cmpl, haccepts, hused, hlength⟩, hnumber⟩
  · have hlen : (out.map Prod.fst).length = out.length := List.length_map ..
    have hwrite := h.ring.write hconf.cmptEntryLen_pos (e := entry) (by omega) (by
      intro cmpl' haccepts'
      rw [haccepts] at haccepts'
      obtain rfl := Option.some.inj haccepts'
      rw [hcolor, h.hwColor, hlen])
    rw [hlen] at hwrite
    rw [h.csPidx, List.map_append, List.map_singleton]
    exact hwrite
  · rw [hlast, landed_append]
    refine ⟨?_, ?_⟩
    · exact h.landed.dmaWrite hpos le_rfl (by omega) (hbufs out) hnew hdisjoint
    · exact landed_dmaWrite hpos hnew (by omega) hdisjoint fun k part hk hne =>
        h.landing hkept (by omega) hk hne
  · rw [hlast, List.length_append]
    omega
  · omega
  · rw [hcount]
  · rw [hcount, ← Nat.add_assoc, lapColor_succ hconf.rngszCmpt_pos, ← h.csPidx, ← h.hwColor]
  · rw [hlast, List.length_append, h.hwIdx, h.queue.ring.size,
      ringIdxIncr_mod _ hpos (by omega), Nat.add_assoc]
  · dsimp only
    rw [h.received, List.map_append, List.map_singleton, List.append_assoc]

/-! ## A call -/

/-- Completions that are processed. -/
theorem StreamInv.process {env : C2hEnv} (hconf : StreamsOn flqConf conf)
    (h : StreamInv flqConf conf env.toPageEnv dst r p done out s) (budget : ℕ) (updCmpl : Bool) :
    ∃ r' p' done' out', StreamInv flqConf conf env.toPageEnv dst r' p' done' out'
      (streamStep env conf s (.process budget updCmpl)) := by
  obtain ⟨r', hr, k, hk, sq', hprocess, hqueue, hcursor, herr, haddr⟩ := h.queue.process hconf
    h.cursor h.err h.carries h.ring h.landed h.room h.few budget updCmpl
  have hparts : partsOf conf out = partsOf conf (out.take k) ++ partsOf conf (out.drop k) := by
    unfold partsOf
    rw [← List.flatMap_append, List.take_append_drop]
  have hlen : (out.take k).length = k := List.length_take_of_le hk
  have hsum : p + (partsOf conf out).length =
      p + (partsOf conf (out.take k)).length + (partsOf conf (out.drop k)).length := by
    rw [hparts, List.length_append, Nat.add_assoc]
  have hdone : (done ++ (out.take k).map Prod.snd).length = done.length + k := by
    rw [List.length_append, List.length_map, hlen]
  have hcount : done.length + k + (out.drop k).length = done.length + out.length := by
    rw [List.length_drop]
    omega
  have hroom := h.room
  have hlanded := h.landed
  rw [hparts, landed_append] at hlanded
  have hring := h.ring.drop k
  rw [← List.map_drop] at hring
  unfold streamStep
  dsimp only
  rw [h.csPidx, hprocess]
  refine ⟨r', p + (partsOf conf (out.take k)).length, done ++ (out.take k).map Prod.snd,
    out.drop k, ?_, ?_, herr,
    fun x hx => h.carries x (List.mem_of_mem_drop hx), ?_, ?_, ?_, ?_, ?_, ?_, ?_, ?_⟩
  · rw [List.flatten_append]
    exact hqueue
  · rw [hdone]
    exact hcursor
  · rw [hdone]
    exact hring
  · exact hlanded.2.congr_addr fun i hi => haddr _ (by omega) (by omega)
  · omega
  · have hfew := h.few
    rw [List.length_drop]
    omega
  · rw [hdone, hcount]
  · rw [hdone, hcount]
    exact h.hwColor
  · rw [← hsum]
    exact h.hwIdx
  · rw [List.append_assoc, ← List.map_append, List.take_append_drop]
    exact h.received

/-- A call of the upper layer, which leaves the hardware's side of the queue. -/
theorem StreamInv.call (h : StreamInv flqConf conf env dst r p done out s) {r' : ℕ} (hr : r ≤ r')
    {sq : StreamQueue} (hqueue : QueueAt flqConf conf env dst s.mem r' p done.flatten sq)
    (hahead : SameAhead flqConf.size r p s.sq.q sq.q) :
    StreamInv flqConf conf env dst r' p done out { s with sq := sq } := by
  have hroom := h.room
  refine ⟨hqueue, hahead.atEntry h.cursor, hahead.err.trans h.err, h.carries, h.ring, ?_, by omega,
    h.few, h.csPidx, h.hwColor, h.hwIdx, h.received⟩
  refine h.landed.congr_addr fun i hi => ?_
  have hsame := hahead.later (p + i) (by omega) (by omega)
  dsimp only
  rw [hsame]

end

/-! ## Runs -/

section

variable {flqConf : FlqConf} {conf : C2hConf} {env : C2hEnv} {dst : ℕ → ℕ}

/-- Every step that meets the condition keeps the invariant. -/
theorem StreamInv.step (hconf : StreamsOn flqConf conf)
    (hdisjoint : ∀ i < flqConf.size, ∀ j < flqConf.size, i ≠ j →
      RangesDisjoint flqConf.bufSize (dst i) (dst j)) (s : StreamRun) (e : StreamEvent)
    (h : ∃ r p done out, StreamInv flqConf conf env.toPageEnv dst r p done out s)
    (hok : StreamAllowed conf s e ∧ StreamKept env conf s e) :
    ∃ r p done out, StreamInv flqConf conf env.toPageEnv dst r p done out
      (streamStep env conf s e) := by
  obtain ⟨r, p, done, out, hinv⟩ := h
  obtain ⟨hallowed, hkept⟩ := hok
  cases e with
  | receive payload entry => exact ⟨r, p, done, _, hinv.receive hconf hdisjoint hallowed hkept⟩
  | process budget updCmpl => exact hinv.process hconf budget updCmpl
  | submit req =>
    obtain ⟨r', hr, hqueue, hahead⟩ := hinv.queue.submit hconf hallowed.1 hallowed.2 hkept
    exact ⟨r', p, done, out, hinv.call hr hqueue hahead⟩
  | packetRead req cctrl =>
    obtain ⟨r', hr, hqueue, hahead⟩ :=
      hinv.queue.packetRead hconf hallowed.1 hallowed.2 hkept cctrl
    exact ⟨r', p, done, out, hinv.call hr hqueue hahead⟩
  | giveUp i =>
    obtain ⟨hqueue, hsame⟩ := hinv.queue.giveUp i
    refine ⟨r, p, done, out, hinv.call le_rfl hqueue ?_⟩
    rw [hsame]
    exact SameAhead.refl ..

/-- The buffers after the set-up: each descriptor has its own, of full length. -/
theorem streamStart_inv (hconf : StreamsOn flqConf conf) (hsucc : env.Succeeds)
    (hmaps : env.MapsDisjoint (2 ^ flqConf.pgBits)) {heap : PageHeap}
    (hfinite : {p | heap.refs p ≠ 0}.Finite) :
    ∃ dst, (∀ i < flqConf.size, ∀ j < flqConf.size, i ≠ j →
        RangesDisjoint flqConf.bufSize (dst i) (dst j)) ∧
      StreamInv flqConf conf env.toPageEnv dst 0 0 [] [] (streamStart env conf flqConf heap) := by
  have hpos := flqConf.size_pos
  have hexclusive : FillKeeps flqConf 0 0 conf.c2hBufsz fun a =>
      Exclusive flqConf env.toPageEnv [] 0 a 0 :=
    Exclusive.fill (Nat.zero_div _).symm
  have hfill : FillKeeps flqConf 0 0 conf.c2hBufsz fun a v =>
      Exclusive flqConf env.toPageEnv [] 0 a 0 v ∧
        ∀ b < a, (v.sdesc (b % flqConf.size)).len = conf.c2hBufsz := by
    rintro a v ⟨hv, hlen⟩ hfrontier hroom
    refine ⟨hexclusive a v hv hfrontier hroom, fun b hb => ?_⟩
    rw [Nat.add_zero]
    rcases Nat.lt_succ_iff_lt_or_eq.mp hb with hlt | rfl
    · have hne : b % flqConf.size ≠ a % flqConf.size := by
        rw [Nat.mod_eq_of_lt (by omega), Nat.mod_eq_of_lt (by omega)]
        omega
      simpa [BufView.fill, Function.update_of_ne hne] using hlen b hlt
    · simp [BufView.fill, BufView.buffer]
  obtain ⟨flq, heap', hsetup, hstable, hkept, hlen⟩ := descqFlqAllocResource_succeeds hsucc hfinite
    hfill fun v hv => ⟨Exclusive.start hv, fun b hb => absurd hb (Nat.not_lt_zero b)⟩
  have hpend := descqFlqAllocResource_pidxPend hsetup
  have hcolor : lapColor conf.rngszCmpt 0 = true := by simp [lapColor]
  refine ⟨flq.dstAddr, fun i hi j hj hne => ?_, ?_⟩
  · have hranges := hkept.owned_disjoint hmaps (Nat.zero_le i) hi (Nat.zero_le j) hj hne
    rw [Nat.mod_eq_of_lt hi, Nat.mod_eq_of_lt hj] at hranges
    exact hranges
  · have hfits := hstable.fits
    obtain ⟨sq, hsq⟩ : ∃ sq : StreamQueue, sq = (streamStart env conf flqConf heap).sq := ⟨_, rfl⟩
    have hq : sq.q = qdmaDescqConfigComplete conf
        { rx := { flq := flq, heap := heap', avail := flqConf.size - 1 } } := by
      rw [hsq]
      unfold streamStart
      rw [hsetup]
    have hrx : sq.q.rx = { flq := flq, heap := heap', avail := flqConf.size - 1 } := by
      rw [hq]
      rfl
    have hring : RingAt flqConf conf env.toPageEnv flq.dstAddr 0 0 0 sq.q.rx := by
      rw [hrx]
      refine ⟨hfits.size, hfits.shift, rfl, le_rfl, le_rfl, by omega, ?_, ?_, ?_⟩
      · dsimp only
        omega
      · exact fun b _ hb => hlen b (by omega)
      · exact fun b _ hb => absurd hb (Nat.not_lt_zero b)
    have hqpend : sq.q.rx.flq.pidxPend = 0 % flqConf.size := by
      rw [hrx, Nat.zero_mod]
      exact hpend
    have hqpidx : sq.q.pidx = 0 % flqConf.size := by
      rw [hq, Nat.zero_mod]
      rfl
    have hunread := hring.unread_eq (fun _ => 0) hqpend hqpidx
    have hcursor : sq.q = sq.q.atEntry conf 0 := by
      rw [hq]
      unfold C2hQueue.atEntry
      rw [Nat.zero_mod, Nat.zero_mul, hcolor]
      rfl
    have hpendList : sq.pendList = [] := by rw [hsq]; rfl
    have hreads : sq.reads = [] := by rw [hsq]; rfl
    have hqueue : QueueAt flqConf conf env.toPageEnv flq.dstAddr (fun _ => 0) 0 0 [] sq := by
      refine ⟨hring, hqpend, hqpidx, ?_, ?_, ?_, ?_⟩
      · rw [hpendList]
        constructor <;> simp
      · rw [hreads]
        simp
      · rw [hpendList, hreads, hunread]
        rfl
      · exact fun hne => absurd hpendList hne
    have hstart : streamStart env conf flqConf heap = { sq := sq } := by
      rw [hsq]
      rfl
    rw [hstart]
    exact ⟨hqueue, hcursor, by rw [hq]; rfl, by simp, trivial, trivial, by simpa [partsOf] using hpos,
      hconf.rngszCmpt_pos, (Nat.zero_mod _).symm, hcolor.symm, (Nat.zero_mod _).symm, rfl⟩

/-- In every run whose packets land where the driver reads them, the reads are given the bytes of
the packets in order; and those that report the right number are the ones of `Read.Kept`. -/
theorem streamRun_inOrder (hconf : StreamsOn flqConf conf) (hsucc : env.Succeeds)
    (hmaps : env.MapsDisjoint (2 ^ flqConf.pgBits)) {heap : PageHeap}
    (hfinite : {p | heap.refs p ≠ 0}.Finite) {es : List StreamEvent}
    (hrun : Admitted (streamStep env conf)
      (fun s e => StreamAllowed conf s e ∧ StreamKept env conf s e)
      (streamStart env conf flqConf heap) es) :
    let s := run (streamStep env conf) (streamStart env conf flqConf heap) es
    s.InOrder env conf ∧ ∀ rd ∈ s.sq.reads, rd.Right ↔ rd.Kept := by
  obtain ⟨dst, hdisjoint, hstart⟩ := streamStart_inv hconf hsucc hmaps hfinite
  obtain ⟨r, p, done, out, hinv⟩ := hrun.invariant (StreamInv.step hconf hdisjoint)
    ⟨0, 0, [], [], hstart⟩
  exact ⟨hinv.inOrder, hinv.queue.right⟩

end

/-- A read of `n` bytes into one element. -/
def readOf (n : ℕ) : Request := { count := n, sgl := [List.replicate n 0] }

theorem streamsOn_ring64 : StreamsOn ring64 conf64 :=
  ⟨rfl, by decide, by decide, by decide, by decide⟩

/-- A packet of two bytes is read in two parts. -/
theorem streamRun_inOrder_two :
    (run (streamStep env64 conf64) (streamStart env64 conf64 ring64 {})
        [.receive [1, 2] 42, .process 0 true, .submit (readOf 1), .submit (readOf 1)]).InOrder
      env64 conf64 := by
  have hrun : Admitted (streamStep env64 conf64)
      (fun s e => StreamAllowed conf64 s e ∧ StreamKept env64 conf64 s e)
      (streamStart env64 conf64 ring64 {})
      [.receive [1, 2] 42, .process 0 true, .submit (readOf 1), .submit (readOf 1)] := by
    decide +kernel
  exact (streamRun_inOrder streamsOn_ring64 env64_succeeds env64_mapsDisjoint (by simp) hrun).1

/-- The first packet is read in two parts, those of the rest of the lap as a whole, and then the
packet that lands in the buffer of the first one. -/
def partReadLap : List StreamEvent :=
  [.receive [1, 2] 42, .process 0 true, .submit (readOf 1), .submit (readOf 1)] ++
    (List.replicate 63 [.receive [3] 26, .process 0 true, .submit (readOf 1)]).flatten ++
    [.receive [4] 24, .process 0 true, .submit (readOf 1)]

/-- The descriptor of a buffer that was read in part keeps its offset when it is recycled: a lap
later, the read of the packet `[4]` is given the second byte of the first packet. -/
theorem streamRun_reads_recycled :
    ¬ ∀ (flqConf : FlqConf) (conf : C2hConf) (env : C2hEnv), StreamsOn flqConf conf →
      env.Succeeds → env.MapsDisjoint (2 ^ flqConf.pgBits) → ∀ (heap : PageHeap),
      {p | heap.refs p ≠ 0}.Finite → ∀ es,
      Admitted (streamStep env conf) (StreamAllowed conf) (streamStart env conf flqConf heap) es →
      let s := run (streamStep env conf) (streamStart env conf flqConf heap) es
      s.InOrder env conf ∧ ∀ rd ∈ s.sq.reads, rd.Right := by
  intro h
  have hrun : Admitted (streamStep env64 conf64) (StreamAllowed conf64)
      (streamStart env64 conf64 ring64 {}) partReadLap := by decide +kernel
  have hinOrder := (h ring64 conf64 env64 streamsOn_ring64 env64_succeeds env64_mapsDisjoint {}
    (by simp) partReadLap hrun).1
  exact absurd hinOrder (by decide +kernel)

end OnicDriver.Stream
