import OnicDriver.Stream.Reading

/-!
# The buffers of a streaming queue

The buffers are counted through the laps of the ring. Those before number `c`
were given back to the hardware, those before `r` were read up, and those
before `p` hold packets that were processed.
-/

namespace OnicDriver.Stream

open Lib C2h
open Netdev (readMem readMem_add readMem_length)

/-- A queue and its rings are set up for a free list, whose buffers have the next power of two
as their size. -/
structure StreamsOn (flqConf : FlqConf) (conf : C2hConf) : Prop where
  rngsz : conf.rngsz = flqConf.size
  c2hBufsz_pos : 0 < conf.c2hBufsz
  bufSize : getNextPowof2 conf.c2hBufsz = flqConf.bufSize
  rngszCmpt_pos : 0 < conf.rngszCmpt
  cmptEntryLen_pos : 0 < conf.cmptEntryLen

/-- What a descriptor refers to lies in the buffer at `addr`. -/
def InBuffer (env : PageEnv) (bufSize : ℕ) (fsg : SwSg) (addr : ℕ) : Prop :=
  fsg.len = 0 ∨
    addr ≤ pageAddress env fsg ∧ pageAddress env fsg + fsg.len ≤ addr + bufSize

/-- Where the buffers of the free list stand. -/
structure RingAt (flqConf : FlqConf) (conf : C2hConf) (env : PageEnv) (dst : ℕ → ℕ) (c r p : ℕ)
    (rx : FlqState) : Prop where
  size : rx.flq.size = flqConf.size
  shift : rx.flq.descPgShift = flqConf.shift
  dstAddr : rx.flq.dstAddr = dst
  given : c ≤ r
  read : r ≤ p
  room : p < c + flqConf.size
  avail : rx.avail + (p - c) + 1 = flqConf.size
  len : ∀ b, p ≤ b → b < c + flqConf.size →
    (rx.flq.sdesc (b % flqConf.size)).len = conf.c2hBufsz
  inside : ∀ b, r ≤ b → b < p →
    InBuffer env flqConf.bufSize (rx.flq.sdesc (b % flqConf.size)) (dst (b % flqConf.size))

section

variable {flqConf : FlqConf} {conf : C2hConf} {env : PageEnv} {dst : ℕ → ℕ} {c r p : ℕ}
  {rx : FlqState} {q : C2hQueue} {mem : ℕ → UInt8}

/-- What is unread are the buffers that were processed and not read up. -/
theorem RingAt.unread_eq (h : RingAt flqConf conf env dst c r p q.rx) (mem : ℕ → UInt8)
    (hpend : q.rx.flq.pidxPend = r % flqConf.size) (hpidx : q.pidx = p % flqConf.size) :
    unread env mem q = bufs env mem flqConf.size q.rx.flq.sdesc r (p - r) := by
  have hread := h.read
  have hgiven := h.given
  have hroom := h.room
  have hp : p = r + (p - r) := by omega
  have hdelta : ringIdxDelta (p % flqConf.size) (r % flqConf.size) flqConf.size = p - r := by
    conv_lhs => rw [hp]
    exact ringIdxDelta_mod r (by omega)
  unfold unread bufs bufAt
  simp only [h.size, hpend, hpidx, hdelta]
  refine List.flatMap_congr fun i hi => ?_
  have hlt := List.mem_range.mp hi
  rw [ringIdxIncr_mod r flqConf.size_pos (by omega)]

/-- The buffers that agree have the same bytes. -/
theorem bufs_congr {rngsz b n : ℕ} {sdesc sdesc' : ℕ → SwSg}
    (h : ∀ i < n, sdesc' ((b + i) % rngsz) = sdesc ((b + i) % rngsz)) :
    bufs env mem rngsz sdesc' b n = bufs env mem rngsz sdesc b n := by
  unfold bufs bufAt
  refine List.flatMap_congr fun i hi => ?_
  rw [h i (List.mem_range.mp hi)]

/-! ## Recycling -/

/-- `qdma_flq_refill` with `recycle` set gives the descriptors their full length back. -/
theorem refillEntries_recycle {size n idx : ℕ} (bufsz : ℕ) (st : FlqState) (hpos : 0 < size)
    (hsize : st.flq.size = size) (hidx : idx ≤ size) (hmod : idx % size = c % size)
    (hn : n ≤ size) (havail : st.avail + n < 2 ^ 32) :
    ∃ f info, (refillEntries bufsz true n idx st).2 =
        { st with flq := { st.flq with sdesc := f, sdescInfo := info }, avail := st.avail + n } ∧
      (∀ b, c ≤ b → b < c + n → f (b % size) = { st.flq.sdesc (b % size) with len := bufsz }) ∧
      ∀ b, c + n ≤ b → b < c + size → f (b % size) = st.flq.sdesc (b % size) := by
  induction n generalizing c idx st with
  | zero => exact ⟨st.flq.sdesc, st.flq.sdescInfo, rfl, fun b hb hlt => by omega, fun _ _ _ => rfl⟩
  | succ n ih =>
    have hwrapped : (if idx = st.flq.size then 0 else idx) = c % size := by
      rw [hsize, ← hmod]
      split
      · rename_i heq
        rw [heq, Nat.mod_self]
      · exact (Nat.mod_eq_of_lt (by omega)).symm
    have hcount : u32 ((st.avail : ℤ) + 1) = st.avail + 1 := by
      unfold u32
      omega
    have hnext : (c % size + 1) % size = (c + 1) % size := Nat.mod_add_mod ..
    have hlt := Nat.mod_lt c hpos
    unfold refillEntries
    dsimp only
    rw [if_pos rfl, hwrapped, hcount]
    obtain ⟨fsg, hfsg⟩ : ∃ fsg : SwSg, fsg = { st.flq.sdesc (c % size) with len := bufsz } :=
      ⟨_, rfl⟩
    rw [← hfsg]
    obtain ⟨flq, hflq⟩ : ∃ flq : Flq, flq = ({ st.flq with
        sdesc := Function.update st.flq.sdesc (c % size) fsg } : Flq).clearFlags (c % size) :=
      ⟨_, rfl⟩
    have hnew : flq.sdesc = Function.update st.flq.sdesc (c % size) fsg := by
      rw [hflq]
      rfl
    obtain ⟨f, info, heq, hin, hout⟩ := ih
      { st with flq := flq, avail := st.avail + 1 } (hflq ▸ hsize) (by omega) hnext (by omega)
      (by dsimp only; omega)
    dsimp only at heq hin hout
    rw [hnew] at hin hout
    rw [← hflq]
    refine ⟨f, info, ?_, fun b hb hbn => ?_, fun b hb hbs => ?_⟩
    · rw [heq, Nat.add_assoc, Nat.add_comm 1, hflq]
      rfl
    · rcases Nat.eq_or_lt_of_le hb with rfl | hlt
      · have hfirst := hout (c + size) (by omega) (by omega)
        rw [Nat.add_mod_right, Function.update_self] at hfirst
        rw [hfirst, hfsg]
      · have hne : b % size ≠ c % size := by
          intro heq
          have := eq_of_mod_eq (r := c) (by omega) (by omega) le_rfl (by omega) heq
          omega
        rw [hin b hlt (by omega), Function.update_of_ne hne]
    · have hne : b % size ≠ c % size := by
        intro heq
        have := eq_of_mod_eq (r := c) (by omega) (by omega) le_rfl (by omega) heq
        omega
      rw [hout b (by omega) (by omega), Function.update_of_ne hne]

/-- Recycling buffers that were read up. -/
theorem RingAt.recycled (h : RingAt flqConf conf env dst c r p rx) {n : ℕ} (hn : c + n ≤ r) :
    RingAt flqConf conf env dst (c + n) r p (recycle conf (c % flqConf.size) n rx) ∧
      ∀ b, r ≤ b → b < c + flqConf.size →
        (recycle conf (c % flqConf.size) n rx).flq.sdesc (b % flqConf.size) =
          rx.flq.sdesc (b % flqConf.size) := by
  have hpos := flqConf.size_pos
  have hbound := flqConf.size_lt
  have hread := h.read
  have hroom := h.room
  have havail := h.avail
  obtain ⟨f, info, heq, hin, hout⟩ := refillEntries_recycle conf.c2hBufsz rx hpos h.size
    (Nat.mod_lt c hpos).le (Nat.mod_mod c _) (n := n) (by omega) (by omega)
  have hsdesc : ∀ b, r ≤ b → b < c + flqConf.size →
      f (b % flqConf.size) = rx.flq.sdesc (b % flqConf.size) :=
    fun b hb hbs => hout b (by omega) hbs
  have hlap : ∀ b, c ≤ b → f ((b + flqConf.size) % flqConf.size) = f (b % flqConf.size) :=
    fun b _ => by rw [Nat.add_mod_right]
  unfold recycle
  rw [heq]
  refine ⟨⟨h.size, h.shift, h.dstAddr, hn, h.read, by omega, by dsimp only; omega,
    fun b hb hbs => ?_, fun b hb hbp => ?_⟩, hsdesc⟩
  · dsimp only
    by_cases hold : b < c + flqConf.size
    · rw [hsdesc b (by omega) hold]
      exact h.len b hb hold
    · obtain ⟨d, rfl⟩ : ∃ d, b = d + flqConf.size := ⟨b - flqConf.size, by omega⟩
      rw [hlap d (by omega), hin d (by omega) (by omega)]
  · dsimp only
    rw [hsdesc b hb (by omega)]
    exact h.inside b hb hbp

/-! ## Reading -/

/-- Buffers that were read up need not be looked at any more. -/
theorem RingAt.mono (h : RingAt flqConf conf env dst c r p rx) {r' : ℕ} (hr : r ≤ r')
    (hp : r' ≤ p) : RingAt flqConf conf env dst c r' p rx :=
  ⟨h.size, h.shift, h.dstAddr, h.given.trans hr, hp, h.room, h.avail, h.len,
    fun b hb hbp => h.inside b (hr.trans hb) hbp⟩

/-- The ring does not depend on the index of the next buffer to read and the byte count. -/
theorem RingAt.setPend (h : RingAt flqConf conf env dst c r p rx) (pidxPend pktDlen : ℕ) :
    RingAt flqConf conf env dst c r p
      { rx with flq := { rx.flq with pidxPend := pidxPend, pktDlen := pktDlen } } :=
  ⟨h.size, h.shift, h.dstAddr, h.given, h.read, h.room, h.avail, h.len, h.inside⟩

/-- A buffer that is read in part. -/
theorem RingAt.advanced (h : RingAt flqConf conf env dst c r p rx) (hrp : r < p) {foff : ℕ}
    (hfoff : foff ≤ (rx.flq.sdesc (r % flqConf.size)).len) :
    RingAt flqConf conf env dst c r p
      { rx with flq := advance rx.flq (r % flqConf.size) foff } := by
  have hgiven := h.given
  have hroom := h.room
  have hne : ∀ b, r < b → b < c + flqConf.size → b % flqConf.size ≠ r % flqConf.size := by
    intro b hb hbs heq
    have := eq_of_mod_eq (r := c) (by omega) hbs hgiven (by omega) heq
    omega
  refine ⟨h.size, h.shift, h.dstAddr, h.given, h.read, h.room, h.avail, fun b hb hbs => ?_,
    fun b hb hbp => ?_⟩
  · dsimp only [advance]
    rw [Function.update_of_ne (hne b (by omega) hbs)]
    exact h.len b hb hbs
  · have hin := h.inside b hb hbp
    dsimp only [advance]
    rcases Nat.eq_or_lt_of_le hb with rfl | hlt
    · rw [Function.update_self]
      refine hin.imp (fun hzero => ?_) fun ⟨hlow, hhigh⟩ => ?_
      · dsimp only
        omega
      · unfold pageAddress at hlow hhigh ⊢
        dsimp only
        omega
    · rw [Function.update_of_ne (hne b hlt (by omega))]
      exact hin

/-- The bytes behind the part that was read. -/
theorem bufs_advance {flq : Flq} {size n foff : ℕ} (hn : n < size) (hpos : 0 < n)
    (hfoff : foff ≤ (flq.sdesc (r % size)).len) :
    bufs env mem size flq.sdesc r n = (bufAt env mem size flq.sdesc r).take foff ++
      bufs env mem size (advance flq (r % size) foff).sdesc r n := by
  obtain ⟨k, rfl⟩ : ∃ k, n = 1 + k := ⟨n - 1, by omega⟩
  have hrest : bufs env mem size (advance flq (r % size) foff).sdesc (r + 1) k =
      bufs env mem size flq.sdesc (r + 1) k := by
    refine bufs_congr fun i hi => Function.update_of_ne (fun heq => ?_) ..
    have := eq_of_mod_eq (r := r) (by omega) (by omega) le_rfl (by omega) heq
    omega
  have hfirst : bufAt env mem size (advance flq (r % size) foff).sdesc r =
      (bufAt env mem size flq.sdesc r).drop foff := by
    unfold bufAt
    rw [drop_readMem mem _ hfoff]
    unfold advance pageAddress
    dsimp only
    rw [Function.update_self, Nat.add_assoc]
  rw [bufs_add, bufs_add, bufs_one, bufs_one, hrest, hfirst, ← List.append_assoc,
    List.take_append_drop]

end

end OnicDriver.Stream
