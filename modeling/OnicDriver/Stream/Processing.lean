import OnicDriver.Stream.Landing
import OnicDriver.C2h.Delivery

/-!
# Completion processing of a streaming queue

Processing the completion entry of a packet adds the packet to what is unread,
and the end of a call hands what is unread to the requests that wait.
-/

namespace OnicDriver.Stream

open Lib C2h
open Netdev (readMem readMem_add readMem_length)

/-- A buffer of the free list has room for what the device writes into one. -/
theorem StreamsOn.c2hBufsz_le {flqConf : FlqConf} {conf : C2hConf}
    (hconf : StreamsOn flqConf conf) : conf.c2hBufsz ≤ flqConf.bufSize := by
  obtain ⟨n, hn, hle, -⟩ := getNextPowof2_spec hconf.c2hBufsz_pos
  exact hle.trans (hn.symm.trans hconf.bufSize).le

/-- A part of a packet that landed. -/
theorem Landed.get {mem : ℕ → UInt8} {dst addr : ℕ → ℕ} {size b k : ℕ}
    {parts : List (List UInt8)} {part : List UInt8} (h : Landed mem dst addr size b parts)
    (hk : parts[k]? = some part) (hne : part ≠ []) :
    addr ((b + k) % size) = dst ((b + k) % size) := by
  induction parts generalizing b k with
  | nil => cases hk
  | cons first parts ih =>
    cases k with
    | zero =>
      obtain rfl := Option.some.inj hk
      exact h.2.1 hne
    | succ k =>
      have hindex : b + (k + 1) = b + 1 + k := by omega
      rw [hindex]
      exact ih h.2.2 hk

section

variable {flqConf : FlqConf} {conf : C2hConf} {env : PageEnv} {dst : ℕ → ℕ} {mem : ℕ → UInt8}
  {c r p : ℕ} {q : C2hQueue} {payload : List UInt8}

/-! ## One packet -/

/-- The length of the last part of a packet. -/
theorem lastPart_length (hconf : StreamsOn flqConf conf) {part : List UInt8}
    (hnr : (getFlNr payload.length conf.c2hBufsz flqConf.shift (2 ^ flqConf.shift - 1)).1 =
      (blocksOf conf.c2hBufsz payload).length)
    (hlast : (blocksOf conf.c2hBufsz payload)[(blocksOf conf.c2hBufsz payload).length - 1]? =
      some part) :
    (if payload.length = 0 then 0 else
      (getFlNr payload.length conf.c2hBufsz flqConf.shift (2 ^ flqConf.shift - 1)).2) =
      part.length := by
  have hpos := hconf.c2hBufsz_pos
  have hlen := length_blocksOf conf.c2hBufsz payload
  have hmod := Nat.mod_lt (payload.length + (conf.c2hBufsz - 1)) hpos
  have hdivmod := Nat.div_add_mod' (payload.length + (conf.c2hBufsz - 1)) conf.c2hBufsz
  rw [getElem?_blocksOf (by omega)] at hlast
  obtain rfl := Option.some.inj hlast
  rw [List.length_take, List.length_drop]
  by_cases hzero : payload.length = 0
  · rw [if_pos hzero, hzero]
    omega
  · have hlastLen := getFlNr_last hpos hconf.bufSize (Nat.pos_of_ne_zero hzero)
      (hnr.trans hlen)
    have hmax := Nat.mul_le_mul_right conf.c2hBufsz
      (le_max_right 1 ((payload.length + (conf.c2hBufsz - 1)) / conf.c2hBufsz))
    have hsum : (blocksOf conf.c2hBufsz payload).length * conf.c2hBufsz =
        ((blocksOf conf.c2hBufsz payload).length - 1) * conf.c2hBufsz + conf.c2hBufsz := by
      rw [← Nat.succ_mul, Nat.succ_eq_add_one, Nat.sub_add_cancel (by omega)]
    rw [hnr] at hlastLen
    rw [if_neg hzero, hlastLen]
    rw [← hlen] at hmax
    omega

/-- The descriptors of a packet after `rcv_pkt`: all parts have their length. -/
theorem RingAt.packetLengths (hconf : StreamsOn flqConf conf) {rx : FlqState}
    (h : RingAt flqConf conf env dst c r p rx)
    (hroom : p + (blocksOf conf.c2hBufsz payload).length < c + flqConf.size)
    (hnr : (getFlNr payload.length conf.c2hBufsz flqConf.shift (2 ^ flqConf.shift - 1)).1 =
      (blocksOf conf.c2hBufsz payload).length) {fsg : SwSg} {sdesc : ℕ → SwSg}
    (hfsg : fsg.len = if payload.length = 0 then 0 else
      (getFlNr payload.length conf.c2hBufsz flqConf.shift (2 ^ flqConf.shift - 1)).2)
    (hsdesc : sdesc = Function.update rx.flq.sdesc
      ((p + ((blocksOf conf.c2hBufsz payload).length - 1)) % flqConf.size) fsg) {k : ℕ}
    {part : List UInt8} (hk : (blocksOf conf.c2hBufsz payload)[k]? = some part) :
    (sdesc ((p + k) % flqConf.size)).len = part.length := by
  obtain ⟨hlt, -⟩ := List.getElem?_eq_some_iff.mp hk
  have hgiven := h.given
  have hread := h.read
  rw [hsdesc]
  by_cases hlast : k = (blocksOf conf.c2hBufsz payload).length - 1
  · rw [hlast, Function.update_self, hfsg]
    rw [hlast] at hk
    exact lastPart_length hconf hnr hk
  · have hne : (p + k) % flqConf.size ≠
        (p + ((blocksOf conf.c2hBufsz payload).length - 1)) % flqConf.size := by
      intro heq
      have := eq_of_mod_eq (r := p) (by omega) (by omega) (by omega) (by omega) heq
      omega
    have hfull := mul_length_blocksOf_le hconf.c2hBufsz_pos payload (i := k) (by omega)
    rw [Nat.succ_mul] at hfull
    rw [Function.update_of_ne hne, h.len _ (by omega) (by omega)]
    rw [getElem?_blocksOf hlt] at hk
    obtain rfl := Option.some.inj hk
    rw [List.length_take, List.length_drop]
    omega

/-- `rcv_pkt` on a packet that landed at the next buffers. -/
theorem RingAt.rcvPkt (hconf : StreamsOn flqConf conf)
    (h : RingAt flqConf conf env dst c r p q.rx)
    (hlanded : Landed mem dst (fun i => pageAddress env (q.rx.flq.sdesc i)) flqConf.size p
      (blocksOf conf.c2hBufsz payload))
    (hroom : p + (blocksOf conf.c2hBufsz payload).length < c + flqConf.size)
    (hnr : (getFlNr payload.length conf.c2hBufsz flqConf.shift (2 ^ flqConf.shift - 1)).1 =
      (blocksOf conf.c2hBufsz payload).length) :
    ∃ rx', rcvPktDflt conf (p % flqConf.size) payload.length q =
        (0, (p + (blocksOf conf.c2hBufsz payload).length) % flqConf.size, { q with rx := rx' }) ∧
      RingAt flqConf conf env dst c r (p + (blocksOf conf.c2hBufsz payload).length) rx' ∧
      (fun i => pageAddress env (rx'.flq.sdesc i)) =
        (fun i => pageAddress env (q.rx.flq.sdesc i)) ∧
      rx'.flq.pidxPend = q.rx.flq.pidxPend ∧
      bufs env mem flqConf.size rx'.flq.sdesc r
          (p + (blocksOf conf.c2hBufsz payload).length - r) =
        bufs env mem flqConf.size q.rx.flq.sdesc r (p - r) ++ payload := by
  have hpos := flqConf.size_pos
  have hone : 1 ≤ flqConf.size := hpos
  have hgiven := h.given
  have hread := h.read
  have havail := h.avail
  have hparts : 0 < (blocksOf conf.c2hBufsz payload).length := by
    rw [length_blocksOf]
    omega
  have hflNr : flNr conf q.rx.flq payload.length = (blocksOf conf.c2hBufsz payload).length := by
    unfold flNr
    rw [h.shift, hnr]
  have hlast : ringIdxIncr (p % flqConf.size) ((blocksOf conf.c2hBufsz payload).length - 1)
      flqConf.size = (p + ((blocksOf conf.c2hBufsz payload).length - 1)) % flqConf.size :=
    ringIdxIncr_mod p hpos (by omega)
  have hnext : ringIdxIncr
      ((p + ((blocksOf conf.c2hBufsz payload).length - 1)) % flqConf.size) 1 flqConf.size =
      (p + (blocksOf conf.c2hBufsz payload).length) % flqConf.size := by
    rw [ringIdxIncr_mod _ hpos hone]
    congr 1
    omega
  unfold rcvPktDflt
  dsimp only
  rw [hflNr, h.shift, hconf.rngsz, hlast, hnext, if_neg (by omega)]
  generalize hfsg : ({ q.rx.flq.sdesc
      ((p + ((blocksOf conf.c2hBufsz payload).length - 1)) % flqConf.size) with
    len := if payload.length = 0 then 0 else
      (getFlNr payload.length conf.c2hBufsz flqConf.shift (2 ^ flqConf.shift - 1)).2 } : SwSg)
    = fsg
  obtain ⟨sdesc, hsdesc⟩ : ∃ sdesc, sdesc = Function.update q.rx.flq.sdesc
    ((p + ((blocksOf conf.c2hBufsz payload).length - 1)) % flqConf.size) fsg := ⟨_, rfl⟩
  have hlengths : ∀ k part, (blocksOf conf.c2hBufsz payload)[k]? = some part →
      (sdesc ((p + k) % flqConf.size)).len = part.length := fun k part hk =>
    h.packetLengths hconf hroom hnr (by rw [← hfsg]) hsdesc hk
  have haddr : (fun i => pageAddress env (sdesc i)) =
      fun i => pageAddress env (q.rx.flq.sdesc i) := by
    funext i
    rw [hsdesc]
    by_cases heq : i = (p + ((blocksOf conf.c2hBufsz payload).length - 1)) % flqConf.size
    · rw [heq, Function.update_self, ← hfsg]
      rfl
    · rw [Function.update_of_ne heq]
  have hother : ∀ b, c ≤ b → b < c + flqConf.size →
      b ≠ p + ((blocksOf conf.c2hBufsz payload).length - 1) →
      sdesc (b % flqConf.size) = q.rx.flq.sdesc (b % flqConf.size) := by
    intro b hb hbs hne
    have hne' : b % flqConf.size ≠
        (p + ((blocksOf conf.c2hBufsz payload).length - 1)) % flqConf.size :=
      fun heq => hne (eq_of_mod_eq hb hbs (by omega) (by omega) heq)
    rw [hsdesc, Function.update_of_ne hne']
  rw [← hsdesc]
  refine ⟨_, rfl, ⟨h.size, rfl, h.dstAddr, h.given, by omega, hroom, ?_, ?_, ?_⟩, haddr, rfl, ?_⟩
  · dsimp only
    omega
  · intro b hb hbs
    exact (congrArg SwSg.len (hother b (by omega) hbs (by omega))).trans (h.len b (by omega) hbs)
  · intro b hb hbp
    have hsd : InBuffer env flqConf.bufSize (sdesc (b % flqConf.size))
        (dst (b % flqConf.size)) := by
      by_cases hold : b < p
      · rw [hother b (by omega) (by omega) (by omega)]
        exact h.inside b hb hold
      · obtain ⟨k, rfl⟩ := Nat.exists_eq_add_of_le (not_lt.mp hold)
        obtain ⟨part, hk⟩ : ∃ part, (blocksOf conf.c2hBufsz payload)[k]? = some part :=
          ⟨_, List.getElem?_eq_getElem (by omega)⟩
        have hlen := hlengths k part hk
        have hle := length_le_of_mem_blocksOf (List.mem_of_getElem? hk)
        have hsize := hconf.c2hBufsz_le
        by_cases hnil : part = []
        · left
          rw [hlen, hnil]
          rfl
        · right
          have hstart := (congrFun haddr _).trans (hlanded.get hk hnil)
          rw [hstart, hlen]
          omega
    exact hsd
  · have hsplit : p + (blocksOf conf.c2hBufsz payload).length - r =
        (p - r) + (blocksOf conf.c2hBufsz payload).length := by omega
    have hnew : bufs env mem flqConf.size sdesc p (blocksOf conf.c2hBufsz payload).length =
        payload := by
      rw [← haddr] at hlanded
      rw [bufs_of_landed hlanded hlengths, flatten_blocksOf hconf.c2hBufsz_pos]
    have hold : bufs env mem flqConf.size sdesc r (p - r) =
        bufs env mem flqConf.size q.rx.flq.sdesc r (p - r) :=
      bufs_congr fun i hi => hother _ (by omega) (by omega) (by omega)
    have hall : bufs env mem flqConf.size sdesc r
        (p + (blocksOf conf.c2hBufsz payload).length - r) =
        bufs env mem flqConf.size q.rx.flq.sdesc r (p - r) ++ payload := by
      rw [hsplit, bufs_add, hold, Nat.add_sub_cancel' hread, hnew]
    exact hall

/-! ## The entries of a call -/

/-- An entry announces the packet, and the driver computes the number of its parts. -/
structure Carries (conf : C2hConf) (shift : ℕ) (x : ℕ × List UInt8) : Prop where
  entry : ∃ cmpl, conf.accepts x.1 = some cmpl ∧ cmpl.descUsed = true ∧ cmpl.len = x.2.length
  number : (getFlNr x.2.length conf.c2hBufsz shift (2 ^ shift - 1)).1 =
    (blocksOf conf.c2hBufsz x.2).length

/-- The parts of the packets of some entries. -/
def partsOf (conf : C2hConf) (out : List (ℕ × List UInt8)) : List (List UInt8) :=
  out.flatMap fun x => blocksOf conf.c2hBufsz x.2

/-- One round of the loop, on the entry of a packet. -/
theorem processEntriesDflt_succ (hpos : 0 < conf.rngszCmpt) {ring : ℕ → ℕ} {n k idx next : ℕ}
    {x : ℕ × List UInt8} (hx : Carries conf flqConf.shift x)
    (hring : ring (n % conf.rngszCmpt * conf.cmptEntryLen) = x.1)
    (hcolor : ∀ cmpl, conf.accepts x.1 = some cmpl → cmpl.color = lapColor conf.rngszCmpt n)
    {rx' : FlqState} (hrcv : rcvPktDflt conf idx x.2.length (q.atEntry conf n) =
      (0, next, { q with rx := rx' }.atEntry conf n)) :
    processEntriesDflt conf ring (k + 1) idx (q.atEntry conf n) =
      (processEntriesDflt conf ring k next ({ q with rx := rx' }.atEntry conf (n + 1))).map
        fun r => (r.1 + 1, r.2) := by
  obtain ⟨cmpl, haccept, hused, hlen⟩ := hx.entry
  obtain ⟨hparse, hcheck⟩ := accepts_some haccept
  have hcur : ring (q.atEntry conf n).descCmptCur = x.1 := hring
  have hsame : (q.atEntry conf n).color = cmpl.color := (hcolor cmpl haccept).symm
  conv_lhs => unfold processEntriesDflt
  simp only [hcur, hparse, if_neg hcheck, hsame, ne_eq, not_true_eq_false, if_false, hused, if_true,
    hlen, hrcv, lt_irrefl]
  rw [cmptNext_atEntry hpos]

/-- The loop over the entries of packets that landed. -/
theorem RingAt.processEntries (hconf : StreamsOn flqConf conf) {ring : ℕ → ℕ} {n : ℕ}
    {out : List (ℕ × List UInt8)} (h : RingAt flqConf conf env dst c r p q.rx)
    (hcarries : ∀ x ∈ out, Carries conf flqConf.shift x)
    (hring : Pending conf ring n (out.map Prod.fst))
    (hlanded : Landed mem dst (fun i => pageAddress env (q.rx.flq.sdesc i)) flqConf.size p
      (partsOf conf out))
    (hroom : p + (partsOf conf out).length < c + flqConf.size) :
    ∃ rx', processEntriesDflt conf ring out.length (p % flqConf.size) (q.atEntry conf n) =
        .ok (out.length, (p + (partsOf conf out).length) % flqConf.size,
          { q with rx := rx' }.atEntry conf (n + out.length)) ∧
      RingAt flqConf conf env dst c r (p + (partsOf conf out).length) rx' ∧
      (fun i => pageAddress env (rx'.flq.sdesc i)) =
        (fun i => pageAddress env (q.rx.flq.sdesc i)) ∧
      rx'.flq.pidxPend = q.rx.flq.pidxPend ∧
      bufs env mem flqConf.size rx'.flq.sdesc r (p + (partsOf conf out).length - r) =
        bufs env mem flqConf.size q.rx.flq.sdesc r (p - r) ++ (out.map Prod.snd).flatten := by
  induction out generalizing n p q with
  | nil => exact ⟨q.rx, rfl, h, rfl, rfl, (List.append_nil _).symm⟩
  | cons x out ih =>
    obtain ⟨hx, hrest⟩ := List.forall_mem_cons.mp hcarries
    obtain ⟨hentry, hcolor, htail⟩ := hring
    have hparts : partsOf conf (x :: out) = blocksOf conf.c2hBufsz x.2 ++ partsOf conf out := rfl
    rw [hparts, landed_append] at hlanded
    rw [hparts, List.length_append, ← Nat.add_assoc] at hroom ⊢
    obtain ⟨rx₁, hrcv, hring₁, haddr₁, hpend₁, hbufs₁⟩ := RingAt.rcvPkt (q := q.atEntry conf n)
      hconf h hlanded.1 (by omega) hx.number
    obtain ⟨rx', hloop, hring', haddr', hpend', hbufs'⟩ :=
      ih (q := { q with rx := rx₁ }) (n := n + 1)
      hring₁ hrest htail (by dsimp only; rw [haddr₁]; exact hlanded.2) hroom
    have hindex : n + (x :: out).length = n + 1 + out.length := by
      rw [List.length_cons]
      omega
    refine ⟨rx', ?_, hring', haddr'.trans haddr₁, hpend'.trans hpend₁, ?_⟩
    · rw [List.length_cons, processEntriesDflt_succ hconf.rngszCmpt_pos hx hentry hcolor hrcv,
        hloop,
        ← List.length_cons, hindex]
      rfl
    · rw [hbufs', hbufs₁, List.append_assoc]
      rfl

/-! ## A call -/

variable {total : List UInt8} {s : StreamQueue}

/-- Recycling does not touch the index of the next buffer to read. -/
theorem recycle_pidxPend (conf : C2hConf) (idx count : ℕ) (rx : FlqState) :
    (recycle conf idx count rx).flq.pidxPend = rx.flq.pidxPend :=
  (refillEntries_sameLayout conf.c2hBufsz true count idx rx).pidxPend

/-- The last part of a call: the buffers read up since `pidxPend` are recycled. -/
def refillRead (conf : C2hConf) (pidxPend : ℕ) (updCmpl : Bool) (q : C2hQueue) : C2hQueue :=
  if q.rx.flq.pidxPend ≠ pidxPend then
    { q with
      rx := recycle conf pidxPend (ringIdxDelta q.rx.flq.pidxPend pidxPend q.rx.flq.size) q.rx
      pidxInfoPidx := if updCmpl ∧ !q.qStopWait then
        ringIdxDecr q.rx.flq.pidxPend 1 q.rx.flq.size else q.pidxInfoPidx }
  else q

/-- Everything that was read up is recycled. -/
theorem RingAt.refillRead (h : RingAt flqConf conf env dst c r p q.rx) (mem : ℕ → UInt8)
    (hpend : q.rx.flq.pidxPend = r % flqConf.size) (hpidx : q.pidx = p % flqConf.size)
    (updCmpl : Bool) :
    ∃ q', Stream.refillRead conf (c % flqConf.size) updCmpl q = q' ∧
      RingAt flqConf conf env dst r r p q'.rx ∧ q'.rx.flq.pidxPend = r % flqConf.size ∧
      OnlyRing q q' ∧ SameLater flqConf.size c r q q' ∧
      unread env mem q' = unread env mem q := by
  have hgiven := h.given
  have hread := h.read
  have hroom := h.room
  have hsum : r = c + (r - c) := by omega
  have hdelta : ringIdxDelta q.rx.flq.pidxPend (c % flqConf.size) q.rx.flq.size = r - c := by
    rw [hpend, h.size]
    conv_lhs => rw [hsum]
    exact ringIdxDelta_mod c (by omega)
  unfold Stream.refillRead
  by_cases hmoved : q.rx.flq.pidxPend ≠ c % flqConf.size
  · obtain ⟨hring, hlater⟩ := h.recycled (n := r - c) (by omega)
    rw [← hsum] at hring
    rw [if_pos hmoved, hdelta]
    have hpend' : (recycle conf (c % flqConf.size) (r - c) q.rx).flq.pidxPend =
        r % flqConf.size := (recycle_pidxPend ..).trans hpend
    refine ⟨_, rfl, hring, hpend', rfl, hlater, ?_⟩
    rw [h.unread_eq mem hpend hpidx, ← bufs_congr fun i hi => hlater _ (by omega) (by omega)]
    exact RingAt.unread_eq (q := { q with rx := recycle conf (c % flqConf.size) (r - c) q.rx })
      hring mem hpend' hpidx
  · have hsame : r = c := by
      have heq := not_not.mp hmoved
      rw [hpend] at heq
      exact eq_of_mod_eq (r := c) hgiven (by omega) le_rfl (by omega) heq
    rw [if_neg hmoved]
    subst hsame
    exact ⟨q, rfl, h, hpend, OnlyRing.refl q, SameLater.refl _ _ _ _, rfl⟩

/-- The end of a call: what is unread goes to the requests that wait, and what they read up is
recycled. -/
theorem finishDflt_queueAt (total : List UInt8) (hconf : StreamsOn flqConf conf)
    (hring : RingAt flqConf conf env dst r r p s.q.rx)
    (hpend : s.q.rx.flq.pidxPend = r % flqConf.size) (hwait : Queued s.pendList)
    (hright : ∀ rd ∈ s.reads, rd.Right ↔ rd.Kept)
    (hinOrder : (s.reads.map Read.req ++ s.pendList).flatMap Request.got ++
      bufs env mem flqConf.size s.q.rx.flq.sdesc r (p - r) = total) (csPidx : ℕ)
    (updCmpl : Bool) :
    ∃ r' ≥ r, QueueAt flqConf conf env dst mem r' p total
        (finishDflt env conf mem csPidx (p % flqConf.size) (r % flqConf.size) updCmpl s) ∧
      SameAhead flqConf.size r p s.q
        (finishDflt env conf mem csPidx (p % flqConf.size) (r % flqConf.size) updCmpl s).q := by
  obtain ⟨q₀, hq₀⟩ : ∃ q₀, q₀ = cmptCidxUpdate { s.q with
      pidxCmpt := csPidx, pidx := p % flqConf.size
      cmptCidxInfo := { s.q.cmptCidxInfo with wrbCidx := s.q.cidxCmpt } } := ⟨_, rfl⟩
  have hrx₀ : q₀.rx = s.q.rx := by rw [hq₀]; rfl
  have hpidx₀ : q₀.pidx = p % flqConf.size := by rw [hq₀]; rfl
  have hahead₀ : SameAhead flqConf.size r p s.q q₀ := by
    rw [hq₀]
    exact ⟨SameLater.refl _ _ _ _, rfl, rfl, rfl, rfl⟩
  rw [← hrx₀] at hring hpend hinOrder
  obtain ⟨r', reads, pend', q₁, hproc, hle, hlater₁, hring₁, hpend₁, honly₁, hwait₁, hright₁,
    hinOrder₁, hdrained₁⟩ := hring.packetsProc hconf mem hpend hpidx₀ hwait
  have hread₁ := hring₁.read
  obtain ⟨q₂, hq₂⟩ : ∃ q₂ : C2hQueue, q₂ = { q₁ with
      pktCnt := ringIdxDelta csPidx q₁.cidxCmpt conf.rngszCmpt } := ⟨_, rfl⟩
  have hrx₂ : q₂.rx = q₁.rx := by rw [hq₂]
  have hpidx₂ : q₂.pidx = p % flqConf.size := by
    rw [hq₂]
    exact honly₁.pidx.trans hpidx₀
  have hahead₂ : SameAhead flqConf.size r p q₀ q₂ := by
    have h₁ := honly₁.sameAhead hlater₁
    rw [hq₂]
    exact ⟨h₁.later, h₁.cidxCmpt, h₁.descCmptCur, h₁.color, h₁.err⟩
  have hunread₂ : unread env mem q₂ = unread env mem q₁ := by rw [hq₂]; rfl
  obtain ⟨q₃, hq₃, hring₃, hpend₃, honly₃, hlater₃, hunread₃⟩ := RingAt.refillRead (q := q₂)
    (hrx₂ ▸ hring₁) mem (hrx₂ ▸ hpend₁) hpidx₂ updCmpl
  have hfinish : finishDflt env conf mem csPidx (p % flqConf.size) (r % flqConf.size) updCmpl s =
      { q := q₃, pendList := pend', reads := s.reads ++ reads } := by
    unfold finishDflt
    dsimp only
    rw [← hq₀, hproc, ← hq₃, hq₂]
    rfl
  rw [hfinish]
  refine ⟨r', hle, ⟨hring₃, hpend₃, honly₃.pidx.trans hpidx₂, hwait₁, ?_, ?_, ?_⟩, ?_⟩
  · intro rd hrd
    rcases List.mem_append.mp hrd with hold | hnew
    · exact hright rd hold
    · exact hright₁ rd hnew
  · dsimp only
    rw [hunread₃, hunread₂, List.map_append, List.append_assoc, List.flatMap_append,
      List.append_assoc, ← hinOrder₁, ← hinOrder, hring.unread_eq mem hpend hpidx₀,
      List.flatMap_append, List.append_assoc]
  · intro hne
    exact (hunread₃.trans hunread₂).trans (hdrained₁ hne)
  · have hlater : SameLater flqConf.size r p q₂ q₃ := fun b hb hbs =>
      hlater₃ b (hread₁.trans hb) hbs
    exact (hahead₀.trans hahead₂).trans (honly₃.sameAhead hlater)

/-- The cursors of the completion ring are the same. -/
theorem SameAhead.atEntry {size : ℕ} {q' : C2hQueue} (h : SameAhead size r p q q') {n : ℕ}
    (hcursor : q = q.atEntry conf n) : q' = q'.atEntry conf n := by
  have hcidx : q'.cidxCmpt = n % conf.rngszCmpt :=
    h.cidxCmpt.trans (congrArg C2hQueue.cidxCmpt hcursor)
  have hcur : q'.descCmptCur = n % conf.rngszCmpt * conf.cmptEntryLen :=
    h.descCmptCur.trans (congrArg C2hQueue.descCmptCur hcursor)
  have hcolor : q'.color = lapColor conf.rngszCmpt n :=
    h.color.trans (congrArg C2hQueue.color hcursor)
  unfold C2hQueue.atEntry
  rw [← hcur, ← hcidx, ← hcolor]

/-- A call without outstanding entries. -/
theorem processDflt_empty (env : PageEnv) (mem : ℕ → UInt8) {csPidx : ℕ} (ring : ℕ → ℕ)
    (budget : ℕ) (updCmpl : Bool)
    (herr : s.q.err = false) (hnone : ringIdxDelta csPidx s.q.cidxCmpt conf.rngszCmpt = 0) :
    ∃ updates, (descqProcessCompletionDflt env conf mem ring csPidx budget updCmpl s).2 =
      { s with q := { s.q with cidxUpdates := updates } } := by
  unfold descqProcessCompletionDflt
  dsimp only
  rw [if_neg (by simp [herr]), if_pos hnone]
  split
  · exact ⟨s.q.cidxUpdates, rfl⟩
  · exact ⟨_, rfl⟩

/-- A call on packets that landed processes the first of them. -/
theorem QueueAt.process (hconf : StreamsOn flqConf conf)
    (h : QueueAt flqConf conf env dst mem r p total s) {ring : ℕ → ℕ} {n : ℕ}
    {out : List (ℕ × List UInt8)} (hcursor : s.q = s.q.atEntry conf n) (herr : s.q.err = false)
    (hcarries : ∀ x ∈ out, Carries conf flqConf.shift x)
    (hring : Pending conf ring n (out.map Prod.fst))
    (hlanded : Landed mem dst (fun i => pageAddress env (s.q.rx.flq.sdesc i)) flqConf.size p
      (partsOf conf out))
    (hroom : p + (partsOf conf out).length < r + flqConf.size)
    (hout : out.length < conf.rngszCmpt) (budget : ℕ) (updCmpl : Bool) :
    ∃ r' ≥ r, ∃ k ≤ out.length, ∃ s', (descqProcessCompletionDflt env conf mem ring
        ((n + out.length) % conf.rngszCmpt) budget updCmpl s).2 = s' ∧
      QueueAt flqConf conf env dst mem r' (p + (partsOf conf (out.take k)).length)
        (total ++ ((out.take k).map Prod.snd).flatten) s' ∧
      s'.q = s'.q.atEntry conf (n + k) ∧ s'.q.err = false ∧
      ∀ b, p + (partsOf conf (out.take k)).length ≤ b → b < r + flqConf.size →
        pageAddress env (s'.q.rx.flq.sdesc (b % flqConf.size)) =
          pageAddress env (s.q.rx.flq.sdesc (b % flqConf.size)) := by
  have hcidx : s.q.cidxCmpt = n % conf.rngszCmpt := congrArg C2hQueue.cidxCmpt hcursor
  have hdelta : ringIdxDelta ((n + out.length) % conf.rngszCmpt) s.q.cidxCmpt conf.rngszCmpt =
      out.length := by
    rw [hcidx]
    exact ringIdxDelta_mod n hout
  by_cases hnone : out.length = 0
  · obtain ⟨updates, hempty⟩ := processDflt_empty env mem ring budget updCmpl herr
      (hdelta.trans hnone)
    refine ⟨r, le_rfl, 0, Nat.zero_le _, _, hempty, ?_, ?_, herr, fun _ _ _ => rfl⟩
    · rw [List.take_zero, List.map_nil, List.flatten_nil, List.append_nil]
      exact ⟨h.ring, h.pend, h.pidx, h.requests, h.right, h.inOrder, h.drained⟩
    · have hsame : SameAhead flqConf.size r p s.q { s.q with cidxUpdates := updates } :=
        ⟨SameLater.refl _ _ _ _, rfl, rfl, rfl, rfl⟩
      exact hsame.atEntry hcursor
  · obtain ⟨k, hk⟩ : ∃ k, k = if budget = 0 ∨ budget > out.length then out.length else budget :=
      ⟨_, rfl⟩
    have hkle : k ≤ out.length := by
      rw [hk]
      split <;> omega
    have hkpos : k ≠ 0 := by
      rw [hk]
      split <;> omega
    have hlen : (out.take k).length = k := List.length_take_of_le hkle
    have hparts : partsOf conf out = partsOf conf (out.take k) ++ partsOf conf (out.drop k) := by
      unfold partsOf
      rw [← List.flatMap_append, List.take_append_drop]
    rw [hparts, landed_append] at hlanded
    rw [hparts, List.length_append] at hroom
    have hpending := hring.take k
    rw [← List.map_take] at hpending
    obtain ⟨rx', hloop, hring', haddr', hpend', hbufs'⟩ := RingAt.processEntries
      (q := { s.q with pktCnt := out.length }) hconf h.ring
      (fun x hx => hcarries x (List.mem_of_mem_take hx)) hpending hlanded.1 (by omega)
    have hstart : ({ s.q with pktCnt := out.length } : C2hQueue).atEntry conf n =
        { s.q with pktCnt := out.length } := by
      conv_rhs => rw [hcursor]
      rfl
    rw [hlen, hstart, ← h.pidx] at hloop
    obtain ⟨q₁, hq₁⟩ : ∃ q₁, q₁ = moderate conf ((n + out.length) % conf.rngszCmpt) k budget
        { ({ s.q with pktCnt := out.length, rx := rx' } : C2hQueue).atEntry conf (n + k) with
          pktCnt := out.length - k } := ⟨_, rfl⟩
    have hmoderated := moderate_moderated conf ((n + out.length) % conf.rngszCmpt) k budget
        { ({ s.q with pktCnt := out.length, rx := rx' } : C2hQueue).atEntry conf (n + k) with
          pktCnt := out.length - k }
    rw [← hq₁] at hmoderated
    obtain ⟨_, _, _, _, _, _, _, _, hsame⟩ := hmoderated
    have hrx₁ : q₁.rx = rx' := by rw [hsame]; rfl
    have hprocess : (descqProcessCompletionDflt env conf mem ring
        ((n + out.length) % conf.rngszCmpt) budget updCmpl s).2 =
        finishDflt env conf mem ((n + out.length) % conf.rngszCmpt)
          ((p + (partsOf conf (out.take k)).length) % flqConf.size) (r % flqConf.size) updCmpl
          { s with q := q₁ } := by
      unfold descqProcessCompletionDflt
      dsimp only
      rw [if_neg (by simp [herr]), hdelta, if_neg hnone, ← hk, hloop]
      dsimp only
      rw [if_pos hkpos, h.pend, hq₁]
      rfl
    have hinOrder := h.inOrder
    rw [h.ring.unread_eq mem h.pend h.pidx] at hinOrder
    obtain ⟨r', hr, hqueue, hahead⟩ := finishDflt_queueAt (s := { s with q := q₁ })
      (total ++ ((out.take k).map Prod.snd).flatten) hconf
      (hrx₁ ▸ hring') ((congrArg (fun rx => rx.flq.pidxPend) hrx₁).trans (hpend'.trans h.pend))
      h.requests h.right
      (by
        dsimp only
        rw [hrx₁, hbufs', ← List.append_assoc, hinOrder])
      ((n + out.length) % conf.rngszCmpt) updCmpl
    refine ⟨r', hr, k, hkle, _, hprocess, hqueue, ?_, ?_, ?_⟩
    · apply hahead.atEntry
      rw [hsame]
      rfl
    · rw [hahead.err, hsame]
      exact herr
    · intro b hb hbs
      have hlater := hahead.later b hb hbs
      dsimp only at hlater
      rw [hlater, hrx₁]
      exact congrFun haddr' _

end

end OnicDriver.Stream
