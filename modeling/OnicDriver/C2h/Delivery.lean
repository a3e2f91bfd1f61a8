import OnicDriver.C2h.Reader
import OnicDriver.C2h.ReceiveRuns

/-!
# Packets are delivered once and in order

Completion processing follows the reader of the completion ring: after every
call the callbacks made are the deliveries of the entries consumed, and the
cursors are those of a reader that consumed them, however the calls split the
work.
-/

namespace OnicDriver.C2h

open Lib

/-! ## One entry -/

/-- The cursors after `n` entries. -/
def C2hQueue.atEntry (conf : C2hConf) (n : ℕ) (q : C2hQueue) : C2hQueue :=
  { q with
    cidxCmpt := n % conf.rngszCmpt
    descCmptCur := n % conf.rngszCmpt * conf.cmptEntryLen
    color := lapColor conf.rngszCmpt n }

/-- The queue and its completion ring are set up for a free list. -/
structure FlqConf.Runs (flqConf : FlqConf) (conf : C2hConf) : Prop extends flqConf.Of conf where
  rngszCmpt_pos : 0 < conf.rngszCmpt
  cmptEntryLen_pos : 0 < conf.cmptEntryLen

/-- The free list after `u` descriptors, of which `avail` are left. -/
structure RxAt (flqConf : FlqConf) (c u avail : ℕ) (rx : FlqState) : Prop where
  stable : Stable flqConf c rx.flq rx.heap
  pidxPend : rx.flq.pidxPend = u % flqConf.size
  avail : rx.avail = avail

/-- The ring holds the entries from number `n` on, with the color of their lap. -/
def Pending (conf : C2hConf) (ring : ℕ → ℕ) : ℕ → List ℕ → Prop
  | _, [] => True
  | n, e :: es =>
    ring (n % conf.rngszCmpt * conf.cmptEntryLen) = e ∧
    (∀ cmpl, conf.accepts e = some cmpl → cmpl.color = lapColor conf.rngszCmpt n) ∧
    Pending conf ring (n + 1) es

section

variable {flqConf : FlqConf} {conf : C2hConf} {env : C2hEnv} {ring : ℕ → ℕ} {q : C2hQueue}
  {c u a n : ℕ}

/-- `cmpt_next` moves the cursors to the next entry. -/
theorem cmptNext_atEntry (hpos : 0 < conf.rngszCmpt) (n : ℕ) (q : C2hQueue) :
    cmptNext conf (q.atEntry conf n) = q.atEntry conf (n + 1) := by
  have hlt := Nat.mod_lt n hpos
  have hcolor := lapColor_succ hpos n
  unfold cmptNext C2hQueue.atEntry
  dsimp only
  split
  · rename_i hwrap
    have hzero : (n + 1) % conf.rngszCmpt = 0 := by
      rw [← Nat.mod_add_mod, hwrap, Nat.mod_self]
    rw [if_pos hwrap] at hcolor
    rw [hzero, hcolor, Nat.zero_mul]
  · rename_i hin
    have hnext : (n + 1) % conf.rngszCmpt = n % conf.rngszCmpt + 1 := by
      rw [← Nat.mod_add_mod, Nat.mod_eq_of_lt (by omega)]
    rw [if_neg hin] at hcolor
    rw [hnext, hcolor, Nat.add_mul, one_mul]

/-- An accepted entry is parsed and passes the check. -/
theorem accepts_some {e : ℕ} {cmpl : UlCmptInfo} (h : conf.accepts e = some cmpl) :
    conf.parse e = .ok cmpl ∧ ¬descqCmplErrCheck conf cmpl < 0 := by
  unfold C2hConf.accepts at h
  cases hparse : conf.parse e with
  | error rv => simp [hparse] at h
  | ok cmpl' =>
    simp only [hparse] at h
    split at h
    · cases h
    · rename_i hcheck
      obtain rfl := Option.some.inj h
      exact ⟨rfl, hcheck⟩

/-- An entry without descriptors passes the check only with user data enabled. -/
theorem cmplUddEn_of_check {cmpl : UlCmptInfo} (h : ¬descqCmplErrCheck conf cmpl < 0)
    (hused : cmpl.descUsed = false) : conf.cmplUddEn = true := by
  by_contra hudd
  rw [Bool.not_eq_true] at hudd
  apply h
  unfold descqCmplErrCheck
  rw [hused, hudd]
  split
  · decide
  · rw [if_pos (by decide)]
    decide

/-- One round of the loop over the entries, on an accepted entry. -/
theorem processEntries_accept (hconf : flqConf.Runs conf) (henv : env.Accepts) {e k : ℕ}
    {cmpl : UlCmptInfo} (haccept : conf.accepts e = some cmpl)
    (hring : ring (n % conf.rngszCmpt * conf.cmptEntryLen) = e)
    (hcolor : cmpl.color = lapColor conf.rngszCmpt n) (hrx : RxAt flqConf c u a q.rx)
    (hfit : conf.uses flqConf.shift e ≤ a) (ha : a < flqConf.size) :
    ∃ rx' call, processEntries env conf ring (k + 1) (u % conf.rngsz) (q.atEntry conf n) =
        (processEntries env conf ring k ((u + conf.uses flqConf.shift e) % conf.rngsz)
          ({ q with rx := rx', callbacks := q.callbacks ++ [call] }.atEntry conf (n + 1))).map
            (fun r => (r.1 + 1, r.2)) ∧
      RxAt flqConf c (u + conf.uses flqConf.shift e) (a - conf.uses flqConf.shift e) rx' ∧
      conf.deliver flqConf.shift u e = some call.delivery := by
  obtain ⟨hparse, hcheck⟩ := accepts_some haccept
  have hrngsz : 0 < conf.rngsz := by
    rw [hconf.rngsz]
    exact flqConf.size_pos
  have hcur : ring (q.atEntry conf n).descCmptCur = e := hring
  have hsame : (q.atEntry conf n).color = cmpl.color := hcolor.symm
  cases hused : cmpl.descUsed with
  | true =>
    have huses : flNr conf q.rx.flq cmpl.len = conf.uses flqConf.shift e := by
      unfold flNr C2hConf.uses
      rw [haccept, hrx.stable.fits.shift]
      simp only [hused, if_true]
    have hbuf : 0 < conf.c2hBufsz := by
      rw [hconf.c2hBufsz]
      exact FlqConf.bufSize_pos
    have hfit' : flNr conf (q.atEntry conf n).rx.flq cmpl.len ≤ (q.atEntry conf n).rx.avail := by
      rw [← hrx.avail, ← huses] at hfit
      exact hfit
    have havail : (q.atEntry conf n).rx.avail < conf.rngsz := by
      rw [hconf.rngsz]
      exact hrx.avail.trans_lt ha
    have hrcv := rcvPkt_accepts henv hbuf cmpl.entry (Nat.mod_lt u hrngsz) hfit' havail
    have hflNr : flNr conf (q.atEntry conf n).rx.flq cmpl.len = conf.uses flqConf.shift e := huses
    rw [hflNr, Nat.mod_add_mod] at hrcv
    have hround : processEntries env conf ring (k + 1) (u % conf.rngsz) (q.atEntry conf n) =
        (let r := rcvPkt env conf (u % conf.rngsz) cmpl.len cmpl.entry (q.atEntry conf n)
        if r.1 < 0 then .ok (0, u % conf.rngsz, r.2.2)
        else (processEntries env conf ring k r.2.1 (cmptNext conf r.2.2)).map
          fun r => (r.1 + 1, r.2)) := by
      conv_lhs => unfold processEntries
      simp only [hcur, hparse, if_neg hcheck, hsame, ne_eq, not_true_eq_false, if_false, hused,
        if_true]
    rw [hround]
    simp only [hrcv, lt_irrefl, if_false]
    refine ⟨{ q.rx with
        flq := { lastLen conf (u % conf.rngsz) cmpl.len q.rx.flq with
          pidxPend := (u + conf.uses flqConf.shift e) % conf.rngsz }
        avail := q.rx.avail - conf.uses flqConf.shift e },
      packetCall conf (lastLen conf (u % conf.rngsz) cmpl.len q.rx.flq) (u % conf.rngsz) cmpl.len
        (conf.uses flqConf.shift e) cmpl.entry, ?_, ?_, ?_⟩
    · rw [← cmptNext_atEntry hconf.rngszCmpt_pos n]
      rfl
    · refine ⟨hrx.stable.lastLen _ _ _, ?_, congrArg (· - _) hrx.avail⟩
      rw [← hconf.rngsz]
    · unfold C2hConf.deliver
      rw [haccept]
      simp [hused, PacketCall.delivery, packetCall]
  | false =>
    have hudd := cmplUddEn_of_check hcheck hused
    have hzero : conf.uses flqConf.shift e = 0 := by
      unfold C2hConf.uses
      rw [haccept]
      simp [hused]
    have hrv := henv (q.atEntry conf n).callbacks.length
      { len := 0, sgcnt := 0, first := 0, sgl := [], udd := some cmpl.entry }
    have hround : processEntries env conf ring (k + 1) (u % conf.rngsz) (q.atEntry conf n) =
        (let r := rcvUddOnly env cmpl.entry (q.atEntry conf n)
        if r.1 < 0 then .ok (0, u % conf.rngsz, r.2)
        else (processEntries env conf ring k (u % conf.rngsz) (cmptNext conf r.2)).map
          fun r => (r.1 + 1, r.2)) := by
      conv_lhs => unfold processEntries
      simp only [hcur, hparse, if_neg hcheck, hsame, ne_eq, not_true_eq_false, if_false, hused,
        Bool.false_eq_true, hudd, if_true]
    have hgood : ¬ (rcvUddOnly env cmpl.entry (q.atEntry conf n)).1 < 0 := not_lt.mpr hrv
    rw [hround]
    dsimp only
    rw [if_neg hgood]
    simp only [rcvUddOnly, C2hQueue.callback, hzero, Nat.add_zero, Nat.sub_zero]
    refine ⟨q.rx, { len := 0, sgcnt := 0, first := 0, sgl := [], udd := some cmpl.entry }, ?_,
      hrx, ?_⟩
    · rw [← cmptNext_atEntry hconf.rngszCmpt_pos n]
      rfl
    · unfold C2hConf.deliver
      rw [haccept]
      simp [hused, PacketCall.delivery]

/-! ## The loop over the entries -/

/-- The loop over accepted entries: each is delivered, and the cursors follow. -/
theorem processEntries_accepted (hconf : flqConf.Runs conf) (henv : env.Accepts) {es : List ℕ}
    {k : ℕ} (haccept : ∀ e ∈ es, conf.accepts e ≠ none) (hring : Pending conf ring n es)
    (hrx : RxAt flqConf c u a q.rx) (hfit : conf.used flqConf.shift es ≤ a)
    (ha : a < flqConf.size) :
    ∃ rx' calls, processEntries env conf ring (es.length + k) (u % conf.rngsz) (q.atEntry conf n) =
        (processEntries env conf ring k ((u + conf.used flqConf.shift es) % conf.rngsz)
          ({ q with rx := rx', callbacks := q.callbacks ++ calls }.atEntry conf
            (n + es.length))).map (fun r => (r.1 + es.length, r.2)) ∧
      RxAt flqConf c (u + conf.used flqConf.shift es) (a - conf.used flqConf.shift es) rx' ∧
      calls.map PacketCall.delivery = conf.deliveries flqConf.shift u es := by
  induction es generalizing n u a q with
  | nil =>
    refine ⟨q.rx, [], ?_, hrx, rfl⟩
    rw [List.append_nil, List.length_nil, Nat.zero_add, used_nil, Nat.add_zero, Nat.add_zero]
    cases processEntries env conf ring k (u % conf.rngsz) (q.atEntry conf n) <;> rfl
  | cons e es ih =>
    obtain ⟨hhead, hrest⟩ := List.forall_mem_cons.mp haccept
    obtain ⟨cmpl, hcmpl⟩ := Option.ne_none_iff_exists'.mp hhead
    obtain ⟨hentry, hcolor, htail⟩ := hring
    rw [used_cons] at hfit
    obtain ⟨rx₁, call, hround, hrx₁, hcall⟩ := processEntries_accept (k := es.length + k) hconf henv
      hcmpl hentry (hcolor cmpl hcmpl) hrx (by omega) ha
    obtain ⟨rx', calls, hloop, hrx', hcalls⟩ := ih (n := n + 1)
      (q := { q with rx := rx₁, callbacks := q.callbacks ++ [call] }) hrest htail hrx₁ (by omega)
      (by omega)
    refine ⟨rx', call :: calls, ?_, ?_, ?_⟩
    · rw [List.length_cons, Nat.add_right_comm, hround, hloop]
      rw [used_cons, Nat.add_assoc u, Nat.add_right_comm n 1, ← Nat.add_assoc n]
      rw [List.append_assoc, List.singleton_append]
      cases processEntries env conf ring k _ _ with
      | error err => rfl
      | ok r => exact congrArg Except.ok (Prod.ext (by simp [Except.map]; omega) rfl)
    · rw [used_cons, ← Nat.add_assoc, Nat.sub_add_eq]
      exact hrx'
    · rw [List.map_cons, hcalls]
      simp [C2hConf.deliveries, hcall]

/-- The loop stops at a rejected entry. -/
theorem processEntries_reject (env : C2hEnv) {e : ℕ} (k pidx : ℕ) (hreject : conf.accepts e = none)
    (hring : ring (n % conf.rngszCmpt * conf.cmptEntryLen) = e) :
    ∃ rv err, processEntries env conf ring (k + 1) pidx (q.atEntry conf n) =
        .error (rv, { q with err := err }.atEntry conf n) ∧
      (err = true ∨ err = q.err ∧ conf.parse e = .error rv) := by
  have hcur : ring (q.atEntry conf n).descCmptCur = e := hring
  unfold processEntries
  rw [hcur]
  unfold C2hConf.accepts at hreject
  cases hparse : conf.parse e with
  | error rv => exact ⟨rv, q.err, rfl, Or.inr ⟨rfl, rfl⟩⟩
  | ok cmpl =>
    simp only [hparse] at hreject ⊢
    split at hreject
    · rename_i hcheck
      rw [if_pos hcheck]
      exact ⟨_, true, rfl, Or.inl rfl⟩
    · cases hreject

/-! ## The completion ring -/

theorem Pending.take {es : List ℕ} (h : Pending conf ring n es) (k : ℕ) :
    Pending conf ring n (es.take k) := by
  induction es generalizing n k with
  | nil => simpa using h
  | cons e es ih =>
    cases k with
    | zero => trivial
    | succ k => exact ⟨h.1, h.2.1, ih h.2.2 k⟩

theorem Pending.drop {es : List ℕ} (h : Pending conf ring n es) (k : ℕ) :
    Pending conf ring (n + k) (es.drop k) := by
  induction es generalizing n k with
  | nil =>
    rw [List.drop_nil]
    trivial
  | cons e es ih =>
    cases k with
    | zero => exact h
    | succ k =>
      rw [List.drop_succ_cons, ← Nat.add_assoc, Nat.add_right_comm]
      exact ih h.2.2 k

/-- The next entry goes to a slot that no entry of the ring is in. -/
theorem Pending.write (hlen : 0 < conf.cmptEntryLen) {es : List ℕ} (h : Pending conf ring n es)
    (hroom : es.length < conf.rngszCmpt) {e : ℕ}
    (hcolor : ∀ cmpl, conf.accepts e = some cmpl →
      cmpl.color = lapColor conf.rngszCmpt (n + es.length)) :
    Pending conf (Function.update ring
      ((n + es.length) % conf.rngszCmpt * conf.cmptEntryLen) e) n (es ++ [e]) := by
  induction es generalizing n with
  | nil => exact ⟨by simp, by simpa using hcolor, trivial⟩
  | cons e' es ih =>
    rw [List.length_cons] at hroom hcolor ⊢
    have hslot : n % conf.rngszCmpt * conf.cmptEntryLen ≠
        (n + (es.length + 1)) % conf.rngszCmpt * conf.cmptEntryLen := by
      intro heq
      have hmod := Nat.eq_of_mul_eq_mul_right hlen heq
      have := eq_of_mod_eq (r := n) le_rfl (by omega) (by omega) (by omega) hmod
      omega
    refine ⟨?_, h.2.1, ?_⟩
    · rw [Function.update_of_ne hslot]
      exact h.1
    · have hindex : n + (es.length + 1) = n + 1 + es.length := by omega
      rw [hindex] at hcolor ⊢
      exact ih h.2.2 (by omega) hcolor

/-! ## The end of a call -/

/-- Two queues that differ in the interrupt moderation only. -/
def Moderated (q q' : C2hQueue) : Prop :=
  ∃ pktCnt irqEn counterIdx avg hi lo idx cnt, q' = { q with
    pktCnt := pktCnt
    cmptCidxInfo := { q.cmptCidxInfo with irqEn := irqEn, counterIdx := counterIdx }
    c2hPendPktMovingAvg := avg, c2hPendPktAvgThrHi := hi, c2hPendPktAvgThrLo := lo
    sortedC2hCntrIdx := idx, c2hCntrMonitorCnt := cnt }

theorem Moderated.refl (q : C2hQueue) : Moderated q q := ⟨_, _, _, _, _, _, _, _, rfl⟩

theorem Moderated.trans {q₁ q₂ q₃ : C2hQueue} (h : Moderated q₁ q₂) (h' : Moderated q₂ q₃) :
    Moderated q₁ q₃ := by
  obtain ⟨_, _, _, _, _, _, _, _, rfl⟩ := h
  obtain ⟨_, _, _, _, _, _, _, _, rfl⟩ := h'
  exact ⟨_, _, _, _, _, _, _, _, rfl⟩

theorem descqAdjustC2hCntrAvgs_moderated (q : C2hQueue) :
    Moderated q (descqAdjustC2hCntrAvgs conf q) := ⟨_, _, _, _, _, _, _, _, rfl⟩

theorem descqIncrC2hCntrTh_moderated (q : C2hQueue) :
    Moderated q (descqIncrC2hCntrTh conf q) := by
  unfold descqIncrC2hCntrTh
  dsimp only
  split_ifs
  · exact Moderated.refl q
  · exact ⟨_, _, _, _, _, _, _, _, rfl⟩
  · exact ⟨_, _, _, _, _, _, _, _, rfl⟩
  · exact ⟨_, _, _, _, _, _, _, _, rfl⟩

theorem descqDecrC2hCntrTh_moderated (budget : ℕ) (q : C2hQueue) :
    Moderated q (descqDecrC2hCntrTh conf budget q) := by
  unfold descqDecrC2hCntrTh
  dsimp only
  split_ifs
  · exact Moderated.refl q
  · exact ⟨_, _, _, _, _, _, _, _, rfl⟩
  · exact ⟨_, _, _, _, _, _, _, _, rfl⟩
  · exact ⟨_, _, _, _, _, _, _, _, rfl⟩

theorem descqAdjustC2hCntrTh_moderated (pend budget : ℕ) (q : C2hQueue) :
    Moderated q (descqAdjustC2hCntrTh conf pend budget q) := by
  have hset : ∀ (q : C2hQueue) avg cnt,
      Moderated q { q with c2hPendPktMovingAvg := avg, c2hCntrMonitorCnt := cnt } :=
    fun _ _ _ => ⟨_, _, _, _, _, _, _, _, rfl⟩
  unfold descqAdjustC2hCntrTh
  dsimp only
  split_ifs
  · exact (hset q _ _).trans (descqIncrC2hCntrTh_moderated _)
  · exact (hset q _ _).trans (descqDecrC2hCntrTh_moderated budget _)
  · exact ((hset q _ _).trans (descqDecrC2hCntrTh_moderated budget _)).trans (hset _ _ _)
  · exact hset q _ _

theorem moderate_moderated (conf : C2hConf) (csPidx procCnt budget : ℕ) (q : C2hQueue) :
    Moderated q (moderate conf csPidx procCnt budget q) := by
  unfold moderate
  dsimp only
  split_ifs
  · refine Moderated.trans ?_ (descqAdjustC2hCntrTh_moderated _ budget _)
    exact ⟨_, _, _, _, _, _, _, _, rfl⟩
  · exact ⟨_, _, _, _, _, _, _, _, rfl⟩
  · exact Moderated.refl q

/-- The end of a call that used `d` descriptors: they are all refilled. -/
theorem finishProcessing_refills (hsucc : env.Succeeds) (conf : C2hConf) {d : ℕ}
    (csPidx pidx : ℕ) (updCmpl : Bool)
    (hrx : RxAt flqConf c (u + d) (flqConf.size - 1 - d) q.rx) (hd : d ≤ flqConf.size - 1) :
    ∃ c' rx', finishProcessing env conf csPidx pidx (u % flqConf.size) updCmpl q = some { q with
        rx := rx', pidxCmpt := csPidx, pidx := pidx
        cmptCidxInfo := { q.cmptCidxInfo with wrbCidx := q.cidxCmpt }
        pktCnt := ringIdxDelta csPidx q.cidxCmpt conf.rngszCmpt
        pidxInfoPidx := if d ≠ 0 ∧ updCmpl ∧ !q.qStopWait then
          ringIdxDecr ((u + d) % flqConf.size) 1 flqConf.size else q.pidxInfoPidx } ∧
      RxAt flqConf c' (u + d) (flqConf.size - 1) rx' := by
  have hpos := flqConf.size_pos
  have hlt := flqConf.size_lt
  unfold finishProcessing
  simp only [hrx.pidxPend, hrx.stable.fits.size]
  by_cases hzero : d = 0
  · subst hzero
    rw [if_neg (by simp)]
    exact ⟨c, q.rx, by simp, hrx⟩
  · have hne : (u + d) % flqConf.size ≠ u % flqConf.size := by
      intro heq
      have := eq_of_mod_eq (r := u) (by omega) (by omega) le_rfl (by omega) heq
      omega
    have havail := hrx.avail
    have hidx : u % flqConf.size ≤ flqConf.size := (Nat.mod_lt u hpos).le
    obtain ⟨rx', hrefill, hstable, hav⟩ := hrx.stable.refill_all hsucc (k := d) conf.c2hBufsz
      (by omega) hidx (by omega)
    have hframe := qdmaFlqRefill_pidxPend hrefill
    dsimp only at hframe
    rw [if_pos hne, ringIdxDelta_mod u (by omega), hrefill]
    refine ⟨_, rx', ?_, hstable, hframe.trans hrx.pidxPend, by omega⟩
    rw [Option.map_some]
    congr 1
    simp only [hframe, hrx.pidxPend, hstable.fits.size, hzero, not_false_eq_true, true_and, ne_eq]
    split <;> rfl

/-! ## One call -/

/-- The callbacks and cursors after the entries of `done`. -/
structure Delivered (flqConf : FlqConf) (conf : C2hConf) (done : List ℕ) (q : C2hQueue) :
    Prop where
  cursor : q = q.atEntry conf done.length
  callbacks : q.callbacks.map PacketCall.delivery = conf.deliveries flqConf.shift 0 done

/-- Between two calls all descriptors are refilled, and the indices follow the entries. -/
structure Settled (flqConf : FlqConf) (conf : C2hConf) (done : List ℕ) (q : C2hQueue) :
    Prop where
  rx : ∃ c, RxAt flqConf c (conf.used flqConf.shift done) (flqConf.size - 1) q.rx
  pidx : q.pidx = conf.used flqConf.shift done % flqConf.size
  err : q.err = false
  wrbCidx : q.cmptCidxInfo.wrbCidx = done.length % conf.rngszCmpt

/-- The queue is stopped at a rejected entry. -/
def Stopped (conf : C2hConf) (outstanding : List ℕ) (q : C2hQueue) : Prop :=
  ∃ bad rest, outstanding = bad :: rest ∧ conf.accepts bad = none ∧
    (q.err = true ∨ ∃ rv, conf.parse bad = .error rv)

/-- What calls that consumed `fresh` of `pend` outstanding entries did to the other indices. -/
structure Since (flqConf : FlqConf) (conf : C2hConf) (updCmpl : Bool) (csPidx pend : ℕ)
    (done fresh : List ℕ) (q₀ q : C2hQueue) : Prop where
  pidxCmpt : q.pidxCmpt = if fresh = [] then q₀.pidxCmpt else csPidx
  pktCnt : q.pktCnt = if fresh = [] then q₀.pktCnt else pend - fresh.length
  pidxInfo : q.pidxInfoPidx =
    if conf.used flqConf.shift fresh ≠ 0 ∧ updCmpl ∧ !q₀.qStopWait then
      ringIdxDecr (conf.used flqConf.shift (done ++ fresh) % flqConf.size) 1 flqConf.size
    else q₀.pidxInfoPidx
  qStopWait : q.qStopWait = q₀.qStopWait

theorem Since.refl (updCmpl : Bool) (csPidx pend : ℕ) (done : List ℕ) (q : C2hQueue) :
    Since flqConf conf updCmpl csPidx pend done [] q q := by
  refine ⟨rfl, rfl, ?_, rfl⟩
  rw [used_nil, if_neg (by simp)]

theorem Since.trans {updCmpl : Bool} {csPidx pend : ℕ} {done fresh fresh' : List ℕ}
    {q₁ q₂ q₃ : C2hQueue} (h : Since flqConf conf updCmpl csPidx pend done fresh q₁ q₂)
    (h' : Since flqConf conf updCmpl csPidx (pend - fresh.length) (done ++ fresh) fresh' q₂ q₃) :
    Since flqConf conf updCmpl csPidx pend done (fresh ++ fresh') q₁ q₃ := by
  refine ⟨?_, ?_, ?_, h'.qStopWait.trans h.qStopWait⟩
  · rw [h'.pidxCmpt, h.pidxCmpt]
    cases fresh <;> cases fresh' <;> simp
  · rw [h'.pktCnt, h.pktCnt]
    cases fresh <;> cases fresh' <;> simp [Nat.sub_sub]
    omega
  · rw [h'.pidxInfo, h.pidxInfo, h.qStopWait, used_append _ _ fresh, ← List.append_assoc,
      used_append _ _ (done ++ fresh)]
    by_cases hzero : conf.used flqConf.shift fresh' = 0
    · simp only [hzero, ne_eq, not_true_eq_false, false_and, if_false, Nat.add_zero]
    · have hsum : conf.used flqConf.shift fresh + conf.used flqConf.shift fresh' ≠ 0 := by omega
      simp only [hzero, hsum, ne_eq, not_false_eq_true, true_and]
      split
      · rfl
      · rename_i hupd
        rw [if_neg fun h => hupd h.2]

/-- The number of entries that a call looks at. -/
theorem length_batch (budget : ℕ) (es : List ℕ) :
    (batch budget es).length =
      if budget = 0 ∨ budget > es.length then es.length else budget := by
  unfold batch
  by_cases hzero : budget = 0
  · rw [if_pos hzero, if_pos (Or.inl hzero)]
  · rw [if_neg hzero, List.length_take]
    split <;> omega

theorem batch_eq_take (budget : ℕ) (es : List ℕ) :
    batch budget es = es.take (batch budget es).length := by
  unfold batch
  split
  · rw [List.take_length]
  · rw [List.length_take, ← List.take_take, List.take_length]

/-- A call without outstanding entries. -/
theorem process_empty (env : C2hEnv) (ring : ℕ → ℕ) {csPidx : ℕ} (budget : ℕ) (updCmpl : Bool)
    (hnone : ringIdxDelta csPidx q.cidxCmpt conf.rngszCmpt = 0) :
    ∃ rv updates, descqProcessCompletionStC2h env conf ring csPidx budget updCmpl q =
      some (rv, { q with cidxUpdates := updates }) := by
  unfold descqProcessCompletionStC2h queueCmptCidxUpdate
  dsimp only
  split_ifs
  · exact ⟨_, q.cidxUpdates, rfl⟩
  · exact ⟨_, q.cidxUpdates, rfl⟩
  · exact ⟨_, _, rfl⟩
  · exact ⟨_, _, rfl⟩

/-- A call with outstanding entries runs the loop over its batch, and then its end. -/
theorem process_outstanding {done es : List ℕ} (hd : Delivered flqConf conf done q)
    (herr : q.err = false) (hroom : es.length < conf.rngszCmpt) (hsome : es ≠ []) (budget : ℕ)
    (updCmpl : Bool) :
    descqProcessCompletionStC2h env conf ring ((done.length + es.length) % conf.rngszCmpt) budget
        updCmpl q =
      match processEntries env conf ring (batch budget es).length q.pidx
          ({ q with pktCnt := es.length }.atEntry conf done.length) with
      | .error (rv, q) => some (rv, q)
      | .ok (procCnt, pidx, q₁) =>
        let q₂ := moderate conf ((done.length + es.length) % conf.rngszCmpt) procCnt budget
          { q₁ with pktCnt := q₁.pktCnt - procCnt }
        if procCnt ≠ 0 then
          (finishProcessing env conf ((done.length + es.length) % conf.rngszCmpt) pidx
            q.rx.flq.pidxPend updCmpl q₂).map fun q => (0, q)
        else some (0, q₂) := by
  have hcidx : q.cidxCmpt = done.length % conf.rngszCmpt := congrArg C2hQueue.cidxCmpt hd.cursor
  have hdelta : ringIdxDelta ((done.length + es.length) % conf.rngszCmpt) q.cidxCmpt
      conf.rngszCmpt = es.length := by
    rw [hcidx]
    exact ringIdxDelta_mod done.length hroom
  have hne : es.length ≠ 0 := fun hzero => hsome (List.eq_nil_of_length_eq_zero hzero)
  have hcursor : ({ q with pktCnt := es.length } : C2hQueue).atEntry conf done.length =
      { q with pktCnt := es.length } := by
    conv_rhs => rw [hd.cursor]
    rfl
  rw [hcursor, length_batch]
  unfold descqProcessCompletionStC2h
  rw [if_neg (by simp [herr])]
  dsimp only
  rw [hdelta, if_neg hne] <;> rfl

/-- Part of the outstanding entries fits into the free list. -/
theorem used_batch_le {es good rest : List ℕ} {budget m : ℕ}
    (hsplit : batch budget es = good ++ rest)
    (hfit : conf.used flqConf.shift es ≤ m) : conf.used flqConf.shift good ≤ m := by
  have hall := used_append conf flqConf.shift
    (es.take (batch budget es).length) (es.drop (batch budget es).length)
  rw [List.take_append_drop, ← batch_eq_take, hsplit, used_append] at hall
  omega

/-- A call that looks at accepted entries only. -/
theorem Settled.process_accepted (hconf : flqConf.Runs conf) (henv : env.Accepts)
    (hsucc : env.Succeeds) {done es : List ℕ} (hd : Delivered flqConf conf done q)
    (h : Settled flqConf conf done q) (hring : Pending conf ring done.length es)
    (hroom : es.length < conf.rngszCmpt) (hfit : conf.used flqConf.shift es ≤ flqConf.size - 1)
    {budget : ℕ} (updCmpl : Bool) (hsome : es ≠ [])
    (haccept : ∀ e ∈ batch budget es, conf.accepts e ≠ none) :
    ∃ rv q', descqProcessCompletionStC2h env conf ring
        ((done.length + es.length) % conf.rngszCmpt) budget updCmpl q = some (rv, q') ∧
      Delivered flqConf conf (done ++ batch budget es) q' ∧
      Settled flqConf conf (done ++ batch budget es) q' ∧
      Since flqConf conf updCmpl ((done.length + es.length) % conf.rngszCmpt) es.length done
        (batch budget es) q q' := by
  obtain ⟨c, hrx⟩ := h.rx
  have hpos := flqConf.size_pos
  have hne : es.length ≠ 0 := fun hzero => hsome (List.eq_nil_of_length_eq_zero hzero)
  have hbatch : 0 < (batch budget es).length ∧ (batch budget es).length ≤ es.length := by
    rw [length_batch]
    split <;> omega
  have hnonempty : batch budget es ≠ [] := List.ne_nil_of_length_pos hbatch.1
  have hpending : Pending conf ring done.length (batch budget es) := by
    rw [batch_eq_take]
    exact hring.take _
  have hused : conf.used flqConf.shift (batch budget es) ≤ flqConf.size - 1 :=
    used_batch_le (List.append_nil _).symm hfit
  rw [process_outstanding hd h.err hroom hsome]
  obtain ⟨q₀, hq₀⟩ : ∃ q₀ : C2hQueue, q₀ = { q with pktCnt := es.length } := ⟨_, rfl⟩
  rw [← hq₀]
  have hrx₀ : RxAt flqConf c (conf.used flqConf.shift done) (flqConf.size - 1) q₀.rx := by
    rw [hq₀]
    exact hrx
  obtain ⟨rx₁, calls, hloop, hrx₁, hcalls⟩ := processEntries_accepted (k := 0) hconf henv haccept
    hpending hrx₀ hused (by omega)
  rw [Nat.add_zero, hconf.rngsz, ← h.pidx] at hloop
  rw [hloop]
  generalize batch budget es = es' at *
  simp only [processEntries, Except.map, Nat.zero_add]
  rw [if_pos (by omega), hrx.pidxPend]
  -- the moderation changes none of the fields below
  obtain ⟨q₁, hq₁⟩ : ∃ q₁ : C2hQueue, q₁ = ({ q₀ with
      rx := rx₁, callbacks := q₀.callbacks ++ calls } : C2hQueue).atEntry conf
        (done.length + es'.length) := ⟨_, rfl⟩
  rw [← hq₁]
  obtain ⟨pktCnt, irqEn, counterIdx, avg, hi, lo, idx, cnt, hmod⟩ := moderate_moderated conf
    ((done.length + es.length) % conf.rngszCmpt) es'.length budget
    { q₁ with pktCnt := q₁.pktCnt - es'.length }
  rw [hmod]
  have hrx₂ : RxAt flqConf c (conf.used flqConf.shift done + conf.used flqConf.shift es')
      (flqConf.size - 1 - conf.used flqConf.shift es') q₁.rx := by
    rw [hq₁]
    exact hrx₁
  obtain ⟨c', rx', hfinish, hrx'⟩ := finishProcessing_refills hsucc conf
    ((done.length + es.length) % conf.rngszCmpt)
    ((conf.used flqConf.shift done + conf.used flqConf.shift es') % flqConf.size) updCmpl
    (q := { q₁ with
      pktCnt := pktCnt
      cmptCidxInfo := { q₁.cmptCidxInfo with irqEn := irqEn, counterIdx := counterIdx }
      c2hPendPktMovingAvg := avg, c2hPendPktAvgThrHi := hi, c2hPendPktAvgThrLo := lo
      sortedC2hCntrIdx := idx, c2hCntrMonitorCnt := cnt }) hrx₂ hused
  rw [hfinish]
  subst hq₁ hq₀
  have hcidx : (done.length + es'.length) % conf.rngszCmpt =
      (done ++ es').length % conf.rngszCmpt := by rw [List.length_append]
  refine ⟨0, _, rfl, ⟨?_, ?_⟩, ⟨⟨c', ?_⟩, ?_, h.err, ?_⟩, ⟨?_, ?_, ?_, rfl⟩⟩
  · rw [List.length_append]
    rfl
  · have hcalls' : (q.callbacks ++ calls).map PacketCall.delivery =
        conf.deliveries flqConf.shift 0 (done ++ es') := by
      rw [List.map_append, hd.callbacks, hcalls, deliveries_append, Nat.zero_add]
    exact hcalls'
  · rw [used_append]
    exact hrx'
  · rw [used_append]
  · exact hcidx
  · rw [if_neg hnonempty]
  · have hrest := ringIdxDelta_mod (done.length + es'.length)
      (show es.length - es'.length < conf.rngszCmpt by omega)
    rw [Nat.add_assoc, Nat.add_sub_cancel' hbatch.2] at hrest
    rw [if_neg hnonempty]
    exact hrest
  · rw [used_append]
    rfl

/-- A call that meets a rejected entry. -/
theorem Settled.process_rejected (hconf : flqConf.Runs conf) (henv : env.Accepts)
    {done es : List ℕ} (hd : Delivered flqConf conf done q)
    (h : Settled flqConf conf done q) (hring : Pending conf ring done.length es)
    (hroom : es.length < conf.rngszCmpt) (hfit : conf.used flqConf.shift es ≤ flqConf.size - 1)
    {budget : ℕ} (updCmpl : Bool) {good rest : List ℕ} {bad : ℕ}
    (hsplit : batch budget es = good ++ bad :: rest)
    (haccept : ∀ e ∈ good, conf.accepts e ≠ none) (hreject : conf.accepts bad = none) :
    ∃ rv q', descqProcessCompletionStC2h env conf ring
        ((done.length + es.length) % conf.rngszCmpt) budget updCmpl q = some (rv, q') ∧
      Delivered flqConf conf (done ++ good) q' ∧
      Stopped conf (es.drop good.length) q' := by
  obtain ⟨c, hrx⟩ := h.rx
  have hpos := flqConf.size_pos
  have hsome : es ≠ [] := by
    rintro rfl
    simp [batch] at hsplit
  have hpending : Pending conf ring done.length (good ++ bad :: rest) := by
    rw [← hsplit, batch_eq_take]
    exact hring.take _
  have hgood : Pending conf ring done.length good := by
    have := hpending.take good.length
    rwa [List.take_left'] at this
    rfl
  have hbad := hpending.drop good.length
  rw [List.drop_left' rfl] at hbad
  have hused := used_batch_le hsplit hfit
  rw [process_outstanding hd h.err hroom hsome]
  obtain ⟨q₀, hq₀⟩ : ∃ q₀ : C2hQueue, q₀ = { q with pktCnt := es.length } := ⟨_, rfl⟩
  rw [← hq₀]
  have hrx₀ : RxAt flqConf c (conf.used flqConf.shift done) (flqConf.size - 1) q₀.rx := by
    rw [hq₀]
    exact hrx
  obtain ⟨rx₁, calls, hloop, hrx₁, hcalls⟩ := processEntries_accepted (k := rest.length + 1) hconf
    henv haccept hgood hrx₀ hused (by omega)
  obtain ⟨rv, err, hstop, hwhy⟩ := processEntries_reject env rest.length
    ((conf.used flqConf.shift done + conf.used flqConf.shift good) % conf.rngsz)
    (q := { q₀ with rx := rx₁, callbacks := q₀.callbacks ++ calls }) hreject hbad.1
  rw [hstop, hconf.rngsz, ← h.pidx] at hloop
  rw [hsplit, List.length_append, List.length_cons, hloop]
  subst hq₀
  refine ⟨rv, _, rfl, ⟨?_, ?_⟩, bad, ?_⟩
  · rw [List.length_append]
    rfl
  · have hcalls' : (q.callbacks ++ calls).map PacketCall.delivery =
        conf.deliveries flqConf.shift 0 (done ++ good) := by
      rw [List.map_append, hd.callbacks, hcalls, deliveries_append, Nat.zero_add]
    exact hcalls'
  · have htake := batch_eq_take budget es
    rw [hsplit] at htake
    have hall : es = good ++ bad :: (rest ++ es.drop (good ++ bad :: rest).length) := by
      conv_lhs => rw [← List.take_append_drop (good ++ bad :: rest).length es, ← htake]
      rw [List.append_assoc, List.cons_append]
    refine ⟨rest ++ es.drop (good ++ bad :: rest).length, ?_, hreject, ?_⟩
    · conv_lhs => rw [hall]
      rw [List.drop_left' rfl]
    · rcases hwhy with herr | ⟨-, hparse⟩
      · exact Or.inl herr
      · exact Or.inr ⟨rv, hparse⟩

end

end OnicDriver.C2h
