import OnicDriver.C2h.Batch
import OnicDriver.C2h.Delivery
import OnicDriver.Lib.Runs

/-!
# Calls of completion processing

A queue with its setup and the calls of `descq_process_completion_st_c2h` on any
completion entries, while the stack drops the buffers that it was handed. A call
is described by its batch: it ends with an error at a rejected entry, or refills
the descriptors that the batch used.
-/

namespace OnicDriver.C2h

open Lib

/-- The queue and the buffers whose references the stack still holds. -/
structure CallState where
  q : C2hQueue
  held : List SwSg := []

/-- A call on the completion ring `ring` with the status `csPidx`, or `put_page` by the stack. -/
inductive CallEvent
  | process (ring : ℕ → ℕ) (csPidx budget : ℕ) (updCmpl : Bool)
  | drop (s : SwSg)

/-- The queue after `descq_flq_alloc_resource` and `qdma_descq_config_complete`. -/
def callStart (env : C2hEnv) (conf : C2hConf) (flqConf : FlqConf) (heap : PageHeap) : CallState :=
  let r := descqFlqAllocResource env.toPageEnv conf.c2hBufsz true true flqConf.flq heap
  let q : C2hQueue := { rx := { flq := r.2.1, heap := r.2.2, avail := flqConf.size - 1 } }
  { q := qdmaDescqConfigComplete conf q }

/-- The buffers that the packets taken since `q` was the queue refer to. -/
def handedSince (env : C2hEnv) (q q' : C2hQueue) : List SwSg :=
  buffersOf ((accepted env q'.callbacks).drop (accepted env q.callbacks).length)

/-- One step. A call that never returns leaves no state to go on from. -/
def callStep (env : C2hEnv) (conf : C2hConf) (s : CallState) : CallEvent → CallState
  | .process ring csPidx budget updCmpl =>
    match descqProcessCompletionStC2h env conf ring csPidx budget updCmpl s.q with
    | none => s
    | some (_, q) => { q := q, held := s.held ++ handedSince env s.q q }
  | .drop b =>
    if b ∈ s.held then
      { q := { s.q with rx := { s.q.rx with heap := s.q.rx.heap.putPage b.pg 1 } }
        held := s.held.erase b }
    else s

/-- The status of the completion ring is in range, and the stack drops what it holds. -/
def CallAllowed (conf : C2hConf) (s : CallState) : CallEvent → Prop
  | .process _ csPidx _ _ => csPidx < conf.rngszCmpt
  | .drop b => b ∈ s.held

instance (conf : C2hConf) (s : CallState) (e : CallEvent) : Decidable (CallAllowed conf s e) :=
  match e with
  | .process .. => inferInstanceAs (Decidable (_ < _))
  | .drop _ => inferInstanceAs (Decidable (_ ∈ _))

/-- The queue is set up for a free list whose buffers have the rounded size. -/
structure ServedBy (conf : C2hConf) (flqConf : FlqConf) : Prop where
  rngsz : conf.rngsz = flqConf.size
  c2hBufsz_pos : 0 < conf.c2hBufsz
  bufSize : getNextPowof2 conf.c2hBufsz = flqConf.bufSize
  rngszCmpt_pos : 0 < conf.rngszCmpt

/-- The number of entries that a call looks at. -/
def callCount (conf : C2hConf) (csPidx budget : ℕ) (q : C2hQueue) : ℕ :=
  let pend := ringIdxDelta csPidx q.cidxCmpt conf.rngszCmpt
  if budget = 0 ∨ budget > pend then pend else budget

/-- The queue after a call that took `k` entries with `t` descriptors and left the free list
`rx`. The loop ended with the queue `q₁`. -/
structure Ends (conf : C2hConf) (q q₁ : C2hQueue) (k t : ℕ) (rx : FlqState) (q' : C2hQueue) :
    Prop where
  rx : q'.rx = rx
  pidx : q'.pidx = (q.pidx + t) % conf.rngsz
  cidx : q'.cidxCmpt = q₁.cidxCmpt
  cur : q'.descCmptCur = q₁.descCmptCur
  color : q'.color = q₁.color
  wrb : q'.cmptCidxInfo.wrbCidx = if k = 0 then q.cmptCidxInfo.wrbCidx else q₁.cidxCmpt
  err : q'.err = q.err
  callbacks : q'.callbacks = q₁.callbacks

section

variable {env : C2hEnv} {conf : C2hConf} {ring : ℕ → ℕ} {csPidx budget k t : ℕ} {updCmpl : Bool}
  {q q₁ : C2hQueue}

theorem callCount_lt (hcs : csPidx < conf.rngszCmpt) (hcidx : q.cidxCmpt < conf.rngszCmpt) :
    callCount conf csPidx budget q < conf.rngszCmpt := by
  unfold callCount ringIdxDelta
  dsimp only
  split <;> split <;> omega

/-- The end of a call that took entries. -/
theorem Batch.finishProcessing (hstart : BatchStart conf q) (h : Batch env conf q k k t q₁)
    (hk : k ≠ 0) (hsize : q.rx.flq.size = conf.rngsz) {q₂ : C2hQueue} (hmod : Moderated q₁ q₂)
    (csPidx : ℕ) (updCmpl : Bool) :
    ∃ fin : FlqState → C2hQueue, (∀ rx, Ends conf q q₁ k t rx (fin rx)) ∧
      finishProcessing env conf csPidx ((q.pidx + t) % conf.rngsz) q.pidx updCmpl q₂ =
        (if t = 0 then some q₁.rx else
          (qdmaFlqRefill env.toPageEnv conf.c2hBufsz true q.pidx t false q₁.rx).map Prod.snd).map
            fin := by
  obtain ⟨pktCnt, irqEn, counterIdx, avg, hi, lo, idx, cnt, rfl⟩ := hmod
  obtain ⟨f, hflq, -⟩ := h.flq
  have havail := h.avail
  have hbound := hstart.avail
  have hpend : q₁.rx.flq.pidxPend = (q.pidx + t) % conf.rngsz := by rw [hflq]
  unfold C2h.finishProcessing
  dsimp only
  rw [hpend]
  by_cases hzero : t = 0
  · subst hzero
    rw [Nat.add_zero, Nat.mod_eq_of_lt hstart.pidx, if_neg (fun hne => hne rfl), if_pos rfl]
    refine ⟨fun rx => { { q₁ with pktCnt := pktCnt } with
      rx := rx, pidxCmpt := csPidx, pidx := q.pidx
      cmptCidxInfo := { q₁.cmptCidxInfo with
        irqEn := irqEn, counterIdx := counterIdx, wrbCidx := q₁.cidxCmpt }
      pktCnt := ringIdxDelta csPidx q₁.cidxCmpt conf.rngszCmpt
      c2hPendPktMovingAvg := avg, c2hPendPktAvgThrHi := hi, c2hPendPktAvgThrLo := lo
      sortedC2hCntrIdx := idx, c2hCntrMonitorCnt := cnt }, fun rx => ?_, rfl⟩
    exact ⟨rfl, (Nat.mod_eq_of_lt hstart.pidx).symm, rfl, rfl, rfl, (if_neg hk).symm, h.err, rfl⟩
  · have hne : (q.pidx + t) % conf.rngsz ≠ q.pidx := by
      intro heq
      have hmod : (q.pidx + t) % conf.rngsz = q.pidx % conf.rngsz := by
        rw [heq, Nat.mod_eq_of_lt hstart.pidx]
      have := eq_of_mod_eq (r := q.pidx) (n := conf.rngsz) (by omega) (by omega) le_rfl (by omega)
        hmod
      omega
    have hdelta : ringIdxDelta ((q.pidx + t) % conf.rngsz) q.pidx q₁.rx.flq.size = t := by
      have hsize₁ : q₁.rx.flq.size = conf.rngsz := by
        rw [hflq]
        exact hsize
      have hmod := @ringIdxDelta_mod t conf.rngsz q.pidx (by omega)
      rw [hsize₁]
      rwa [Nat.mod_eq_of_lt hstart.pidx] at hmod
    rw [if_pos hne, hdelta, if_neg hzero]
    refine ⟨fun rx =>
      let q' : C2hQueue := { q₁ with
        rx := rx, pidxCmpt := csPidx, pidx := (q.pidx + t) % conf.rngsz
        cmptCidxInfo := { q₁.cmptCidxInfo with
          irqEn := irqEn, counterIdx := counterIdx, wrbCidx := q₁.cidxCmpt }
        pktCnt := ringIdxDelta csPidx q₁.cidxCmpt conf.rngszCmpt
        c2hPendPktMovingAvg := avg, c2hPendPktAvgThrHi := hi, c2hPendPktAvgThrLo := lo
        sortedC2hCntrIdx := idx, c2hCntrMonitorCnt := cnt }
      if updCmpl ∧ !q₁.qStopWait then
        { q' with pidxInfoPidx := ringIdxDecr rx.flq.pidxPend 1 rx.flq.size }
      else q', fun rx => ?_, ?_⟩
    · dsimp only
      split <;> exact ⟨rfl, rfl, rfl, rfl, rfl, (if_neg hk).symm, h.err, rfl⟩
    · rw [Option.map_map]
      rfl

/-- Nothing but the completion register, the count of packets and the moderation changes. -/
structure Idle (q q' : C2hQueue) : Prop where
  rx : q'.rx = q.rx
  pidx : q'.pidx = q.pidx
  cidx : q'.cidxCmpt = q.cidxCmpt
  cur : q'.descCmptCur = q.descCmptCur
  color : q'.color = q.color
  wrb : q'.cmptCidxInfo.wrbCidx = q.cmptCidxInfo.wrbCidx
  err : q'.err = q.err
  callbacks : q'.callbacks = q.callbacks

/-- The queue when the loop of a call starts. -/
def looking (conf : C2hConf) (csPidx : ℕ) (q : C2hQueue) : C2hQueue :=
  { q with pktCnt := ringIdxDelta csPidx q.cidxCmpt conf.rngszCmpt }

/-- What a call does: it finds nothing to do, it ends at a rejected entry after the entries taken
before it, or it refills the descriptors of the entries taken. -/
inductive CallEnd (env : C2hEnv) (conf : C2hConf) (ring : ℕ → ℕ) (csPidx budget : ℕ)
    (q : C2hQueue) : Option (ℤ × C2hQueue) → Prop
  | idle (rv : ℤ) (q' : C2hQueue) (hcount : callCount conf csPidx budget q = 0) (h : Idle q q') :
      CallEnd env conf ring csPidx budget q (some (rv, q'))
  | rejected (k t : ℕ) (rv : ℤ) (s q' : C2hQueue) (hk : k < callCount conf csPidx budget q)
      (hafter : afterRounds env conf ring k q.pidx (looking conf csPidx q) =
        some ((q.pidx + t) % conf.rngsz, s))
      (hbatch : Batch env conf q k k t s)
      (hround : entryRound env conf ring ((q.pidx + t) % conf.rngsz) s = .rejected rv q') :
      CallEnd env conf ring csPidx budget q (some (rv, q'))
  | ended (k t : ℕ) (q₁ : C2hQueue) (fin : FlqState → C2hQueue)
      (hk : k ≤ callCount conf csPidx budget q)
      (hentries : processEntries env conf ring (callCount conf csPidx budget q) q.pidx
        (looking conf csPidx q) = .ok (k, (q.pidx + t) % conf.rngsz, q₁))
      (hbatch : Batch env conf q k k t q₁) (hzero : k = 0 → t = 0)
      (hfin : ∀ rx, Ends conf q q₁ k t rx (fin rx)) :
      CallEnd env conf ring csPidx budget q ((if t = 0 then some q₁.rx else
        (qdmaFlqRefill env.toPageEnv conf.c2hBufsz true q.pidx t false q₁.rx).map Prod.snd).map
          fun rx => (0, fin rx))

/-- The spec of a call. -/
theorem BatchStart.process (hstart : BatchStart conf q) (hsize : q.rx.flq.size = conf.rngsz)
    (ring : ℕ → ℕ) (csPidx budget : ℕ) (updCmpl : Bool) (herr : q.err = false) :
    CallEnd env conf ring csPidx budget q
      (descqProcessCompletionStC2h env conf ring csPidx budget updCmpl q) := by
  unfold descqProcessCompletionStC2h
  rw [if_neg (by rw [herr]; decide)]
  dsimp only
  by_cases hpend : ringIdxDelta csPidx q.cidxCmpt conf.rngszCmpt = 0
  · have hcount : callCount conf csPidx budget q = 0 := by
      unfold callCount
      dsimp only
      rw [hpend]
      split <;> omega
    rw [if_pos hpend]
    by_cases hpoll : conf.pollMode
    · rw [if_pos hpoll]
      exact .idle _ _ hcount ⟨rfl, rfl, rfl, rfl, rfl, rfl, rfl, rfl⟩
    · rw [if_neg hpoll]
      unfold queueCmptCidxUpdate
      dsimp only
      split
      · exact .idle _ _ hcount ⟨rfl, rfl, rfl, rfl, rfl, rfl, rfl, rfl⟩
      · exact .idle _ _ hcount ⟨rfl, rfl, rfl, rfl, rfl, rfl, rfl, rfl⟩
  · rw [if_neg hpend]
    have hcount : (if budget = 0 ∨ budget > ringIdxDelta csPidx q.cidxCmpt conf.rngszCmpt then
        ringIdxDelta csPidx q.cidxCmpt conf.rngszCmpt else budget) =
      callCount conf csPidx budget q := rfl
    have hlooking : { q with pktCnt := ringIdxDelta csPidx q.cidxCmpt conf.rngszCmpt } =
      looking conf csPidx q := rfl
    rw [hcount, hlooking]
    have hstart' : BatchStart conf (looking conf csPidx q) :=
      ⟨hstart.1, hstart.2, hstart.3, hstart.4, hstart.5⟩
    cases hentries : C2h.processEntries env conf ring (callCount conf csPidx budget q) q.pidx
        (looking conf csPidx q) with
    | error e =>
      obtain ⟨rv, q'⟩ := e
      obtain ⟨k, hk, next, s, hafter, hround⟩ := processEntries_error hentries
      obtain ⟨t, rfl, hbatch⟩ := hstart'.afterRounds hafter
      exact .rejected k t rv s q' hk hafter
        ⟨hbatch.1, hbatch.2, hbatch.3, hbatch.4, hbatch.5, hbatch.6, hbatch.7, hbatch.8, hbatch.9⟩
        hround
    | ok r =>
      obtain ⟨k, pidx, q₁⟩ := r
      obtain ⟨hk, t, hpidx, hbatch'⟩ := hstart'.processEntries hentries
      have hbatch : Batch env conf q k k t q₁ :=
        ⟨hbatch'.1, hbatch'.2, hbatch'.3, hbatch'.4, hbatch'.5, hbatch'.6, hbatch'.7, hbatch'.8,
          hbatch'.9⟩
      have hpidx' : pidx = (q.pidx + t) % conf.rngsz := hpidx
      have hmod :
          Moderated q₁ (moderate conf csPidx k budget { q₁ with pktCnt := q₁.pktCnt - k }) :=
        Moderated.trans ⟨_, _, _, _, _, _, _, _, rfl⟩ (moderate_moderated ..)
      dsimp only
      by_cases hzero : k = 0
      · have ht : t = 0 := by
          subst hzero
          obtain ⟨-, s, hafter, -⟩ := processEntries_ok hentries
          obtain rfl : q.pidx = pidx := congrArg Prod.fst (Option.some.inj hafter)
          by_contra hne
          have havail := hbatch.avail
          have hbound := hstart.avail
          have := eq_of_mod_eq (r := q.pidx) (n := conf.rngsz) le_rfl (by omega) (by omega)
            (by omega) ((Nat.mod_eq_of_lt hstart.pidx).trans hpidx')
          omega
        subst hzero ht
        rw [if_neg (fun hne => hne rfl)]
        obtain ⟨pktCnt, irqEn, counterIdx, avg, hi, lo, idx, cnt, hq₂⟩ := hmod
        rw [hq₂]
        refine .ended 0 0 q₁ (fun rx => { q₁ with
          rx := rx, pktCnt := pktCnt
          cmptCidxInfo := { q₁.cmptCidxInfo with irqEn := irqEn, counterIdx := counterIdx }
          c2hPendPktMovingAvg := avg, c2hPendPktAvgThrHi := hi, c2hPendPktAvgThrLo := lo
          sortedC2hCntrIdx := idx, c2hCntrMonitorCnt := cnt }) (Nat.zero_le _)
          (hpidx' ▸ hentries) hbatch
          (fun _ => rfl) fun rx => ?_
        have hwrb : q₁.cmptCidxInfo.wrbCidx = q.cmptCidxInfo.wrbCidx := by rw [hbatch.info]
        refine ⟨rfl, ?_, rfl, rfl, rfl, hwrb, hbatch.err, rfl⟩
        rw [Nat.add_zero, Nat.mod_eq_of_lt hstart.pidx]
        exact hbatch.pidx
      · rw [if_pos hzero, hpidx']
        obtain ⟨fin, hfin, heq⟩ :=
          hbatch.finishProcessing hstart hzero hsize hmod csPidx updCmpl
        have hpend' : q.rx.flq.pidxPend = q.pidx := hstart.pidxPend
        rw [hpend', heq, Option.map_map]
        exact .ended k t q₁ fin hk (hpidx' ▸ hentries) hbatch (fun h => absurd h hzero) hfin

end

end OnicDriver.C2h
