import OnicDriver.H2c.Ring
import OnicDriver.Lib.Runs

/-!
# PIDX accumulation

A streaming H2C queue with a fill callback posts its descriptors in groups. As
long as the pending count does not overflow and the accumulation limit is below
the ring size, descriptors wait only while the hardware has some left to
complete, whose completion posts the others.
-/

namespace OnicDriver.H2c

open Lib Queue

/-- The number of descriptors written that the PIDX register does not cover. -/
def unposted (conf : QueueConf) (q : Descq) : ℕ := ringIdxDelta q.pidx q.posted conf.rngsz

/-- No written descriptor is stranded: the pending count is the number of descriptors that wait,
and a descriptor that was posted is not yet reported consumed. -/
def NotStranded (conf : QueueConf) (q : Descq) : Prop :=
  unposted conf q ≠ 0 → q.descPend = unposted conf q ∧ q.posted ≠ q.cidx

instance (conf : QueueConf) (q : Descq) : Decidable (NotStranded conf q) :=
  inferInstanceAs (Decidable (_ → _ ∧ _))

/-! ## Runs -/

/-- A request is put on the work list, or requests are processed, or a completion is serviced. The
hardware consumes descriptors as `advances` says. -/
inductive PostEvent
  | submit (s : Submission)
  | process (fuel : ℕ) (advances : List ℕ)
  | service (fuel : ℕ) (advances : List ℕ)

/-- One step. -/
def postStep (conf : QueueConf) (q : Descq) : PostEvent → Descq
  | .submit s => enqueue q s
  | .process fuel advances =>
    afterCall q (qdmaDescqProcSgtRequest conf fuel true { q with advances := advances })
  | .service fuel advances =>
    afterCall q (qdmaDescqServiceCmplUpdate conf fuel true { q with advances := advances })

/-- In every round the descriptors that the callbacks take and those pending are fewer
than 256. -/
def roundsFit (conf : QueueConf) (fill : Descq → ReqId → Fill) : ℕ → Descq → Bool
  | 0, _ => true
  | fuel + 1, q =>
    match qepFill conf fill fuel 0 q with
    | none => true
    | some (written, q) =>
      if written = 0 then true
      else
        let q' := (qdmaPidxUpdate conf { q with
          descPend := (q.descPend + written) % 2 ^ 8, pidxInfoPidx := q.pidx } false).2
        decide (q.descPend + written < 2 ^ 8) &&
          if q'.workReqPend ≠ 0 ∧ written ≥ conf.pidxAcc then roundsFit conf fill fuel q' else true

/-- The same for all rounds of a call, also when it calls itself. -/
def callFits (conf : QueueConf) (fill : Descq → ReqId → Fill) : ℕ → Descq → Bool
  | 0, _ => true
  | fuel + 1, q =>
    if q.qStopWait ∨ q.qState ≠ .online then true
    else
      roundsFit conf fill fuel q &&
        match qepRounds conf fill fuel q with
        | some (none, q) => callFits conf fill fuel q
        | _ => true

/-- The pending count does not overflow in the call of an event. -/
def PostFits (conf : QueueConf) (fill : Descq → ReqId → Fill) (q : Descq) : PostEvent → Prop
  | .submit _ => True
  | .process fuel advances => callFits conf fill fuel { q with advances := advances } = true
  | .service fuel advances =>
    callFits conf fill fuel (descqMmNH2cCmplStatus conf { q with advances := advances }) = true

instance (conf : QueueConf) (fill : Descq → ReqId → Fill) (q : Descq) (e : PostEvent) :
    Decidable (PostFits conf fill q e) :=
  match e with
  | .submit _ => isTrue trivial
  | .process .. => inferInstanceAs (Decidable (_ = true))
  | .service .. => inferInstanceAs (Decidable (_ = true))

/-! ## The invariant -/

/-- A queue on which a call has written `n` descriptors since it set aside the PIDX value of `m`,
of which the hardware was told of `k`. -/
structure Accumulates (conf : QueueConf) (n : ℕ) (k m : ℕ) (q : Descq) : Prop where
  indices : Indices conf k m q.ring
  pend : q.descPend = m - k
  moving : m = k ∨ 0 < k
  settled : conf.descBypass = false → m = k
  written : q.owners.length = m + n
  doorbells : q.doorbells = []

/-- A queue on which a call has written `n` descriptors that it did not yet count as pending. -/
def Accumulating (conf : QueueConf) (n : ℕ) (q : Descq) : Prop :=
  ∃ k m, Accumulates conf n k m q

section

variable {conf : QueueConf} {fill : Descq → ReqId → Fill} {q q' : Descq} {id : ReqId} {n k m : ℕ}

/-- The work list, its counter and the script do not matter. -/
theorem Accumulating.congr (h : Accumulating conf n q) {pend : ℕ} {advances : List ℕ}
    (hring : q'.ring = { q.ring with workReqPend := pend, advances := advances }) :
    Accumulating conf n q' := by
  obtain ⟨k, m, hind, hpend, hmoving, hsettled, hwritten, hdoor⟩ := h
  have howners : q'.owners = q.owners := congrArg RingView.owners hring
  refine ⟨k, m, ?_, ?_, hmoving, hsettled, ?_, ?_⟩
  · rw [hring]
    exact hind.congr rfl
  · exact (congrArg RingView.descPend hring).trans hpend
  · rw [howners]
    exact hwritten
  · exact (congrArg RingView.doorbells hring).trans hdoor

/-- All descriptors that the register is to cover are posted. -/
theorem Accumulating.post (hind : Indices conf k m q.ring)
    (hinfo : q.pidxInfoPidx = (q.cidx + m) % conf.rngsz) (hwritten : q.owners.length = m + n)
    (hdoor : q.doorbells = []) :
    Accumulating conf n { q with posted := q.pidxInfoPidx, descPend := 0 } := by
  exact ⟨m, m, hind.post hinfo rfl, (Nat.sub_self m).symm, Or.inl rfl, fun _ => rfl, hwritten,
    hdoor⟩

theorem Accumulating.status (h : Accumulating conf n q) :
    Accumulating conf n (descqMmNH2cCmplStatus conf q) := by
  obtain ⟨k, m, hind, hpend, hmoving, hsettled, hwritten, hdoor⟩ := h
  obtain ⟨rest, -, heq⟩ | ⟨r, a, rest, -, hpos, hr, heq⟩ := descqMmNH2cCmplStatus_cases hind
  · rw [heq]
    exact Accumulating.congr ⟨k, m, hind, hpend, hmoving, hsettled, hwritten, hdoor⟩ (q := q) rfl
  · rw [heq]
    set q₁ := giveCredit conf (takeBack conf r { q with advances := rest }) with hq₁
    have hring : q₁.ring = (takeBack conf r { q with advances := rest }).ring := ring_giveCredit
    have hdoor₁ : q₁.doorbells = [] := (congrArg RingView.doorbells hring).trans hdoor
    have howners : q₁.owners = q.owners.drop r := congrArg RingView.owners hring
    have hind₁ : Indices conf (k - r) (m - r) q₁.ring := by
      rw [hring]
      exact Indices.takeBack (q := { q with advances := rest }) (hind.congr rfl) hr
    rw [qdmaPidxUpdate_of_nil hdoor₁, if_pos (Or.inl rfl)]
    have hinfo : q₁.pidxInfoPidx = (q₁.cidx + (m - r)) % conf.rngsz := by
      have hback := hind.info_takeBack hr hpos
      exact (congrArg RingView.pidxInfoPidx hring).trans
        (hback.trans (congrArg (fun c => (c + (m - r)) % conf.rngsz)
          (congrArg RingView.cidx hring).symm))
    apply Accumulating.post hind₁ hinfo _ hdoor₁
    have hle := hind.posted_le
    rw [howners, List.length_drop, hwritten]
    omega

theorem Accumulating.qdmaQDescGet (h : Accumulating conf n q) (cnt : ℕ) :
    Accumulating conf (n + (qdmaQDescGet conf id cnt q).1) (qdmaQDescGet conf id cnt q).2 := by
  have hstatus : Accumulating conf n
      (if q.avail < cnt then descqMmNH2cCmplStatus conf q else q) := by
    split
    · exact h.status
    · exact h
  unfold H2c.qdmaQDescGet
  dsimp only
  split
  · exact h
  · set q₁ := if q.avail < cnt then descqMmNH2cCmplStatus conf q else q
    split
    · exact hstatus
    · rename_i hcnt havail
      obtain ⟨k, m, hind, hpend, hmoving, hsettled, hwritten, hdoor⟩ := hstatus
      have hlen : (q₁.owners ++ List.replicate cnt id).length = q₁.owners.length + cnt := by
        rw [List.length_append, List.length_replicate]
      refine ⟨k, m, ?_, hpend, hmoving, hsettled, ?_, hdoor⟩
      · apply hind.extend (n := cnt) (not_lt.mp havail) rfl _ rfl hlen rfl rfl
        exact ringIdxIncr_eq_mod hind.pidx_lt (by omega)
      · change (q₁.owners ++ List.replicate cnt id).length = _
        rw [hlen, hwritten, Nat.add_assoc]

theorem Accumulating.getDescs (h : Accumulating conf n q) (gets : List ℕ) :
    Accumulating conf (n + (getDescs conf id gets q).1) (getDescs conf id gets q).2 := by
  induction gets generalizing n q with
  | nil => exact h
  | cons cnt gets ih =>
    have hrest := ih (@Accumulating.qdmaQDescGet _ _ id _ h cnt)
    rw [Nat.add_assoc] at hrest
    exact hrest

theorem Accumulating.fpBypassDescFill (h : Accumulating conf n q) :
    Accumulating conf (n + (fpBypassDescFill conf fill id q).1)
      (fpBypassDescFill conf fill id q).2 := by
  have hgets := @Accumulating.getDescs _ _ id _ h (fill q id).gets
  have hqueued : Accumulating conf (n + (H2c.getDescs conf id (fill q id).gets q).1)
      ((fill q id).queued.foldl enqueue (H2c.getDescs conf id (fill q id).gets q).2) :=
    hgets.congr (ring_foldl_enqueue (fill q id).queued)
  unfold H2c.fpBypassDescFill
  dsimp only
  split
  · exact hqueued
  · exact hqueued.congr (ring_qdmaUpdateRequest _ _)

/-- No more descriptors are written than the ring has. -/
theorem Accumulating.lt (h : Accumulating conf n q) : n < 2 ^ 32 := by
  obtain ⟨k, m, hind, -, -, -, hwritten, -⟩ := h
  have havail : q.avail + q.owners.length + 1 = conf.rngsz := hind.avail
  have hlt := conf.rngsz_lt
  omega

/-- The fill loop. -/
theorem Accumulating.qepFill (h : Accumulating conf n q) {fuel : ℕ} {r : ℕ × Descq}
    (hr : qepFill conf fill fuel n q = some r) : Accumulating conf r.1 r.2 := by
  induction fuel generalizing n q with
  | zero =>
    unfold H2c.qepFill at hr
    split at hr
    · cases hr
      exact h
    · split at hr
      · cases hr
        exact h
      · cases hr
  | succ fuel ih =>
    unfold H2c.qepFill at hr
    split at hr
    · cases hr
      exact h
    · split at hr
      · cases hr
        exact h
      · rename_i id ids hwork
        dsimp only at hr
        have hfill := @Accumulating.fpBypassDescFill _ fill _ id _ h
        have hsum : u32 ((n : ℤ) + (H2c.fpBypassDescFill conf fill id q).1) =
            n + (H2c.fpBypassDescFill conf fill id q).1 := by
          rw [← Nat.cast_add]
          exact u32_natCast hfill.lt
        rw [hsum] at hr
        split at hr
        · rename_i hzero
          cases hr
          rw [hzero] at hfill
          exact hfill
        · split at hr
          · cases hr
            exact hfill
          · exact ih hfill hr

/-- The end of a round. The limit below the ring size ensures that descriptors are held back only
while the hardware has some. -/
theorem Accumulating.endRound (h : Accumulating conf n q) (hbypass : conf.descBypass = true)
    (hacc : conf.pidxAcc < conf.rngsz) (hfit : q.descPend + n < 2 ^ 8) :
    (qdmaPidxUpdate conf
      { q with descPend := (q.descPend + n) % 2 ^ 8, pidxInfoPidx := q.pidx } false).1 = 0 ∧
    Accumulating conf 0 (qdmaPidxUpdate conf
      { q with descPend := (q.descPend + n) % 2 ^ 8, pidxInfoPidx := q.pidx } false).2 := by
  obtain ⟨k, m, hind, hpend, hmoving, hsettled, hwritten, hdoor⟩ := h
  rw [Nat.mod_eq_of_lt hfit]
  set q₁ : Descq := { q with descPend := q.descPend + n, pidxInfoPidx := q.pidx } with hq₁
  have hle : k ≤ m := hind.posted_le
  have havail : q.avail + q.owners.length + 1 = conf.rngsz := hind.avail
  have hind₁ : Indices conf k q.owners.length q₁.ring :=
    ⟨hind.cidx, hind.avail, hind.pidx, hind.posted, fun _ => hind.pidx,
      hle.trans hind.info_le, le_rfl⟩
  have hdoor₁ : q₁.doorbells = [] := hdoor
  rw [qdmaPidxUpdate_of_nil hdoor₁]
  by_cases hpost : false = true ∨ q₁.avail > u32 ((conf.rngsz : ℤ) - 1 - conf.pidxAcc) ∨
      ¬ q₁.descPend < conf.pidxAcc
  · rw [if_pos hpost]
    exact ⟨rfl, Accumulating.post hind₁ hind.pidx (Nat.add_zero _).symm hdoor₁⟩
  · rw [if_neg hpost]
    refine ⟨rfl, k, q.owners.length, hind₁, ?_, ?_, fun hnot => ?_, (Nat.add_zero _).symm, hdoor₁⟩
    · change q.descPend + n = _
      omega
    · right
      have hlimit : u32 ((conf.rngsz : ℤ) - 1 - conf.pidxAcc) = conf.rngsz - 1 - conf.pidxAcc := by
        have hcast : (conf.rngsz : ℤ) - 1 - conf.pidxAcc =
            ((conf.rngsz - 1 - conf.pidxAcc : ℕ) : ℤ) := by
          omega
        rw [hcast]
        apply u32_natCast
        have := conf.rngsz_lt
        omega
      rw [hlimit] at hpost
      push Not at hpost
      obtain ⟨-, hfree, hsmall⟩ := hpost
      change q.avail ≤ _ at hfree
      change q.descPend + n < _ at hsmall
      omega
    · rw [hbypass] at hnot
      cases hnot

theorem Accumulating.qepRounds (hbypass : conf.descBypass = true)
    (hacc : conf.pidxAcc < conf.rngsz) {fuel : ℕ} (h : Accumulating conf 0 q)
    (hfit : roundsFit conf fill fuel q = true) {r : Option ℤ × Descq}
    (hr : qepRounds conf fill fuel q = some r) : Accumulating conf 0 r.2 := by
  induction fuel generalizing q with
  | zero => cases hr
  | succ fuel ih =>
    unfold H2c.qepRounds at hr
    unfold roundsFit at hfit
    cases hfill : H2c.qepFill conf fill fuel 0 q with
    | none =>
      rw [hfill] at hr
      cases hr
    | some w =>
      obtain ⟨written, q₁⟩ := w
      have hround : Accumulating conf written q₁ := h.qepFill hfill
      rw [hfill] at hr hfit
      dsimp only at hr hfit
      by_cases hzero : written = 0
      · rw [if_pos hzero] at hr
        cases hr
        rw [hzero] at hround
        exact hround
      · rw [if_neg hzero] at hr hfit
        rw [Bool.and_eq_true, decide_eq_true_eq] at hfit
        obtain ⟨hret, hend⟩ := hround.endRound hbypass hacc hfit.1
        rw [hret, if_neg (by omega)] at hr
        split at hr
        · rename_i hagain
          have hnext := hfit.2
          rw [if_pos hagain] at hnext
          exact ih hend hnext hr
        · cases hr
          exact hend

theorem Accumulating.descqProcStH2cRequestQep (hbypass : conf.descBypass = true)
    (hacc : conf.pidxAcc < conf.rngsz) {fuel : ℕ} (h : Accumulating conf 0 q)
    (hfit : callFits conf fill fuel q = true) {r : ℤ × Descq}
    (hr : descqProcStH2cRequestQep conf fill fuel q = some r) : Accumulating conf 0 r.2 := by
  induction fuel generalizing q r with
  | zero => cases hr
  | succ fuel ih =>
    unfold H2c.descqProcStH2cRequestQep at hr
    unfold callFits at hfit
    split at hr
    · cases hr
      exact h.status
    · rename_i hstop
      split at hr
      · cases hr
        exact h
      · rename_i honline
        have hrun : ¬ (q.qStopWait = true ∨ q.qState ≠ .online) := by
          rintro (hwait | hoff)
          · exact hstop hwait
          · exact honline hoff
        rw [if_neg hrun, Bool.and_eq_true] at hfit
        cases hrounds : H2c.qepRounds conf fill fuel q with
        | none =>
          rw [hrounds] at hr
          cases hr
        | some w =>
          have hnext := h.qepRounds hbypass hacc hfit.1 hrounds
          obtain ⟨ret, q₁⟩ := w
          rw [hrounds] at hr hfit
          cases ret with
          | some ret =>
            cases hr
            exact hnext
          | none =>
            obtain ⟨r', hr', rfl⟩ := Option.map_eq_some_iff.mp hr
            exact ih (r := r') hnext hfit.2 hr'

/-! ## Queues without bypass -/

/-- A pass over a request that makes no use of polling or of the callback. -/
theorem Accumulating.issue (h : Accumulating conf n q) {pieces : List Piece}
    (hlen : pieces.length ≤ q.avail) :
    Accumulating conf (n + pieces.length) (issue conf id pieces q) := by
  obtain ⟨k, m, hind, hpend, hmoving, hsettled, hwritten, hdoor⟩ := h
  have hview := @ring_qdmaUpdateRequest q id pieces.length (dataCnt pieces)
  refine ⟨k, m, hind.issue hlen, ?_, hmoving, hsettled, ?_, ?_⟩
  · exact (congrArg RingView.descPend hview).trans hpend
  · have howners := congrArg RingView.owners hview
    change ((qdmaUpdateRequest q id pieces.length (dataCnt pieces)).owners ++
      List.replicate pieces.length id).length = _
    rw [List.length_append, List.length_replicate, ← Nat.add_assoc, ← hwritten]
    exact congrArg (fun ids => List.length ids + pieces.length) howners
  · exact (congrArg RingView.doorbells hview).trans hdoor

theorem poll_of_directIntr (hmode : conf.drvMode = .directIntr) :
    descqPollMmNH2cCmplStatus conf q = q := by
  unfold descqPollMmNH2cCmplStatus
  rw [if_neg (by rw [hmode]; decide)]

theorem Accumulating.stPass (h : Accumulating conf n q) (hmode : conf.drvMode = .directIntr)
    (hbypass : conf.descBypass = false) :
    Accumulating conf (n + (stPass conf id q).1.getD 0) (stPass conf id q).2 := by
  have hext : conf.ulExt = none := by
    unfold QueueConf.ulExt
    rw [hbypass]
    rfl
  unfold H2c.stPass
  dsimp only
  rw [poll_of_directIntr hmode, ite_self]
  split
  · exact h
  · rw [hext]
    dsimp only
    cases hfind : qdmaSglFindOffset (q.req id) (q.cb id) with
    | none => exact h.congr (ring_qdmaUpdateRequest 0 0)
    | some r =>
      obtain ⟨i, off⟩ := r
      dsimp only
      set pieces := cutList (pktsz (q.req id)) none i
        (((q.req id).sgl.take (q.req id).sgcnt).drop i) off q.avail 0 with hpieces
      have hlen : pieces.length ≤ q.avail := length_cutList_le _ _ _ _ _ _ _
      have hcount : n + (if pieces = [] then none else some pieces.length : Option ℕ).getD 0 =
          n + pieces.length := by
        split
        · rename_i hnil
          rw [hnil]
          rfl
        · rfl
      have hslots : ∀ desc, Accumulating conf n { q with h2cDesc := desc } := fun _ => h.congr rfl
      rw [hcount]
      exact (hslots _).issue hlen

/-- The loop of the passes. -/
theorem Accumulating.passes (hmode : conf.drvMode = .directIntr)
    (hbypass : conf.descBypass = false) (h : Accumulating conf n q) {fuel : ℕ} {r : ℕ × Descq}
    (hr : passes (H2c.stPass conf) fuel n q = some r) : Accumulating conf r.1 r.2 := by
  induction fuel generalizing n q with
  | zero =>
    unfold H2c.passes at hr
    split at hr
    · cases hr
      exact h
    · cases hr
  | succ fuel ih =>
    unfold H2c.passes at hr
    split at hr
    · cases hr
      exact h
    · rename_i id ids hwork
      have hpass := @Accumulating.stPass _ _ id _ h hmode hbypass
      dsimp only at hr
      split at hr
      · rename_i q₁ hres
        rw [hres] at hpass
        cases hr
        exact hpass
      · rename_i a q₁ hres
        rw [hres] at hpass
        have hsum : u32 ((n : ℤ) + a) = n + a := by
          rw [← Nat.cast_add]
          exact u32_natCast hpass.lt
        rw [hsum] at hr
        exact ih hpass hr

/-- The last write of a call posts everything. -/
theorem Accumulating.finishRequests (h : Accumulating conf n q)
    (hmode : conf.drvMode = .directIntr) (hbypass : conf.descBypass = false) :
    Accumulating conf 0 (finishRequests conf true n q).2 := by
  obtain ⟨k, m, hind, hpend, hmoving, hsettled, hwritten, hdoor⟩ := h
  unfold H2c.finishRequests
  split
  · rename_i hzero
    rw [hzero] at hwritten
    exact ⟨k, m, hind.congr rfl, hpend, hmoving, hsettled, hwritten, hdoor⟩
  · rw [if_pos rfl, poll_of_directIntr hmode]
    refine ⟨q.owners.length, q.owners.length, ?_, ?_, Or.inl rfl, fun _ => rfl,
      (Nat.add_zero _).symm, hdoor⟩
    · exact ⟨hind.cidx, hind.avail, hind.pidx, hind.pidx, fun _ => hind.pidx, le_rfl, le_rfl⟩
    · rw [Nat.sub_self]
      change q.descPend = 0
      rw [hpend, hsettled hbypass, Nat.sub_self]

theorem Accumulating.descqProcStH2cRequest (h : Accumulating conf 0 q)
    (hmode : conf.drvMode = .directIntr) (hbypass : conf.descBypass = false) {fuel : ℕ}
    {r : ℤ × Descq} (hr : descqProcStH2cRequest conf fuel true q = some r) :
    Accumulating conf 0 r.2 := by
  unfold H2c.descqProcStH2cRequest procRequest at hr
  split at hr
  · cases hr
    exact h.status
  · split at hr
    · cases hr
      exact h
    · split at hr
      · cases hr
        exact h
      · rw [poll_of_directIntr hmode] at hr
        obtain ⟨w, hw, rfl⟩ := Option.map_eq_some_iff.mp hr
        exact (h.passes hmode hbypass hw).finishRequests hmode hbypass

/-! ## Steps -/

/-- A streaming H2C queue with a fill callback in direct interrupt mode. -/
structure Accumulator (conf : QueueConf) (fill : Descq → ReqId → Fill) : Prop where
  st : conf.st = true
  qType : conf.qType = .h2c
  drvMode : conf.drvMode = .directIntr
  callback : conf.fpBypassDescFill = some fill

theorem Accumulator.process (hconf : Accumulator conf fill) (hacc : conf.pidxAcc < conf.rngsz)
    (h : Accumulating conf 0 q) {fuel : ℕ} (hfit : callFits conf fill fuel q = true)
    {r : ℤ × Descq} (hr : qdmaDescqProcSgtRequest conf fuel true q = some r) :
    Accumulating conf 0 r.2 := by
  unfold qdmaDescqProcSgtRequest QueueConf.ulExt at hr
  rw [if_neg (by rw [hconf.st]; decide), if_pos hconf.qType] at hr
  cases hbypass : conf.descBypass with
  | false =>
    rw [hbypass] at hr
    exact h.descqProcStH2cRequest hconf.drvMode hbypass hr
  | true =>
    rw [hbypass, hconf.callback, if_pos rfl] at hr
    dsimp only at hr
    rw [if_pos hconf.drvMode] at hr
    exact h.descqProcStH2cRequestQep hbypass hacc hfit hr

/-- The step lemma. -/
theorem Accumulator.step (hconf : Accumulator conf fill) (hacc : conf.pidxAcc < conf.rngsz)
    (h : Accumulating conf 0 q) (e : PostEvent) (hfit : PostFits conf fill q e) :
    Accumulating conf 0 (postStep conf q e) := by
  have hscript : ∀ advances, Accumulating conf 0 { q with advances := advances } :=
    fun _ => h.congr rfl
  cases e with
  | submit s => exact h.congr rfl
  | process fuel advances =>
    change Accumulating conf 0
      (afterCall q (qdmaDescqProcSgtRequest conf fuel true { q with advances := advances }))
    cases hcall : qdmaDescqProcSgtRequest conf fuel true { q with advances := advances } with
    | none => exact h
    | some r => exact hconf.process hacc (hscript advances) hfit hcall
  | service fuel advances =>
    change Accumulating conf 0
      (afterCall q (qdmaDescqServiceCmplUpdate conf fuel true { q with advances := advances }))
    cases hcall : qdmaDescqServiceCmplUpdate conf fuel true { q with advances := advances } with
    | none => exact h
    | some r =>
      have hstatus := (hscript advances).status
      unfold qdmaDescqServiceCmplUpdate at hcall
      rw [if_neg (by rw [hconf.drvMode]; decide)] at hcall
      dsimp only at hcall
      split at hcall
      · exact hconf.process hacc hstatus hfit hcall
      · cases hcall
        exact hstatus

theorem Accumulating.start (conf : QueueConf) : Accumulating conf 0 conf.start :=
  ⟨0, 0, Indices.start conf, rfl, Or.inl rfl, fun _ => rfl, rfl, rfl⟩

/-- Between calls the invariant strands no descriptor. -/
theorem Accumulating.notStranded (h : Accumulating conf 0 q) : NotStranded conf q := by
  obtain ⟨k, m, hind, hpend, hmoving, -, hwritten, -⟩ := h
  have hunposted : unposted conf q = q.owners.length - k := hind.ringIdxDelta_pidx
  intro hne
  rw [hunposted] at hne ⊢
  constructor
  · rw [hpend, hwritten, Nat.add_zero]
  · rw [Ne, hind.posted_eq_cidx_iff]
    intro hzero
    obtain heq | hpos := hmoving
    · omega
    · omega

/-- As long as the accumulation limit is below the ring size and the pending count does not
overflow, no descriptor is stranded in any state of a run. -/
theorem postRun_notStranded (hconf : Accumulator conf fill) (hacc : conf.pidxAcc < conf.rngsz)
    {es : List PostEvent} (hfit : Admitted (postStep conf) (PostFits conf fill) conf.start es) :
    Always (postStep conf) (NotStranded conf) conf.start es := by
  apply @Admitted.always _ _ _ _ (PostFits conf fill) (Accumulating conf 0) _
    (fun _ h => h.notStranded) _ _ _ (Accumulating.start conf) hfit hfit
  intro s e h _ he
  exact hconf.step hacc h e he

end

/-- A callback that takes `n` descriptors for a request and finishes it. -/
def takeFill (n : ℕ) (q : Descq) (id : ReqId) : Fill where
  gets := [n]
  dataCnt := some (q.req id).count

theorem accumulatingConf_rngsz_pos : 0 < 64 := by decide

theorem accumulatingConf_rngsz_lt : 64 < 2 ^ 32 := by decide

/-- A queue with 64 descriptors whose callback takes two of them for a request. -/
def accumulatingConf (pidxAcc : ℕ) (hacc : pidxAcc < 2 ^ 8) : QueueConf where
  st := true
  qType := .h2c
  rngsz := 64
  descBypass := true
  pidxAcc := pidxAcc
  fpBypassDescFill := some (takeFill 2)
  rngsz_pos := accumulatingConf_rngsz_pos
  rngsz_lt := accumulatingConf_rngsz_lt
  pidxAcc_lt := hacc
  st_h2c := fun _ => rfl

/-- Requests with descriptors that are posted with the limit, and one that has to wait. -/
def accumulatingRun : List PostEvent :=
  [.submit { id := 1, req := { count := 60 } }, .submit { id := 2, req := { count := 60 } },
    .process 9 [], .submit { id := 3, req := { count := 60 } }, .process 9 [], .service 9 [3],
    .service 9 [1]]

theorem accumulatingRun_notStranded :
    Always (postStep (accumulatingConf 4 (by decide)))
      (NotStranded (accumulatingConf 4 (by decide)))
      (accumulatingConf 4 (by decide)).start accumulatingRun :=
  @postRun_notStranded (accumulatingConf 4 (by decide)) (takeFill 2) ⟨rfl, rfl, rfl, rfl⟩
    (by decide) accumulatingRun (by decide +kernel)

/-- With an accumulation limit beyond the ring size, the limit is subtracted from the ring size as
an unsigned number, and the first descriptors are held back while the hardware has none. -/
theorem accumulatingRun_stranded :
    ¬ ∀ (conf : QueueConf) (fill : Descq → ReqId → Fill), Accumulator conf fill →
      ∀ es, Always (postStep conf) (NotStranded conf) conf.start es := by
  intro h
  have hlast := (h (accumulatingConf 100 (by decide)) (takeFill 2) ⟨rfl, rfl, rfl, rfl⟩
    [.submit { id := 1, req := { count := 60 } }, .process 9 []]).final
  revert hlast
  decide +kernel

end OnicDriver.H2c
