import OnicDriver.H2c.Process

/-!
# The ring of a queue with requests

Of the descriptors that are not yet completed, the hardware was told of the
first `k`, and the next write of the PIDX register tells it of the first `m`.
Completing requests does not touch the ring; a completion status that moves the
consumer index returns as many descriptors as it moves.
-/

namespace OnicDriver.H2c

open Lib Queue

/-- The part of a queue that the completion of requests leaves alone. -/
structure RingView where
  qState : QState
  qStopWait : Bool
  procReqRunning : Bool
  pidx : ℕ
  cidx : ℕ
  avail : ℕ
  descPend : ℕ
  pidxInfoPidx : ℕ
  posted : ℕ
  workReqPend : ℕ
  advances : List ℕ
  doorbells : List Bool
  owners : List ReqId
  written : ℕ

/-- The ring of a queue. -/
def Descq.ring (q : Descq) : RingView where
  qState := q.qState
  qStopWait := q.qStopWait
  procReqRunning := q.procReqRunning
  pidx := q.pidx
  cidx := q.cidx
  avail := q.avail
  descPend := q.descPend
  pidxInfoPidx := q.pidxInfoPidx
  posted := q.posted
  workReqPend := q.workReqPend
  advances := q.advances
  doorbells := q.doorbells
  owners := q.owners
  written := q.written

/-- The indices of the ring, with the numbers `k` and `m` of descriptors. The PIDX value set aside
is known from the first posted descriptor on. -/
structure Indices (conf : QueueConf) (k m : ℕ) (v : RingView) : Prop where
  cidx : v.cidx < conf.rngsz
  avail : v.avail + v.owners.length + 1 = conf.rngsz
  pidx : v.pidx = (v.cidx + v.owners.length) % conf.rngsz
  posted : v.posted = (v.cidx + k) % conf.rngsz
  info : 0 < k → v.pidxInfoPidx = (v.cidx + m) % conf.rngsz
  posted_le : k ≤ m
  info_le : m ≤ v.owners.length

/-- The fields of the ring that its accounting is about. -/
def RingView.slots (v : RingView) : ℕ × ℕ × ℕ × ℕ × ℕ × List ReqId :=
  (v.cidx, v.avail, v.pidx, v.posted, v.pidxInfoPidx, v.owners)

/-- Descriptors that the hardware has consumed are taken back. -/
def takeBack (conf : QueueConf) (r : ℕ) (q : Descq) : Descq :=
  { q with
    cidx := ringIdxIncr q.cidx r conf.rngsz
    avail := q.avail + r
    credit := q.credit + r
    owners := q.owners.drop r }

/-- The requests at the head of the pending list get the credits. -/
def giveCredit (conf : QueueConf) (q : Descq) : Descq :=
  let r := completeRequests conf q.credit q.pendList q
  { r.2 with credit := r.1 }

/-- What the end of a request does to the lists, to the requests and to the mappings. -/
structure Ends (q : Descq) (id : ReqId) (error : ℤ) (q' : Descq) : Prop where
  work : q'.workList = q.workList.erase id
  pend : q'.pendList = q.pendList.erase id
  cb : ∀ j ≠ id, q'.cb j = q.cb j
  req : ∀ j ≠ id, q'.req j = q.req j
  fpDone : (q'.req id).fpDone = (q.req id).fpDone
  done : (q'.cb id).done = true
  status : (q.req id).fpDone = false → (q'.cb id).status = error
  dma : q'.dma =
    if (q.cb id).unmapNeeded = true then (sglUnmap (elems (q.req id)) q.dma).2 else q.dma

section

variable {conf : QueueConf} {q : Descq} {id : ReqId} {k m r : ℕ}

theorem ring_unlinkReq : (unlinkReq q id).ring = q.ring := by
  unfold unlinkReq
  dsimp only
  split
  · rfl
  · rfl

theorem ring_qdmaSgtReqDone (error : ℤ) : (qdmaSgtReqDone conf q id error).ring = q.ring := by
  unfold qdmaSgtReqDone
  dsimp only
  split
  · exact ring_unlinkReq
  · exact ring_unlinkReq

theorem unlinkReq_cb : (unlinkReq q id).cb = q.cb := by
  unfold unlinkReq
  dsimp only
  split
  · rfl
  · rfl

theorem unlinkReq_workList : (unlinkReq q id).workList = q.workList.erase id := by
  unfold unlinkReq
  dsimp only
  split
  · rfl
  · rfl

theorem unlinkReq_pendList : (unlinkReq q id).pendList = q.pendList.erase id := by
  unfold unlinkReq
  dsimp only
  split
  · rfl
  · rfl

theorem unlinkReq_req_of_ne {j : ReqId} (hj : j ≠ id) : (unlinkReq q id).req j = q.req j := by
  unfold unlinkReq
  dsimp only
  split
  · exact Function.update_of_ne hj _ _
  · rfl

theorem unlinkReq_fpDone : ((unlinkReq q id).req id).fpDone = (q.req id).fpDone := by
  unfold unlinkReq
  dsimp only
  split
  · change QdmaRequest.fpDone (Function.update q.req id _ id) = _
    rw [Function.update_self]
    rfl
  · rfl

theorem unlinkReq_dma : (unlinkReq q id).dma =
    if (q.cb id).unmapNeeded = true then (sglUnmap (elems (q.req id)) q.dma).2 else q.dma := by
  unfold unlinkReq
  dsimp only
  split
  · rename_i hneeded
    exact (if_pos hneeded).symm
  · rename_i hneeded
    exact (if_neg hneeded).symm

theorem qdmaSgtReqDone_ends (error : ℤ) : Ends q id error (qdmaSgtReqDone conf q id error) := by
  have hother : ∀ (cb : SgtReqCb), ∀ j ≠ id,
      Function.update (unlinkReq q id).cb id cb j = q.cb j := by
    intro cb j hj
    rw [Function.update_of_ne hj, unlinkReq_cb]
  unfold qdmaSgtReqDone
  dsimp only
  split
  · rename_i hfp
    rw [unlinkReq_fpDone] at hfp
    refine ⟨unlinkReq_workList, unlinkReq_pendList, hother _, fun j hj => unlinkReq_req_of_ne hj,
      unlinkReq_fpDone, ?_, ?_, unlinkReq_dma⟩
    · change SgtReqCb.done (Function.update (unlinkReq q id).cb id _ id) = true
      rw [Function.update_self]
    · intro hnot
      rw [hfp] at hnot
      cases hnot
  · refine ⟨unlinkReq_workList, unlinkReq_pendList, hother _, fun j hj => unlinkReq_req_of_ne hj,
      unlinkReq_fpDone, ?_, ?_, unlinkReq_dma⟩
    · change SgtReqCb.done (Function.update (unlinkReq q id).cb id _ id) = true
      rw [Function.update_self]
    · intro _
      change SgtReqCb.status (Function.update (unlinkReq q id).cb id _ id) = error
      rw [Function.update_self]

theorem ring_completeRequests (cr : ℕ) (pend : List ReqId) :
    (completeRequests conf cr pend q).2.ring = q.ring := by
  induction pend generalizing cr q with
  | nil => rfl
  | cons id pend ih =>
    unfold completeRequests
    dsimp only
    split
    · split
      · exact ring_qdmaSgtReqDone 0
      · rw [ih]
        exact ring_qdmaSgtReqDone 0
    · rfl

theorem ring_giveCredit : (giveCredit conf q).ring = q.ring :=
  @ring_completeRequests conf _ q.credit q.pendList

theorem ring_qdmaUpdateRequest (n c : ℕ) :
    (qdmaUpdateRequest q id n c).ring =
      { q.ring with workReqPend := (qdmaUpdateRequest q id n c).workReqPend } := by
  unfold qdmaUpdateRequest
  dsimp only
  split <;> rfl

theorem ring_foldl_enqueue (subs : List Submission) :
    (subs.foldl enqueue q).ring =
      { q.ring with workReqPend := (subs.foldl enqueue q).workReqPend } := by
  induction subs generalizing q with
  | nil => rfl
  | cons s subs ih =>
    rw [List.foldl_cons, ih]
    rfl

/-- The accounting is about the slots only. -/
theorem Indices.congr {v v' : RingView} (h : Indices conf k m v) (heq : v'.slots = v.slots) :
    Indices conf k m v' := by
  simp only [RingView.slots, Prod.mk.injEq] at heq
  obtain ⟨hcidx, havail, hpidx, hposted, hinfo, howners⟩ := heq
  constructor
  · rw [hcidx]
    exact h.cidx
  · rw [havail, howners]
    exact h.avail
  · rw [hpidx, hcidx, howners]
    exact h.pidx
  · rw [hposted, hcidx]
    exact h.posted
  · rw [hinfo, hcidx]
    exact h.info
  · exact h.posted_le
  · rw [howners]
    exact h.info_le

/-- The register is brought up to the PIDX value that was set aside. -/
theorem Indices.post {v v' : RingView} (h : Indices conf k m v)
    (hinfo : v.pidxInfoPidx = (v.cidx + m) % conf.rngsz)
    (heq : v'.slots = { v with posted := v.pidxInfoPidx }.slots) : Indices conf m m v' := by
  apply Indices.congr _ heq
  exact ⟨h.cidx, h.avail, h.pidx, hinfo, fun _ => hinfo, le_rfl, h.info_le⟩

theorem Indices.le (h : Indices conf k m q.ring) : k < conf.rngsz := by
  have havail := h.avail
  have hposted := h.posted_le
  have hinfo := h.info_le
  omega

/-- The hardware's part of the ring. -/
theorem Indices.ringIdxDelta_posted (h : Indices conf k m q.ring) :
    ringIdxDelta q.posted q.cidx conf.rngsz = k := by
  have hmod := ringIdxDelta_mod q.cidx h.le
  have hcidx : q.cidx % conf.rngsz = q.cidx := Nat.mod_eq_of_lt h.cidx
  have hposted : q.posted = (q.cidx + k) % conf.rngsz := h.posted
  rw [hcidx] at hmod
  rwa [hposted]

/-- The descriptors that the hardware was not told of. -/
theorem Indices.ringIdxDelta_pidx (h : Indices conf k m q.ring) :
    ringIdxDelta q.pidx q.posted conf.rngsz = q.owners.length - k := by
  have hle := h.posted_le.trans h.info_le
  have hlen : k ≤ q.owners.length := hle
  have havail : q.avail + q.owners.length + 1 = conf.rngsz := h.avail
  have hmod := @ringIdxDelta_mod (q.owners.length - k) conf.rngsz (q.cidx + k)
    (by omega)
  have hsum : q.cidx + k + (q.owners.length - k) = q.cidx + q.owners.length := by omega
  have hpidx : q.pidx = (q.cidx + q.owners.length) % conf.rngsz := h.pidx
  have hposted : q.posted = (q.cidx + k) % conf.rngsz := h.posted
  rwa [hsum, ← hpidx, ← hposted] at hmod

/-- The register and the consumer index agree exactly if the hardware has nothing to do. -/
theorem Indices.posted_eq_cidx_iff (h : Indices conf k m q.ring) :
    q.posted = q.cidx ↔ k = 0 := by
  constructor
  · intro heq
    have hdelta := h.ringIdxDelta_posted
    rw [heq, ringIdxDelta, if_pos le_rfl, Nat.sub_self] at hdelta
    exact hdelta.symm
  · intro hzero
    have hposted : q.posted = (q.cidx + k) % conf.rngsz := h.posted
    have hcidx : q.cidx < conf.rngsz := h.cidx
    rw [hposted, hzero, Nat.add_zero, Nat.mod_eq_of_lt hcidx]

/-- Descriptors that were posted are taken back. -/
theorem Indices.takeBack (h : Indices conf k m q.ring) (hr : r ≤ k) :
    Indices conf (k - r) (m - r) (H2c.takeBack conf r q).ring := by
  have havail : q.avail + q.owners.length + 1 = conf.rngsz := h.avail
  have hinfo : m ≤ q.owners.length := h.info_le
  have hposted := h.posted_le
  have hlt := h.le
  have hcidx : ringIdxIncr q.cidx r conf.rngsz = (q.cidx + r) % conf.rngsz :=
    ringIdxIncr_eq_mod h.cidx (by omega)
  have hshift : ∀ n, r ≤ n → (q.cidx + n) % conf.rngsz =
      (ringIdxIncr q.cidx r conf.rngsz + (n - r)) % conf.rngsz := by
    intro n hn
    rw [hcidx, Nat.mod_add_mod]
    congr 1
    omega
  constructor
  · exact ringIdxIncr_lt h.cidx (by omega)
  · change q.avail + r + (q.owners.drop r).length + 1 = conf.rngsz
    rw [List.length_drop]
    omega
  · change q.pidx = (ringIdxIncr q.cidx r conf.rngsz + (q.owners.drop r).length) % conf.rngsz
    rw [List.length_drop, ← hshift _ (by omega)]
    exact h.pidx
  · exact h.posted.trans (hshift k hr)
  · exact fun hpos => (h.info (by omega)).trans (hshift m (by omega))
  · omega
  · change m - r ≤ (q.owners.drop r).length
    rw [List.length_drop]
    omega

/-- The PIDX value set aside after descriptors were taken back. -/
theorem Indices.info_takeBack (h : Indices conf k m q.ring) (hr : r ≤ k) (hpos : 0 < r) :
    q.pidxInfoPidx = ((H2c.takeBack conf r q).cidx + (m - r)) % conf.rngsz := by
  have hinfo : q.pidxInfoPidx = (q.cidx + m) % conf.rngsz := h.info (by omega)
  have hle := h.posted_le
  have hlt := h.le
  have hcidx : (H2c.takeBack conf r q).cidx = (q.cidx + r) % conf.rngsz :=
    ringIdxIncr_eq_mod h.cidx (by omega)
  rw [hinfo, hcidx, Nat.mod_add_mod]
  congr 1
  omega

/-- The steps from the consumer index to where the hardware is. -/
theorem credits_eq (hcidx : q.cidx < conf.rngsz) (hr : r < conf.rngsz) :
    let cidxHw := ringIdxIncr q.cidx r conf.rngsz
    (if cidxHw < q.cidx then conf.rngsz - q.cidx + cidxHw else cidxHw - q.cidx) = r := by
  unfold ringIdxIncr
  dsimp only
  split <;> split <;> omega

/-- What a look at the completion status does: nothing but to take an entry from the script, or
the hardware has moved on by `r` descriptors. -/
theorem descqMmNH2cCmplStatus_cases (h : Indices conf k m q.ring) :
    (∃ rest, rest.length ≤ q.advances.length ∧
      descqMmNH2cCmplStatus conf q = { q with advances := rest }) ∨
    ∃ r n rest, q.advances = n :: rest ∧ 0 < r ∧ r ≤ k ∧
      descqMmNH2cCmplStatus conf q = (qdmaPidxUpdate conf
        (giveCredit conf (takeBack conf r { q with advances := rest })) true).2 := by
  unfold descqMmNH2cCmplStatus
  split
  · exact Or.inl ⟨q.advances, le_rfl, rfl⟩
  · unfold readCmplStatus
    cases hadv : q.advances with
    | nil =>
      left
      refine ⟨q.advances, by rw [hadv], ?_⟩
      dsimp only
      rw [if_pos rfl]
    | cons n rest =>
      dsimp only
      rw [h.ringIdxDelta_posted]
      by_cases hzero : ringIdxIncr q.cidx (min n k) conf.rngsz = q.cidx
      · rw [if_pos hzero]
        exact Or.inl ⟨rest, Nat.le_succ _, rfl⟩
      · rw [if_neg hzero]
        have hlt := h.le
        have hcr := credits_eq (q := q) (r := min n k) h.cidx (by omega)
        have hpos : 0 < min n k := by
          rw [Nat.pos_iff_ne_zero]
          intro heq
          apply hzero
          have hcidx : q.cidx < conf.rngsz := h.cidx
          rw [heq, ringIdxIncr, Nat.add_zero, if_neg (not_le.mpr hcidx)]
        right
        refine ⟨min n k, n, rest, rfl, hpos, Nat.min_le_right n k, ?_⟩
        dsimp only at hcr
        rw [hcr]
        rfl

/-- A forced write of the PIDX register. -/
theorem ring_qdmaPidxUpdate_true :
    (qdmaPidxUpdate conf q true).2.ring =
      { q.ring with doorbells := q.doorbells.tail } ∨
    (qdmaPidxUpdate conf q true).2.ring =
      { q.ring with doorbells := q.doorbells.tail, posted := q.pidxInfoPidx, descPend := 0 } := by
  unfold qdmaPidxUpdate queuePidxUpdate
  rw [if_pos (Or.inl rfl)]
  cases q.doorbells with
  | nil => exact Or.inr rfl
  | cons b rest =>
    cases b with
    | false => exact Or.inl rfl
    | true => exact Or.inr rfl

/-- A write of the PIDX register that does not fail. -/
theorem qdmaPidxUpdate_of_nil (hdoor : q.doorbells = []) (force : Bool) :
    qdmaPidxUpdate conf q force =
      if force = true ∨ q.avail > u32 ((conf.rngsz : ℤ) - 1 - conf.pidxAcc) ∨
          ¬ q.descPend < conf.pidxAcc then
        (0, { q with posted := q.pidxInfoPidx, descPend := 0 })
      else (0, q) := by
  unfold qdmaPidxUpdate queuePidxUpdate
  rw [hdoor]

theorem nextSlot_eq_mod {rngsz pidx : ℕ} (hpidx : pidx < rngsz) :
    nextSlot rngsz pidx = (pidx + 1) % rngsz := by
  unfold nextSlot
  split
  · rename_i heq
    rw [heq, Nat.mod_self]
  · rw [Nat.mod_eq_of_lt (by omega)]

theorem iterate_nextSlot {rngsz pidx : ℕ} (hpidx : pidx < rngsz) (n : ℕ) :
    (nextSlot rngsz)^[n] pidx = (pidx + n) % rngsz := by
  induction n with
  | zero => exact (Nat.mod_eq_of_lt hpidx).symm
  | succ n ih =>
    have hlt : (pidx + n) % rngsz < rngsz := Nat.mod_lt _ (by omega)
    rw [Function.iterate_succ_apply', ih, nextSlot_eq_mod hlt, Nat.mod_add_mod, Nat.add_assoc]

/-- Descriptors that were written, without the requests. -/
theorem Indices.extend (h : Indices conf k m q.ring) {n : ℕ} (hn : n ≤ q.avail) {v : RingView}
    (hcidx : v.cidx = q.cidx) (hpidx : v.pidx = (q.pidx + n) % conf.rngsz)
    (havail : v.avail = q.avail - n) (howners : v.owners.length = q.owners.length + n)
    (hposted : v.posted = q.posted) (hinfo : v.pidxInfoPidx = q.pidxInfoPidx) :
    Indices conf k m v := by
  have havail₀ : q.avail + q.owners.length + 1 = conf.rngsz := h.avail
  have hpidx₀ : q.pidx = (q.cidx + q.owners.length) % conf.rngsz := h.pidx
  have hinfo₀ : m ≤ q.owners.length := h.info_le
  constructor
  · rw [hcidx]
    exact h.cidx
  · omega
  · rw [hpidx, hcidx, howners, hpidx₀, Nat.mod_add_mod, Nat.add_assoc]
  · rw [hposted, hcidx]
    exact h.posted
  · rw [hinfo, hcidx]
    exact h.info
  · exact h.posted_le
  · omega

theorem Indices.pidx_lt (h : Indices conf k m q.ring) : q.pidx < conf.rngsz := by
  have hpidx : q.pidx = (q.cidx + q.owners.length) % conf.rngsz := h.pidx
  rw [hpidx]
  exact Nat.mod_lt _ conf.rngsz_pos

theorem length_cutElement_le (limit : ℕ) (window : Option (ℕ × ℕ)) (elem : ℕ)
    (room tlen src ep : ℕ) : (cutElement limit window elem room tlen src ep).1.length ≤ room := by
  induction room generalizing tlen src ep with
  | zero => exact le_rfl
  | succ room ih =>
    unfold cutElement
    dsimp only
    split
    · exact Nat.succ_le_succ (Nat.zero_le room)
    · exact Nat.succ_le_succ (ih _ _ _)

/-- No more pieces are made than there are free descriptors. -/
theorem length_cutList_le (limit : ℕ) (window : Option (ℕ × ℕ)) (elem : ℕ) (sgl : List SwSg)
    (off room ep : ℕ) : (cutList limit window elem sgl off room ep).length ≤ room := by
  induction sgl generalizing elem off room ep with
  | nil => exact Nat.zero_le room
  | cons sg sgl ih =>
    unfold cutList
    split
    · exact Nat.zero_le room
    · dsimp only
      rw [List.length_append]
      have hhead := length_cutElement_le limit window elem room (u32 ((sg.len : ℤ) - off))
        (u64 ((sg.dmaAddr : ℤ) + off)) ep
      have htail := ih (elem + 1) 0 (room - (cutElement limit window elem room
        (u32 ((sg.len : ℤ) - off)) (u64 ((sg.dmaAddr : ℤ) + off)) ep).1.length)
        (cutElement limit window elem room (u32 ((sg.len : ℤ) - off))
          (u64 ((sg.dmaAddr : ℤ) + off)) ep).2
      omega

/-- The descriptors of a request's pieces. -/
theorem Indices.issue (h : Indices conf k m q.ring) {pieces : List Piece}
    (hlen : pieces.length ≤ q.avail) :
    Indices conf k m (H2c.issue conf id pieces q).ring := by
  have hview := @ring_qdmaUpdateRequest q id pieces.length (dataCnt pieces)
  set q' := qdmaUpdateRequest q id pieces.length (dataCnt pieces) with hq'
  have hpidx : q'.pidx = q.pidx := congrArg RingView.pidx hview
  have havail : q'.avail = q.avail := congrArg RingView.avail hview
  have howners : q'.owners = q.owners := congrArg RingView.owners hview
  apply h.extend hlen
  · exact congrArg RingView.cidx hview
  · change (nextSlot conf.rngsz)^[pieces.length] q'.pidx = _
    rw [hpidx]
    exact iterate_nextSlot h.pidx_lt pieces.length
  · change q'.avail - pieces.length = _
    rw [havail]
  · change (q'.owners ++ List.replicate pieces.length id).length = _
    rw [howners, List.length_append, List.length_replicate]
  · exact congrArg RingView.posted hview
  · exact congrArg RingView.pidxInfoPidx hview

/-- What a look at the completion status leaves as it was. -/
theorem ring_descqMmNH2cCmplStatus (h : Indices conf k m q.ring) {α : Type} (f : RingView → α)
    (hf : ∀ v c a o s b p d, f { v with
      cidx := c, avail := a, owners := o, advances := s, doorbells := b, posted := p
      descPend := d } = f v) :
    f (descqMmNH2cCmplStatus conf q).ring = f q.ring := by
  obtain ⟨rest, -, heq⟩ | ⟨r, n, rest, -, -, -, heq⟩ := descqMmNH2cCmplStatus_cases h
  · rw [heq]
    exact hf q.ring q.cidx q.avail q.owners rest q.doorbells q.posted q.descPend
  · rw [heq]
    have hcredit : (giveCredit conf (takeBack conf r { q with advances := rest })).ring =
        (takeBack conf r { q with advances := rest }).ring := ring_giveCredit
    obtain hring | hring := @ring_qdmaPidxUpdate_true conf
      (giveCredit conf (takeBack conf r { q with advances := rest }))
    · rw [hring, hcredit]
      exact hf q.ring _ _ _ _ _ q.posted q.descPend
    · rw [hring, hcredit]
      exact hf q.ring _ _ _ _ _ _ 0

/-- A ring without descriptors. -/
theorem Indices.empty {v : RingView}
    (heq : (v.cidx, v.avail, v.pidx, v.posted, v.owners) = (0, conf.rngsz - 1, 0, 0, [])) :
    Indices conf 0 0 v := by
  simp only [Prod.mk.injEq] at heq
  obtain ⟨hcidx, havail, hpidx, hposted, howners⟩ := heq
  have hpos := conf.rngsz_pos
  constructor
  · omega
  · rw [havail, howners, List.length_nil]
    omega
  · rw [hpidx, hcidx, howners, List.length_nil, Nat.zero_mod]
  · rw [hposted, hcidx, Nat.zero_mod]
  · exact fun hzero => absurd hzero (lt_irrefl 0)
  · exact le_rfl
  · exact Nat.zero_le _

/-- The start of a queue. -/
theorem Indices.start (conf : QueueConf) : Indices conf 0 0 conf.start.ring := Indices.empty rfl

end

end OnicDriver.H2c
