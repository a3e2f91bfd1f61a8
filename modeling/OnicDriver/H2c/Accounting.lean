import OnicDriver.H2c.Steps
import OnicDriver.H2c.Mapped
import OnicDriver.H2c.Delimiters

/-!
# Accounting of the ring

In every run, whatever the clients submit, the callback fills and the hardware
consumes, the free descriptors and those between the two indices make up the ring
but for one slot. A descriptor stays as it was written until the hardware has
consumed it.
-/

namespace OnicDriver.H2c

open Lib Queue

/-- The ring is accounted for: the indices lie in it, the free descriptors and those that are not
yet completed are all but one, and the hardware was told of none that was not written. -/
structure RingOk (conf : QueueConf) (q : Descq) : Prop where
  pidx : q.pidx < conf.rngsz
  cidx : q.cidx < conf.rngsz
  avail : q.avail + ringIdxDelta q.pidx q.cidx conf.rngsz = conf.rngsz - 1
  outstanding : q.owners.length = ringIdxDelta q.pidx q.cidx conf.rngsz
  posted : ringIdxDelta q.posted q.cidx conf.rngsz ≤ ringIdxDelta q.pidx q.cidx conf.rngsz

/-- The two kinds of descriptors in a slot. -/
def Descq.slot (q : Descq) (i : ℕ) : MmDesc × H2cDesc := (q.mmDesc i, q.h2cDesc i)

/-- Between two states the hardware has consumed `c` descriptors, those for `added` were made, and
the older ones that are left are as they were. -/
structure Moved (conf : QueueConf) (c : ℕ) (added : List ReqId) (q q' : Descq) : Prop where
  le : c ≤ q.owners.length + added.length
  owners : q'.owners = (q.owners ++ added).drop c
  cidx : q'.cidx = (q.cidx + c) % conf.rngsz
  kept : ∀ i, c ≤ i → i < q.owners.length →
    q'.slot ((q.cidx + i) % conf.rngsz) = q.slot ((q.cidx + i) % conf.rngsz)

/-- The indices of the ring are right for some numbers of posted descriptors. -/
def Accounted (conf : QueueConf) (q : Descq) : Prop := ∃ k m, Indices conf k m q.ring

/-- A step of the ring. -/
structure Advances (conf : QueueConf) (q q' : Descq) : Prop where
  accounted : Accounted conf q'
  moved : ∃ c added, Moved conf c added q q'

section

variable {conf : QueueConf} {q q' q'' : Descq} {id : ReqId} {c c' n : ℕ} {added added' : List ReqId}

theorem Accounted.ringOk (h : Accounted conf q) : RingOk conf q := by
  obtain ⟨k, m, hind⟩ := h
  have hcidx : q.cidx < conf.rngsz := hind.cidx
  have havail : q.avail + q.owners.length + 1 = conf.rngsz := hind.avail
  have hdelta : ringIdxDelta q.pidx q.cidx conf.rngsz = q.owners.length := by
    have hmod := @ringIdxDelta_mod q.owners.length conf.rngsz q.cidx (by omega)
    have hpidx : q.pidx = (q.cidx + q.owners.length) % conf.rngsz := hind.pidx
    rwa [Nat.mod_eq_of_lt hcidx, ← hpidx] at hmod
  refine ⟨hind.pidx_lt, hcidx, ?_, hdelta.symm, ?_⟩
  · rw [hdelta]
    omega
  · rw [hdelta, hind.ringIdxDelta_posted]
    exact hind.posted_le.trans hind.info_le

/-! ## Composition -/

theorem Moved.refl (h : Accounted conf q) : Moved conf 0 [] q q := by
  obtain ⟨k, m, hind⟩ := h
  refine ⟨Nat.zero_le _, (List.append_nil _).symm, ?_, fun i _ _ => rfl⟩
  exact (Nat.mod_eq_of_lt hind.cidx).symm

theorem Moved.trans (h : Moved conf c added q q') (h' : Moved conf c' added' q' q'') :
    Moved conf (c + c') (added ++ added') q q'' := by
  have hlength : q'.owners.length = q.owners.length + added.length - c := by
    rw [h.owners, List.length_drop, List.length_append]
  have hle := h.le
  have hle' := h'.le
  constructor
  · rw [List.length_append]
    omega
  · have hdrop : (q.owners ++ added).drop c ++ added' = (q.owners ++ added ++ added').drop c :=
      (List.drop_append_of_le_length (by rw [List.length_append]; exact hle)).symm
    rw [h'.owners, h.owners, hdrop, List.drop_drop, List.append_assoc]
  · rw [h'.cidx, h.cidx, Nat.mod_add_mod, Nat.add_assoc]
  · intro i hi hlt
    have hback : (q'.cidx + (i - c)) % conf.rngsz = (q.cidx + i) % conf.rngsz := by
      rw [h.cidx, Nat.mod_add_mod]
      congr 1
      omega
    have hkept := h'.kept (i - c) (by omega) (by omega)
    rw [hback] at hkept
    exact hkept.trans (h.kept i (by omega) hlt)

theorem Advances.refl (h : Accounted conf q) : Advances conf q q := ⟨h, 0, [], Moved.refl h⟩

theorem Advances.trans (h : Advances conf q q') (h' : Advances conf q' q'') :
    Advances conf q q'' := by
  obtain ⟨-, c, added, hmoved⟩ := h
  obtain ⟨haccounted, c', added', hmoved'⟩ := h'
  exact ⟨haccounted, c + c', added ++ added', hmoved.trans hmoved'⟩

/-- What does not touch the ring. -/
theorem Accounted.same (h : Accounted conf q) (hslots : q'.ring.slots = q.ring.slots)
    (hslot : q'.slot = q.slot) : Advances conf q q' := by
  obtain ⟨k, m, hind⟩ := h
  have hfields := hslots
  simp only [RingView.slots, Prod.mk.injEq] at hfields
  obtain ⟨hcidx, -, -, -, -, howners⟩ := hfields
  have hcidx' : q'.cidx = q.cidx := hcidx
  have howners' : q'.owners = q.owners := howners
  refine ⟨⟨k, m, hind.congr hslots⟩, 0, [], Nat.zero_le _, ?_, ?_, fun i _ _ => congrFun hslot _⟩
  · rw [howners', List.append_nil]
    rfl
  · rw [hcidx']
    exact (Nat.mod_eq_of_lt hind.cidx).symm

/-! ## Completion status -/

theorem slot_unlinkReq : (unlinkReq q id).slot = q.slot := by
  unfold unlinkReq
  dsimp only
  split
  · rfl
  · rfl

theorem slot_qdmaSgtReqDone (error : ℤ) : (qdmaSgtReqDone conf q id error).slot = q.slot := by
  unfold qdmaSgtReqDone
  dsimp only
  split
  · exact slot_unlinkReq
  · exact slot_unlinkReq

theorem slot_completeRequests (cr : ℕ) (pend : List ReqId) :
    (completeRequests conf cr pend q).2.slot = q.slot := by
  induction pend generalizing cr q with
  | nil => rfl
  | cons id pend ih =>
    unfold completeRequests
    dsimp only
    split
    · split
      · exact slot_qdmaSgtReqDone 0
      · rw [ih]
        exact slot_qdmaSgtReqDone 0
    · rfl

theorem slot_giveCredit : (giveCredit conf q).slot = q.slot :=
  @slot_completeRequests conf _ q.credit q.pendList

theorem slot_qdmaPidxUpdate (force : Bool) : (qdmaPidxUpdate conf q force).2.slot = q.slot := by
  unfold qdmaPidxUpdate queuePidxUpdate
  split
  · cases q.doorbells with
    | nil => rfl
    | cons b rest => cases b <;> rfl
  · rfl

theorem Accounted.look (h : Accounted conf q) :
    Advances conf q (descqMmNH2cCmplStatus conf q) := by
  obtain ⟨k, m, hind⟩ := h
  obtain ⟨rest, -, heq⟩ | ⟨r, n, rest, -, hpos, hr, heq⟩ := descqMmNH2cCmplStatus_cases hind
  · rw [heq]
    exact Accounted.same ⟨k, m, hind⟩ rfl rfl
  · set q₀ := H2c.takeBack conf r { q with advances := rest } with hq₀
    have hind₀ : Indices conf (k - r) (m - r) q₀.ring :=
      Indices.takeBack (q := { q with advances := rest }) (hind.congr rfl) hr
    have hring : (giveCredit conf q₀).ring = q₀.ring := ring_giveCredit
    have hind₁ : Indices conf (k - r) (m - r) (giveCredit conf q₀).ring := by
      rw [hring]
      exact hind₀
    have hinfo : (giveCredit conf q₀).pidxInfoPidx =
        ((giveCredit conf q₀).cidx + (m - r)) % conf.rngsz := by
      have hcidx : (giveCredit conf q₀).cidx = q₀.cidx := congrArg RingView.cidx hring
      rw [hcidx]
      exact (congrArg RingView.pidxInfoPidx hring).trans (hind.info_takeBack hr hpos)
    have hlt := hind.le
    have hle := hind.posted_le.trans hind.info_le
    rw [heq]
    have hview : (qdmaPidxUpdate conf (giveCredit conf q₀) true).2.ring =
          { q₀.ring with doorbells := (giveCredit conf q₀).doorbells.tail } ∨
        (qdmaPidxUpdate conf (giveCredit conf q₀) true).2.ring =
          { q₀.ring with
            doorbells := (giveCredit conf q₀).doorbells.tail
            posted := (giveCredit conf q₀).pidxInfoPidx, descPend := 0 } := by
      rw [← hring]
      exact ring_qdmaPidxUpdate_true
    have hcidx : (qdmaPidxUpdate conf (giveCredit conf q₀) true).2.cidx = q₀.cidx := by
      rcases hview with hview | hview <;> exact congrArg RingView.cidx hview
    have howners : (qdmaPidxUpdate conf (giveCredit conf q₀) true).2.owners = q₀.owners := by
      rcases hview with hview | hview <;> exact congrArg RingView.owners hview
    constructor
    · rcases hview with hview | hview
      · refine ⟨k - r, m - r, ?_⟩
        rw [hview]
        exact hind₀.congr rfl
      · refine ⟨m - r, m - r, ?_⟩
        rw [hview, ← hring]
        exact hind₁.post hinfo rfl
    · refine ⟨r, [], ?_, ?_, ?_, fun i _ _ => ?_⟩
      · rw [List.length_nil]
        exact hr.trans hle
      · rw [howners, List.append_nil]
        rfl
      · rw [hcidx]
        exact ringIdxIncr_eq_mod hind.cidx (by omega)
      · rw [slot_qdmaPidxUpdate, slot_giveCredit]
        rfl

theorem Accounted.poll (h : Accounted conf q) :
    Advances conf q (descqPollMmNH2cCmplStatus conf q) := by
  unfold descqPollMmNH2cCmplStatus
  split
  · have hflag : Advances conf q { q with procReqRunning := true } := h.same rfl rfl
    exact hflag.trans hflag.accounted.look
  · exact Advances.refl h

/-! ## Descriptors -/

/-- Descriptors are taken from the free slots, and only those and the slot behind them are
written. -/
theorem Accounted.take (h : Accounted conf q) (hn : n ≤ q.avail)
    (hpidx : q'.pidx = (q.pidx + n) % conf.rngsz) (havail : q'.avail = q.avail - n)
    (howners : q'.owners = q.owners ++ List.replicate n id) (hcidx : q'.cidx = q.cidx)
    (hposted : q'.posted = q.posted) (hinfo : q'.pidxInfoPidx = q.pidxInfoPidx)
    (hslot : ∀ s, (∀ j ≤ n, s ≠ (q.pidx + j) % conf.rngsz) → q'.slot s = q.slot s) :
    Advances conf q q' := by
  obtain ⟨k, m, hind⟩ := h
  have hlength : q'.owners.length = q.owners.length + n := by
    rw [howners, List.length_append, List.length_replicate]
  have hfree : q.avail + q.owners.length + 1 = conf.rngsz := hind.avail
  refine ⟨⟨k, m, hind.extend hn hcidx hpidx havail hlength hposted hinfo⟩, 0,
    List.replicate n id, Nat.zero_le _, howners, ?_, fun i _ hi => hslot _ fun j hj heq => ?_⟩
  · rw [hcidx]
    exact (Nat.mod_eq_of_lt hind.cidx).symm
  · have hstart : q.pidx = (q.cidx + q.owners.length) % conf.rngsz := hind.pidx
    rw [hstart, Nat.mod_add_mod] at heq
    have hsame := eq_of_mod_eq (r := q.cidx) (n := conf.rngsz) (by omega) (by omega) (by omega)
      (by omega) heq
    omega

/-- Slots that are not written are left alone. -/
theorem storeMm_of_ne {sop : Bool} {pieces : List Piece} {pidx s : ℕ} {desc : ℕ → MmDesc}
    (hne : ∀ j ≤ pieces.length, (nextSlot conf.rngsz)^[j] pidx ≠ s) :
    storeMm conf sop pieces pidx desc s = desc s := by
  induction pieces generalizing sop pidx desc with
  | nil => rfl
  | cons p pieces ih =>
    have hself : s ≠ pidx := (hne 0 (Nat.zero_le _)).symm
    unfold storeMm
    rw [ih, Function.update_of_ne hself]
    intro j hj
    rw [← Function.iterate_succ_apply]
    exact hne (j + 1) (Nat.succ_le_succ hj)

theorem slot_qdmaUpdateRequest (n c : ℕ) : (qdmaUpdateRequest q id n c).slot = q.slot := by
  unfold qdmaUpdateRequest
  dsimp only
  split
  · rfl
  · rfl

theorem Accounted.update (h : Accounted conf q) (n c : ℕ) :
    Advances conf q (qdmaUpdateRequest q id n c) := by
  apply h.same _ (slot_qdmaUpdateRequest n c)
  rw [ring_qdmaUpdateRequest]
  rfl

/-- The descriptors of the pieces, which are stored in the slots they take. -/
theorem Accounted.issue (h : Accounted conf q) {pieces : List Piece}
    (hlen : pieces.length ≤ q.avail) {mm : ℕ → MmDesc} {st : ℕ → H2cDesc}
    (hmm : ∀ s, (∀ j ≤ pieces.length, (nextSlot conf.rngsz)^[j] q.pidx ≠ s) → mm s = q.mmDesc s)
    (hst : ∀ s, (∀ j ≤ pieces.length, (nextSlot conf.rngsz)^[j] q.pidx ≠ s) → st s = q.h2cDesc s) :
    Advances conf q (H2c.issue conf id pieces { q with mmDesc := mm, h2cDesc := st }) := by
  have hpidx : q.pidx < conf.rngsz := h.ringOk.pidx
  rw [issue_eq]
  have htake : Advances conf q
      { q with
        mmDesc := mm
        h2cDesc := st
        pidx := (nextSlot conf.rngsz)^[pieces.length] q.pidx
        avail := q.avail - pieces.length
        owners := q.owners ++ List.replicate pieces.length id
        written := q.written + pieces.length } := by
    refine h.take hlen (iterate_nextSlot hpidx _) rfl rfl rfl rfl rfl fun s hs => ?_
    have hne : ∀ j ≤ pieces.length, (nextSlot conf.rngsz)^[j] q.pidx ≠ s := by
      intro j hj heq
      exact hs j hj (heq.symm.trans (iterate_nextSlot hpidx j))
    exact Prod.ext (hmm s hne) (hst s hne)
  exact htake.trans (htake.accounted.update _ _)

theorem Accounted.qdmaQDescGet (h : Accounted conf q) (n : ℕ) :
    Advances conf q (qdmaQDescGet conf id n q).2 := by
  have hlook : Advances conf q (if q.avail < n then descqMmNH2cCmplStatus conf q else q) := by
    split
    · exact h.look
    · exact Advances.refl h
  unfold H2c.qdmaQDescGet
  split
  · exact Advances.refl h
  · dsimp only
    set q₁ := if q.avail < n then descqMmNH2cCmplStatus conf q else q
    split
    · exact hlook
    · rename_i hsize havail
      rw [ge_iff_le, not_le] at hsize
      have hok := hlook.accounted.ringOk
      have hincr : ringIdxIncr q₁.pidx n conf.rngsz = (q₁.pidx + n) % conf.rngsz :=
        ringIdxIncr_eq_mod hok.pidx (by omega)
      apply hlook.trans
      exact hlook.accounted.take (by omega) hincr rfl rfl rfl rfl rfl fun s _ => rfl

theorem Accounted.getDescs (h : Accounted conf q) (gets : List ℕ) :
    Advances conf q (getDescs conf id gets q).2 := by
  induction gets generalizing q with
  | nil => exact Advances.refl h
  | cons n gets ih =>
    have hget : Advances conf q (H2c.qdmaQDescGet conf id n q).2 := h.qdmaQDescGet n
    exact hget.trans (ih hget.accounted)

theorem slot_foldl_enqueue (subs : List Submission) :
    (subs.foldl enqueue q).slot = q.slot := by
  induction subs generalizing q with
  | nil => rfl
  | cons s subs ih =>
    rw [List.foldl_cons, ih]
    rfl

theorem Accounted.enqueue (h : Accounted conf q) (subs : List Submission) :
    Advances conf q (subs.foldl H2c.enqueue q) := by
  apply h.same _ (slot_foldl_enqueue subs)
  rw [ring_foldl_enqueue]
  rfl

/-- Whatever the callback asks for and queues. -/
theorem Accounted.fill (h : Accounted conf q) (fill : Descq → ReqId → Fill) :
    Advances conf q (fpBypassDescFill conf fill id q).2 := by
  have hgets : Advances conf q (H2c.getDescs conf id (fill q id).gets q).2 := h.getDescs _
  have hqueued := hgets.trans (hgets.accounted.enqueue (fill q id).queued)
  unfold fpBypassDescFill
  dsimp only
  cases (fill q id).dataCnt with
  | none => exact hqueued
  | some dataCnt => exact hqueued.trans (hqueued.accounted.update _ _)

/-! ## Steps -/

theorem Accounted.mmPass (h : Accounted conf q) : Advances conf q (mmPass conf id q).2 := by
  have hpoll : Advances conf q
      (if q.avail = 0 then descqPollMmNH2cCmplStatus conf q else q) := by
    split
    · exact h.poll
    · exact Advances.refl h
  unfold H2c.mmPass
  dsimp only
  set q₁ := if q.avail = 0 then descqPollMmNH2cCmplStatus conf q else q
  split
  · exact hpoll
  · cases conf.ulExt with
    | some fill => exact hpoll.trans (hpoll.accounted.fill fill)
    | none =>
      dsimp only
      split
      · exact hpoll.trans (hpoll.accounted.update 0 0)
      · split
        · exact hpoll
        · exact hpoll.trans (hpoll.accounted.issue (length_cutList_le _ _ _ _ _ _ _)
            (fun s hs => storeMm_of_ne hs) fun s _ => rfl)

theorem Accounted.stPass (h : Accounted conf q) : Advances conf q (stPass conf id q).2 := by
  have hpoll : Advances conf q
      (if q.avail = 0 then descqPollMmNH2cCmplStatus conf q else q) := by
    split
    · exact h.poll
    · exact Advances.refl h
  unfold H2c.stPass
  dsimp only
  set q₁ := if q.avail = 0 then descqPollMmNH2cCmplStatus conf q else q
  split
  · exact hpoll
  · cases conf.ulExt with
    | some fill => exact hpoll.trans (hpoll.accounted.fill fill)
    | none =>
      dsimp only
      split
      · exact hpoll.trans (hpoll.accounted.update 0 0)
      · refine hpoll.trans (hpoll.accounted.issue (length_cutList_le _ _ _ _ _ _ _)
          (fun s _ => rfl) fun s hs => ?_)
        rw [storeSt_of_ne hs]
        exact Function.update_of_ne (hs 0 (Nat.zero_le _)).symm _ _

theorem Accounted.aside (h : Accounted conf q) (hslots : q'.ring.slots =
    { q.ring with pidxInfoPidx := q.pidx }.slots) (hslot : q'.slot = q.slot) :
    Advances conf q q' := by
  obtain ⟨k, m, hind⟩ := h
  have hset : Indices conf k q.owners.length { q.ring with pidxInfoPidx := q.pidx } :=
    ⟨hind.cidx, hind.avail, hind.pidx, hind.posted, fun _ => hind.pidx,
      hind.posted_le.trans hind.info_le, le_rfl⟩
  have hfields := hslots
  simp only [RingView.slots, Prod.mk.injEq] at hfields
  have hcidx : q'.cidx = q.cidx := hfields.1
  have howners : q'.owners = q.owners := hfields.2.2.2.2.2
  refine ⟨⟨k, _, hset.congr hslots⟩, 0, [], Nat.zero_le _, ?_, ?_, fun i _ _ => congrFun hslot _⟩
  · rw [howners, List.append_nil]
    rfl
  · rw [hcidx]
    exact (Nat.mod_eq_of_lt hind.cidx).symm

theorem Accounted.post (h : Accounted conf q) (hslots : q'.ring.slots =
    { q.ring with pidxInfoPidx := q.pidx, posted := q.pidx }.slots) (hslot : q'.slot = q.slot) :
    Advances conf q q' := by
  obtain ⟨k, m, hind⟩ := h
  have hset : Indices conf q.owners.length q.owners.length
      { q.ring with pidxInfoPidx := q.pidx, posted := q.pidx } :=
    ⟨hind.cidx, hind.avail, hind.pidx, hind.pidx, fun _ => hind.pidx, le_rfl, le_rfl⟩
  have hfields := hslots
  simp only [RingView.slots, Prod.mk.injEq] at hfields
  have hcidx : q'.cidx = q.cidx := hfields.1
  have howners : q'.owners = q.owners := hfields.2.2.2.2.2
  refine ⟨⟨_, _, hset.congr hslots⟩, 0, [], Nat.zero_le _, ?_, ?_, fun i _ _ => congrFun hslot _⟩
  · rw [howners, List.append_nil]
    rfl
  · rw [hcidx]
    exact (Nat.mod_eq_of_lt hind.cidx).symm

theorem Accounted.step (h : Accounted conf q) (hstep : CallStep conf q q') :
    Advances conf q q' := by
  cases hstep with
  | look => exact h.look
  | flags running => exact h.same rfl rfl
  | aside empty pend doorbells => exact h.aside rfl rfl
  | post empty pend doorbells => exact h.post rfl rfl
  | pass hwork =>
    unfold passOf
    split
    · exact h.stPass
    · exact h.mmPass
  | fill hext hwork => exact h.fill _

theorem Accounted.steps (h : Accounted conf q) (hsteps : CallSteps conf q q') :
    Advances conf q q' := by
  induction hsteps with
  | refl => exact Advances.refl h
  | tail _ hstep ih => exact ih.trans (ih.accounted.step hstep)

/-! ## Calls of the clients -/

/-- What a call does outside of the processing: the ring stays. -/
structure SameRing (q q' : Descq) : Prop where
  slots : q'.ring.slots = q.ring.slots
  slot : q'.slot = q.slot

theorem SameRing.refl (q : Descq) : SameRing q q := ⟨rfl, rfl⟩

theorem SameRing.trans (h : SameRing q q') (h' : SameRing q' q'') : SameRing q q'' :=
  ⟨h'.slots.trans h.slots, h'.slot.trans h.slot⟩

theorem SameRing.foldl {α : Type} {f : Descq → α → Descq} (hf : ∀ q a, SameRing q (f q a))
    (l : List α) : SameRing q (l.foldl f q) := by
  induction l generalizing q with
  | nil => exact SameRing.refl q
  | cons a l ih => exact (hf q a).trans ih

theorem sameRing_setReq (q : Descq) (id : ReqId) (req : QdmaRequest) :
    SameRing q (q.setReq id req) := ⟨rfl, rfl⟩

theorem sameRing_setCb (q : Descq) (id : ReqId) (cb : SgtReqCb) : SameRing q (q.setCb id cb) :=
  ⟨rfl, rfl⟩

theorem sameRing_listDel (q : Descq) (id : ReqId) : SameRing q (q.listDel id) := ⟨rfl, rfl⟩

theorem sameRing_qdmaWorkQueueAdd (q : Descq) (id : ReqId) :
    SameRing q (qdmaWorkQueueAdd q id) := ⟨rfl, rfl⟩

theorem sameRing_qdmaWorkQueueDel (q : Descq) (id : ReqId) :
    SameRing q (qdmaWorkQueueDel q id) := ⟨rfl, rfl⟩

theorem sameRing_batchAdd (q : Descq) (item : BatchItem) : SameRing q (batchAdd q item) :=
  ⟨rfl, rfl⟩

theorem sameRing_completions (q : Descq) (done : List Completion) :
    SameRing q { q with completions := done } := ⟨rfl, rfl⟩

theorem sameRing_sglMapReq (maps : List (Option ℕ)) : SameRing q (sglMapReq q id maps).2 :=
  ⟨rfl, rfl⟩

theorem sameRing_mapForSubmit (maps : List (Option ℕ)) :
    SameRing q (mapForSubmit q id maps).2 := by
  unfold mapForSubmit
  split
  · exact SameRing.refl q
  · dsimp only
    split
    · exact ⟨rfl, rfl⟩
    · exact ⟨rfl, rfl⟩

theorem sameRing_unmapSgl : SameRing q (unmapSgl q id) := by
  unfold unmapSgl
  split
  · exact SameRing.refl q
  · exact ⟨rfl, rfl⟩

theorem sameRing_batchMap (q : Descq) (item : BatchItem) : SameRing q (batchMap q item) := by
  have hset := (sameRing_setReq q item.id item.req).trans (sameRing_setCb _ item.id {})
  have hmap := hset.trans (@sameRing_sglMapReq _ item.id item.maps)
  unfold batchMap
  dsimp only
  split
  · exact hset
  · apply SameRing.trans _ (sameRing_setCb _ item.id _)
    split
    · exact hmap
    · exact hmap.trans (sameRing_completions _ _)

theorem sameRing_stopRequest {del : Descq → ReqId → Descq}
    (hdel : ∀ q id, SameRing q (del q id)) (q : Descq) (id : ReqId) :
    SameRing q (stopRequest del q id) := by
  have hdone := sameRing_setCb q id { q.cb id with done := true, status := - ENXIO }
  unfold stopRequest
  dsimp only
  split
  · exact (hdone.trans (hdel _ id)).trans (sameRing_completions _ _)
  · exact hdone.trans (sameRing_completions _ _)

theorem sameRing_qdmaQueueStopEnd : SameRing q (qdmaQueueStopEnd q) := by
  have hstate : SameRing q { q with qState := .enabled, qStopWait := false } := ⟨rfl, rfl⟩
  unfold qdmaQueueStopEnd
  apply hstate.trans
  exact (SameRing.foldl (sameRing_stopRequest sameRing_listDel) _).trans
    (SameRing.foldl (sameRing_stopRequest sameRing_qdmaWorkQueueDel) _)

theorem Accounted.keep (h : Accounted conf q) (hsame : SameRing q q') : Advances conf q q' :=
  h.same hsame.slots hsame.slot

/-- A processing call of a client, and what came before it. -/
theorem Accounted.call (h : Accounted conf q) (hsame : SameRing q q') (inp : CallInput) :
    Advances conf q (afterCall (q'.scripted inp)
      (qdmaDescqProcSgtRequest conf inp.fuel inp.doorbell (q'.scripted inp))) := by
  have hset : Advances conf q (q'.scripted inp) := h.keep (hsame.trans ⟨rfl, rfl⟩)
  exact hset.trans (hset.accounted.steps CallSteps.call)

/-- Every call of a client but the start of the queue. -/
theorem Accounted.clientStep {s : Clients} (h : Accounted conf s.q) (e : ClientEvent)
    (hstart : ∀ ok, e ≠ .start ok) : Advances conf s.q (clientStep conf s e).q := by
  cases e with
  | requestSubmit id req maps inp =>
    change Advances conf s.q (qdmaRequestSubmit conf id req maps inp s).2.q
    have hset := sameRing_setReq s.q id req
    have hmap := (hset.trans (sameRing_setCb _ id {})).trans (@sameRing_mapForSubmit _ id maps)
    unfold qdmaRequestSubmit
    dsimp only
    split
    · exact h.keep hset
    · split
      · exact h.keep (hmap.trans sameRing_unmapSgl)
      · split
        · exact h.keep (hmap.trans sameRing_unmapSgl)
        · exact h.call (hmap.trans (sameRing_qdmaWorkQueueAdd _ id)) inp
  | batchSubmit first rest inp =>
    change Advances conf s.q (qdmaBatchRequestSubmit conf first rest inp s.q).2
    have hmap : SameRing s.q ((first :: rest).foldl batchMap s.q) :=
      SameRing.foldl sameRing_batchMap _
    unfold qdmaBatchRequestSubmit
    split
    · exact Advances.refl h
    · dsimp only
      split
      · exact h.keep hmap
      · exact h.call (hmap.trans (SameRing.foldl sameRing_batchAdd _)) inp
  | packetAdd sub =>
    change Advances conf s.q (packetWriteAdd conf sub s).2.q
    unfold packetWriteAdd
    split
    · exact Advances.refl h
    · exact h.keep ⟨rfl, rfl⟩
  | packetMap id maps inp =>
    change Advances conf s.q (packetWriteMap conf id maps inp s).2.q
    have hmap : SameRing s.q (mapForSubmit s.q id maps).2 := sameRing_mapForSubmit maps
    have hunmap : ∀ q : Descq,
        SameRing q (if (q.cb id).unmapNeeded then sglUnmapReq q id else q) := by
      intro q
      split
      · exact ⟨rfl, rfl⟩
      · exact SameRing.refl q
    unfold packetWriteMap
    dsimp only
    split
    · exact h.keep (hmap.trans (hunmap _))
    · split
      · exact h.keep (hmap.trans (hunmap _))
      · exact h.call hmap inp
  | waited id =>
    change Advances conf s.q (qdmaRequestWaitForCmpl id s).2.q
    unfold qdmaRequestWaitForCmpl
    dsimp only
    split
    · exact h.keep ((sameRing_listDel s.q id).trans sameRing_unmapSgl)
    · split
      · exact h.keep sameRing_unmapSgl
      · exact Advances.refl h
  | process inp => exact h.call (SameRing.refl s.q) inp
  | service inp =>
    have hset : Advances conf s.q (s.q.scripted inp) := h.keep ⟨rfl, rfl⟩
    exact hset.trans (hset.accounted.steps CallSteps.serviceCall)
  | stopBegin =>
    change Advances conf s.q (qdmaQueueStopBegin s.q).2
    unfold qdmaQueueStopBegin
    split
    · exact Advances.refl h
    · exact h.keep ⟨rfl, rfl⟩
  | stopEnd => exact h.keep sameRing_qdmaQueueStopEnd
  | start ok => exact absurd rfl (hstart ok)

/-- The start of the queue makes new rings, or leaves the queue alone. -/
theorem Accounted.start (h : Accounted conf q) (ok : Bool) :
    Accounted conf (qdmaQueueStart conf ok q).2 := by
  unfold qdmaQueueStart
  split
  · exact h
  · dsimp only
    split
    · exact ⟨0, 0, Indices.empty rfl⟩
    · exact ⟨0, 0, Indices.empty rfl⟩

theorem accounted_run {s : Clients} (h : Accounted conf s.q) (es : List ClientEvent) :
    Accounted conf (run (H2c.clientStep conf) s es).q := by
  induction es generalizing s with
  | nil => exact h
  | cons e es ih =>
    apply ih
    cases e with
    | start ok => exact h.start ok
    | _ => exact (h.clientStep _ (by intro ok heq; cases heq)).accounted

theorem advances_run {s : Clients} (h : Accounted conf s.q) {es : List ClientEvent}
    (hes : ∀ e ∈ es, ∀ ok, e ≠ .start ok) :
    Advances conf s.q (run (H2c.clientStep conf) s es).q := by
  induction es generalizing s with
  | nil => exact Advances.refl h
  | cons e es ih =>
    have hstep := h.clientStep e (hes e List.mem_cons_self)
    exact hstep.trans (ih hstep.accounted fun e he => hes e (List.mem_cons_of_mem _ he))

/-- In every run, whatever its clients do, the ring is accounted for; and between two states of a
run without a start of the queue the hardware consumes descriptors from the oldest on, which stay as
they were made until then. -/
theorem clientRun_ring (conf : QueueConf) (es fs : List ClientEvent) :
    let s := run (clientStep conf) { q := conf.start } es
    RingOk conf s.q ∧ ((∀ e ∈ fs, ∀ ok, e ≠ .start ok) →
      ∃ c added, Moved conf c added s.q (run (clientStep conf) s fs).q) := by
  have hstart : Accounted conf conf.start := ⟨0, 0, Indices.start conf⟩
  have h := accounted_run (s := { q := conf.start }) hstart es
  exact ⟨h.ringOk, fun hfs => (advances_run h hfs).moved⟩

end

end OnicDriver.H2c
