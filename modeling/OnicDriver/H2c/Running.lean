import OnicDriver.H2c.Control
import OnicDriver.Lib.Runs
import Mathlib.Data.List.Nodup

/-!
# Queues that are processed in poll and auto mode

A call sets the flag `proc_req_running` and clears it at its end, unless its
last write of the PIDX register fails. While the flag is clear, a call on a queue
with a free descriptor and a request writes a descriptor: the list of a request
covers its bytes, so that a pass finds where the request goes on, and every pass
uses up descriptors, of which the hardware can return only so many.
-/

namespace OnicDriver.H2c

open Lib Queue

/-! ## Requests that can be served -/

/-- The list of a request covers its bytes. -/
structure Covers (req : QdmaRequest) : Prop where
  length : req.sgl.length = req.sgcnt
  nonempty : req.sgl ≠ []
  count_le : req.count ≤ (req.sgl.map SwSg.len).sum
  sum_lt : (req.sgl.map SwSg.len).sum < 2 ^ 32

/-- A request with something to transfer, or one for no bytes. -/
def Unfinished (req : QdmaRequest) (cb : SgtReqCb) : Prop := req.count = 0 ∨ cb.offset < req.count

instance (req : QdmaRequest) (cb : SgtReqCb) : Decidable (Unfinished req cb) :=
  inferInstanceAs (Decidable (_ ∨ _))

/-- A list that reaches beyond the offset has an element that holds it. -/
theorem findOffset_isSome {offset i len : ℕ} {sgl : List SwSg} (hle : len ≤ offset)
    (hlt : offset < len + (sgl.map SwSg.len).sum)
    (hsum : len + (sgl.map SwSg.len).sum < 2 ^ 32) :
    ∃ j off, findOffset offset i len sgl = some (j, off) ∧ j < i + sgl.length := by
  induction sgl generalizing i len with
  | nil =>
    rw [List.map_nil, List.sum_nil] at hlt
    omega
  | cons sg sgl ih =>
    rw [List.map_cons, List.sum_cons] at hlt hsum
    have hwrap : u32 ((len : ℤ) + sg.len) = len + sg.len := by
      rw [← Nat.cast_add]
      exact u32_natCast (by omega)
    unfold findOffset
    dsimp only
    rw [hwrap, List.length_cons]
    split
    · rename_i heq
      cases sgl with
      | nil =>
        rw [List.map_nil, List.sum_nil] at hlt
        omega
      | cons sg' sgl =>
        rw [if_neg (List.cons_ne_nil _ _), List.length_cons]
        exact ⟨i + 1, 0, rfl, by omega⟩
    · rename_i hne
      split
      · exact ⟨i, _, rfl, by omega⟩
      · rename_i hge
        obtain ⟨j, off, hfind, hj⟩ := @ih (i + 1) (len + sg.len) (by omega) (by omega)
          (by omega)
        exact ⟨j, off, hfind, by omega⟩

/-- A request that is not finished goes on at one of its elements. -/
theorem Covers.findOffset {req : QdmaRequest} {cb : SgtReqCb} (h : Covers req)
    (hun : Unfinished req cb) :
    ∃ i off, qdmaSglFindOffset req cb = some (i, off) ∧ i < req.sgl.length := by
  have htake : req.sgl.take req.sgcnt = req.sgl := by
    rw [← h.length, List.take_length]
  unfold qdmaSglFindOffset
  rw [htake]
  by_cases hzero : req.count = 0
  · rw [if_pos hzero]
    exact ⟨0, 0, rfl, List.length_pos_iff.mpr h.nonempty⟩
  · rw [if_neg hzero]
    have hle := h.count_le
    have hsum := h.sum_lt
    have hlt : cb.offset < req.count := by
      obtain hcount | hlt := hun
      · exact absurd hcount hzero
      · exact hlt
    obtain ⟨j, off, hfind, hj⟩ := @findOffset_isSome _ 0 0 req.sgl
      (Nat.zero_le cb.offset) (by omega) (by omega)
    exact ⟨j, off, hfind, by omega⟩

/-- An element with room for a descriptor gives one. -/
theorem cutList_ne_nil {limit : ℕ} {window : Option (ℕ × ℕ)} {elem off room ep : ℕ}
    {sgl : List SwSg} (hsgl : sgl ≠ []) (hroom : room ≠ 0) :
    cutList limit window elem sgl off room ep ≠ [] := by
  cases sgl with
  | nil => exact absurd rfl hsgl
  | cons sg sgl =>
    cases room with
    | zero => exact absurd rfl hroom
    | succ room =>
      unfold cutList
      rw [if_neg hroom]
      dsimp only
      intro hnil
      have hhead := (List.append_eq_nil_iff.mp hnil).1
      unfold cutElement at hhead
      dsimp only at hhead
      split at hhead
      · cases hhead
      · cases hhead

/-! ## What completions leave alone -/

/-- The requests of the work list are as they were, and none has come to the pending list. -/
structure KeepsWork (q q' : Descq) : Prop where
  work : q'.workList = q.workList
  req : ∀ id ∈ q.workList, q'.req id = q.req id
  cb : ∀ id ∈ q.workList, q'.cb id = q.cb id
  pend : ∀ id ∈ q'.pendList, id ∈ q.pendList

section

variable {conf : QueueConf} {q q' q'' : Descq} {id : ReqId}

/-- Other fields do not matter. -/
theorem KeepsWork.of_eq (hwork : q'.workList = q.workList) (hpend : q'.pendList = q.pendList)
    (hreq : q'.req = q.req) (hcb : q'.cb = q.cb) : KeepsWork q q' := by
  constructor
  · exact hwork
  · exact fun id _ => congrFun hreq id
  · exact fun id _ => congrFun hcb id
  · exact fun id hid => hpend ▸ hid

theorem KeepsWork.refl (q : Descq) : KeepsWork q q := KeepsWork.of_eq rfl rfl rfl rfl

theorem KeepsWork.trans (h : KeepsWork q q') (h' : KeepsWork q' q'') : KeepsWork q q'' := by
  constructor
  · rw [h'.work, h.work]
  · intro id hid
    rw [h'.req id (h.work ▸ hid), h.req id hid]
  · intro id hid
    rw [h'.cb id (h.work ▸ hid), h.cb id hid]
  · exact fun id hid => h.pend id (h'.pend id hid)

theorem KeepsWork.setCb (hid : id ∉ q.workList) (cb : SgtReqCb) :
    KeepsWork q (q.setCb id cb) := by
  refine ⟨rfl, fun _ _ => rfl, ?_, fun _ h => h⟩
  intro j hj
  exact Function.update_of_ne (ne_of_mem_of_not_mem hj hid) _ _

theorem KeepsWork.qdmaSgtReqDone (hid : id ∉ q.workList) (error : ℤ) :
    KeepsWork q (qdmaSgtReqDone conf q id error) := by
  have hends := @qdmaSgtReqDone_ends conf q id error
  constructor
  · rw [hends.work, List.erase_of_not_mem hid]
  · exact fun j hj => hends.req j (ne_of_mem_of_not_mem hj hid)
  · exact fun j hj => hends.cb j (ne_of_mem_of_not_mem hj hid)
  · intro j hj
    rw [hends.pend] at hj
    exact List.mem_of_mem_erase hj

theorem KeepsWork.completeRequests {cr : ℕ} {pend : List ReqId}
    (hpend : ∀ id ∈ pend, id ∉ q.workList) :
    KeepsWork q (completeRequests conf cr pend q).2 := by
  induction pend generalizing cr q with
  | nil => exact KeepsWork.refl q
  | cons id pend ih =>
    have hid := hpend id List.mem_cons_self
    unfold H2c.completeRequests
    dsimp only
    split
    · have hdone := @KeepsWork.qdmaSgtReqDone conf _ _ hid 0
      split
      · exact hdone
      · apply hdone.trans
        apply ih
        intro j hj
        rw [hdone.work]
        exact hpend j (List.mem_cons_of_mem id hj)
    · exact KeepsWork.setCb hid _

theorem KeepsWork.qdmaPidxUpdate (force : Bool) :
    KeepsWork q (qdmaPidxUpdate conf q force).2 := by
  unfold H2c.qdmaPidxUpdate queuePidxUpdate
  split
  · cases q.doorbells with
    | nil => exact KeepsWork.of_eq rfl rfl rfl rfl
    | cons b rest => cases b <;> exact KeepsWork.of_eq rfl rfl rfl rfl
  · exact KeepsWork.refl q

/-! ## The invariant -/

/-- A queue whose ring is accounted for and whose work list holds requests that can be served. -/
structure Serving (conf : QueueConf) (q : Descq) : Prop where
  indices : ∃ k m, Indices conf k m q.ring
  nodup : q.workList.Nodup
  apart : ∀ id ∈ q.workList, id ∉ q.pendList
  covers : ∀ id ∈ q.workList, Covers (q.req id)
  unfinished : ∀ id ∈ q.workList, Unfinished (q.req id) (q.cb id)

/-- How many descriptors can at most be written before the free ones and those that the hardware
returns are used up. -/
def potential (conf : QueueConf) (q : Descq) : ℕ := q.advances.length * conf.rngsz + q.avail

/-- Requests may leave the lists. -/
theorem Serving.shrink (h : Serving conf q) (hwork : q'.workList.Sublist q.workList)
    (hpend : ∀ id ∈ q'.pendList, id ∈ q.pendList)
    (hreq : ∀ id ∈ q'.workList, q'.req id = q.req id)
    (hcb : ∀ id ∈ q'.workList, (q'.cb id).offset = (q.cb id).offset)
    (hind : ∃ k m, Indices conf k m q'.ring) : Serving conf q' := by
  refine ⟨hind, h.nodup.sublist hwork, ?_, ?_, ?_⟩
  · exact fun id hid hmem => h.apart id (hwork.subset hid) (hpend id hmem)
  · intro id hid
    rw [hreq id hid]
    exact h.covers id (hwork.subset hid)
  · intro id hid
    unfold Unfinished
    rw [hreq id hid, hcb id hid]
    exact h.unfinished id (hwork.subset hid)

/-- Only the ring has changed. -/
theorem Serving.of_keepsWork (h : Serving conf q) (hkeep : KeepsWork q q')
    (hind : ∃ k m, Indices conf k m q'.ring) : Serving conf q' := by
  have hsub : ∀ id ∈ q'.workList, id ∈ q.workList := fun id hid => hkeep.work ▸ hid
  apply h.shrink _ hkeep.pend _ _ hind
  · rw [hkeep.work]
  · exact fun id hid => hkeep.req id (hsub id hid)
  · exact fun id hid => congrArg SgtReqCb.offset (hkeep.cb id (hsub id hid))

theorem Serving.avail_lt (h : Serving conf q) : q.avail < conf.rngsz := by
  obtain ⟨k, m, hind⟩ := h.indices
  have havail : q.avail + q.owners.length + 1 = conf.rngsz := hind.avail
  omega

/-- What a look at the completion status does for the loop. -/
structure Polled (conf : QueueConf) (q q' : Descq) : Prop where
  serving : Serving conf q'
  keeps : KeepsWork q q'
  written : q'.written = q.written
  avail : q.avail ≤ q'.avail
  potential_le : potential conf q' ≤ potential conf q

theorem Serving.status (h : Serving conf q) :
    Polled conf q (descqMmNH2cCmplStatus conf q) := by
  obtain ⟨k, m, hind⟩ := h.indices
  obtain ⟨rest, hrest, heq⟩ | ⟨r, n, rest, hadv, hpos, hr, heq⟩ := descqMmNH2cCmplStatus_cases hind
  · have hkeep : KeepsWork q { q with advances := rest } :=
      ⟨rfl, fun _ _ => rfl, fun _ _ => rfl, fun _ h => h⟩
    rw [heq]
    refine ⟨h.of_keepsWork hkeep ⟨k, m, ?_⟩, hkeep, rfl, le_rfl, ?_⟩
    · exact ⟨hind.cidx, hind.avail, hind.pidx, hind.posted, hind.info, hind.posted_le,
        hind.info_le⟩
    · exact Nat.add_le_add_right (Nat.mul_le_mul_right conf.rngsz hrest) q.avail
  · rw [heq]
    set q₀ := takeBack conf r { q with advances := rest } with hq₀
    have hind₀ : Indices conf (k - r) (m - r) q₀.ring := by
      exact Indices.takeBack (q := { q with advances := rest }) (hind.congr rfl) hr
    have hinfo : q₀.pidxInfoPidx = (q₀.cidx + (m - r)) % conf.rngsz := hind.info_takeBack hr hpos
    have hkeep₀ : KeepsWork q q₀ := KeepsWork.of_eq rfl rfl rfl rfl
    have hcredit : (giveCredit conf q₀).ring = q₀.ring := ring_giveCredit
    have hkeep₁ : KeepsWork q (giveCredit conf q₀) := by
      have hcomplete : KeepsWork q₀ (completeRequests conf q₀.credit q₀.pendList q₀).2 :=
        KeepsWork.completeRequests fun id hpend hid => h.apart id hid hpend
      have hall := hkeep₀.trans hcomplete
      exact ⟨hall.work, hall.req, hall.cb, hall.pend⟩
    have hkeep := hkeep₁.trans
      (@KeepsWork.qdmaPidxUpdate conf (giveCredit conf q₀) true)
    have hlen : r ≤ q.owners.length := hr.trans (hind.posted_le.trans hind.info_le)
    have havail : q.avail + q.owners.length + 1 = conf.rngsz := hind.avail
    have hpost := @ring_qdmaPidxUpdate_true conf (giveCredit conf q₀)
    have hind₁ : ∃ k m,
        Indices conf k m (qdmaPidxUpdate conf (giveCredit conf q₀) true).2.ring := by
      obtain hring | hring := hpost
      · rw [hring, hcredit]
        exact ⟨k - r, m - r, hind₀.congr rfl⟩
      · have hinfo₁ : (giveCredit conf q₀).pidxInfoPidx = q₀.pidxInfoPidx :=
          congrArg RingView.pidxInfoPidx hcredit
        rw [hring, hcredit, hinfo₁]
        exact ⟨m - r, m - r, hind₀.post hinfo rfl⟩
    have hview : ∀ {α : Type} (f : RingView → α),
        (∀ v b p d, f { v with doorbells := b, posted := p, descPend := d } = f v) →
        f (qdmaPidxUpdate conf (giveCredit conf q₀) true).2.ring = f q₀.ring := by
      intro α f hf
      obtain hring | hring := hpost
      · rw [hring, hcredit]
        exact hf q₀.ring _ q₀.posted q₀.descPend
      · rw [hring, hcredit]
        exact hf q₀.ring _ _ 0
    have havail₁ : (qdmaPidxUpdate conf (giveCredit conf q₀) true).2.avail = q.avail + r :=
      hview RingView.avail fun _ _ _ _ => rfl
    have hadv₁ : (qdmaPidxUpdate conf (giveCredit conf q₀) true).2.advances = rest :=
      hview RingView.advances fun _ _ _ _ => rfl
    refine ⟨h.of_keepsWork hkeep hind₁, hkeep, hview RingView.written fun _ _ _ _ => rfl, ?_, ?_⟩
    · rw [havail₁]
      exact Nat.le_add_right q.avail r
    · unfold potential
      rw [havail₁, hadv₁, hadv, List.length_cons, Nat.succ_mul]
      omega

theorem Polled.refl (h : Serving conf q) : Polled conf q q :=
  ⟨h, KeepsWork.refl q, rfl, le_rfl, le_rfl⟩

theorem Serving.poll (h : Serving conf q) :
    Polled conf q (descqPollMmNH2cCmplStatus conf q) := by
  unfold descqPollMmNH2cCmplStatus
  split
  · have hkeep₀ : KeepsWork q { q with procReqRunning := true } := KeepsWork.of_eq rfl rfl rfl rfl
    have hflag : Serving conf { q with procReqRunning := true } := by
      obtain ⟨k, m, hind⟩ := h.indices
      exact h.of_keepsWork hkeep₀ ⟨k, m, hind.congr rfl⟩
    obtain ⟨hserving, hkeep, hwritten, havail, hpot⟩ := hflag.status
    exact ⟨hserving, ⟨hkeep.work, hkeep.req, hkeep.cb, hkeep.pend⟩, hwritten, havail, hpot⟩
  · exact Polled.refl h

/-! ## Requests that come and go -/

/-- The requests are new to the queue and can be served. -/
structure Fresh (q : Descq) (subs : List Submission) : Prop where
  nodup : (subs.map Submission.id).Nodup
  work : ∀ s ∈ subs, s.id ∉ q.workList
  pend : ∀ s ∈ subs, s.id ∉ q.pendList
  covers : ∀ s ∈ subs, Covers s.req
  unfinished : ∀ s ∈ subs, Unfinished s.req s.cb

theorem Serving.enqueue (h : Serving conf q) {s : Submission} (hwork : s.id ∉ q.workList)
    (hpend : s.id ∉ q.pendList) (hcovers : Covers s.req) (hun : Unfinished s.req s.cb) :
    Serving conf (enqueue q s) := by
  have hmem : ∀ id, id ∈ q.workList ++ [s.id] → id ∈ q.workList ∧ id ≠ s.id ∨ id = s.id := by
    intro id hid
    rw [List.mem_append, List.mem_singleton] at hid
    obtain hid | hid := hid
    · exact Or.inl ⟨hid, ne_of_mem_of_not_mem hid hwork⟩
    · exact Or.inr hid
  constructor
  · obtain ⟨k, m, hind⟩ := h.indices
    exact ⟨k, m, hind.congr rfl⟩
  · change (q.workList ++ [s.id]).Nodup
    rw [List.nodup_append]
    refine ⟨h.nodup, List.nodup_singleton _, ?_⟩
    intro a ha b hb
    rw [List.mem_singleton] at hb
    rw [hb]
    exact ne_of_mem_of_not_mem ha hwork
  · intro id hid
    obtain ⟨hold, -⟩ | rfl := hmem id hid
    · exact h.apart id hold
    · exact hpend
  · intro id hid
    change Covers (Function.update q.req s.id s.req id)
    obtain ⟨hold, hne⟩ | rfl := hmem id hid
    · rw [Function.update_of_ne hne]
      exact h.covers id hold
    · rw [Function.update_self]
      exact hcovers
  · intro id hid
    change Unfinished (Function.update q.req s.id s.req id) (Function.update q.cb s.id s.cb id)
    obtain ⟨hold, hne⟩ | rfl := hmem id hid
    · rw [Function.update_of_ne hne, Function.update_of_ne hne]
      exact h.unfinished id hold
    · rw [Function.update_self, Function.update_self]
      exact hun

theorem Fresh.tail {s : Submission} {subs : List Submission} (h : Fresh q (s :: subs)) :
    Fresh (H2c.enqueue q s) subs := by
  have hnodup := List.nodup_cons.mp h.nodup
  constructor
  · exact hnodup.2
  · intro t ht hmem
    obtain hold | hnew := List.mem_append.mp hmem
    · exact h.work t (List.mem_cons_of_mem s ht) hold
    · rw [List.mem_singleton] at hnew
      apply hnodup.1
      rw [← hnew]
      exact List.mem_map_of_mem ht
  · exact fun t ht => h.pend t (List.mem_cons_of_mem s ht)
  · exact fun t ht => h.covers t (List.mem_cons_of_mem s ht)
  · exact fun t ht => h.unfinished t (List.mem_cons_of_mem s ht)

theorem Serving.foldl_enqueue {subs : List Submission} (h : Serving conf q)
    (hfresh : Fresh q subs) : Serving conf (subs.foldl H2c.enqueue q) := by
  induction subs generalizing q with
  | nil => exact h
  | cons s subs ih =>
    apply ih _ hfresh.tail
    exact h.enqueue (hfresh.work s List.mem_cons_self) (hfresh.pend s List.mem_cons_self)
      (hfresh.covers s List.mem_cons_self) (hfresh.unfinished s List.mem_cons_self)

/-- A request goes on, or it goes to the pending list. -/
theorem Serving.qdmaUpdateRequest (h : Serving conf q) (n c : ℕ) :
    Serving conf (qdmaUpdateRequest q id n c) := by
  have hind : ∃ k m, Indices conf k m (H2c.qdmaUpdateRequest q id n c).ring := by
    obtain ⟨k, m, hind⟩ := h.indices
    rw [ring_qdmaUpdateRequest]
    exact ⟨k, m, hind.congr rfl⟩
  revert hind
  unfold H2c.qdmaUpdateRequest
  dsimp only
  split
  · intro hind
    have herase : ∀ j, j ∈ q.workList.erase id → j ≠ id ∧ j ∈ q.workList :=
      fun j hj => h.nodup.mem_erase_iff.mp hj
    refine ⟨hind, h.nodup.erase id, ?_, ?_, ?_⟩
    · intro j hj hpend
      obtain ⟨hne, hold⟩ := herase j hj
      obtain hmem | hmem := List.mem_append.mp hpend
      · exact h.apart j hold (List.mem_of_mem_erase hmem)
      · exact hne (List.mem_singleton.mp hmem)
    · exact fun j hj => h.covers j (herase j hj).2
    · intro j hj
      obtain ⟨hne, hold⟩ := herase j hj
      change Unfinished (q.req j) (Function.update q.cb id _ j)
      rw [Function.update_of_ne hne]
      exact h.unfinished j hold
  · rename_i hless
    intro hind
    refine ⟨hind, h.nodup, h.apart, h.covers, ?_⟩
    intro j hj
    change Unfinished (q.req j) (Function.update q.cb id _ j)
    by_cases hne : j = id
    · rw [hne, Function.update_self]
      exact Or.inr (not_le.mp hless)
    · rw [Function.update_of_ne hne]
      exact h.unfinished j hj

/-! ## Passes -/

/-- `n` descriptors are written for the first request. -/
structure Took (conf : QueueConf) (n : ℕ) (q q' : Descq) : Prop where
  serving : Serving conf q'
  keeps : KeepsWork q q'
  written : q'.written = q.written + n
  potential_le : potential conf q' + n ≤ potential conf q

theorem Serving.qdmaQDescGet (h : Serving conf q) (cnt : ℕ) :
    Took conf (qdmaQDescGet conf id cnt q).1 q (qdmaQDescGet conf id cnt q).2 := by
  have hstatus : Polled conf q (if q.avail < cnt then descqMmNH2cCmplStatus conf q else q) := by
    split
    · exact h.status
    · exact Polled.refl h
  unfold H2c.qdmaQDescGet
  dsimp only
  split
  · exact ⟨h, KeepsWork.refl q, rfl, le_rfl⟩
  · set q₁ := if q.avail < cnt then descqMmNH2cCmplStatus conf q else q
    obtain ⟨hserving, hkeep, hwritten, -, hpot⟩ := hstatus
    split
    · exact ⟨hserving, hkeep, hwritten, hpot⟩
    · rename_i hcnt havail
      have hkeep₁ : KeepsWork q₁ { q₁ with
          pidx := ringIdxIncr q₁.pidx cnt conf.rngsz, avail := q₁.avail - cnt
          owners := q₁.owners ++ List.replicate cnt id, written := q₁.written + cnt } :=
        KeepsWork.of_eq rfl rfl rfl rfl
      refine ⟨hserving.of_keepsWork hkeep₁ ?_, hkeep.trans hkeep₁, ?_, ?_⟩
      · obtain ⟨k, m, hind⟩ := hserving.indices
        have hlen : (q₁.owners ++ List.replicate cnt id).length = q₁.owners.length + cnt := by
          rw [List.length_append, List.length_replicate]
        refine ⟨k, m, ?_⟩
        apply hind.extend (n := cnt) (not_lt.mp havail) rfl _ rfl hlen rfl rfl
        exact ringIdxIncr_eq_mod hind.pidx_lt (by omega)
      · exact congrArg (· + cnt) hwritten
      · change q₁.advances.length * conf.rngsz + (q₁.avail - cnt) + cnt ≤ _
        unfold potential at hpot
        unfold potential
        omega

theorem Took.trans {n n' : ℕ} (h : Took conf n q q') (h' : Took conf n' q' q'') :
    Took conf (n + n') q q'' := by
  obtain ⟨-, hkeep, hwritten, hpot⟩ := h
  obtain ⟨hserving, hkeep', hwritten', hpot'⟩ := h'
  refine ⟨hserving, hkeep.trans hkeep', ?_, ?_⟩
  · omega
  · omega

theorem Serving.getDescs (h : Serving conf q) (gets : List ℕ) :
    Took conf (getDescs conf id gets q).1 q (getDescs conf id gets q).2 := by
  induction gets generalizing q with
  | nil => exact ⟨h, KeepsWork.refl q, rfl, le_rfl⟩
  | cons cnt gets ih =>
    have hhead := @Serving.qdmaQDescGet _ _ id h cnt
    exact hhead.trans (ih hhead.serving)

/-- A callback that takes descriptors whenever some are free, while only requests that can be served
are queued. -/
structure Willing (conf : QueueConf) (fill : Descq → ReqId → Fill) : Prop where
  takes : ∀ q id, q.avail ≠ 0 → q.avail < conf.rngsz → (getDescs conf id (fill q id).gets q).1 ≠ 0
  fresh : ∀ q id, Fresh q (fill q id).queued

/-- A step of the loop that wrote at least one descriptor. -/
structure Progressed (conf : QueueConf) (q q' : Descq) : Prop where
  serving : Serving conf q'
  written : q.written < q'.written
  potential_lt : potential conf q' < potential conf q

theorem Serving.fpBypassDescFill {fill : Descq → ReqId → Fill} (h : Serving conf q)
    (hfill : Willing conf fill) (havail : q.avail ≠ 0) :
    (fpBypassDescFill conf fill id q).1 ≠ 0 ∧
      Progressed conf q (fpBypassDescFill conf fill id q).2 := by
  have htook := @Serving.getDescs _ _ id h (fill q id).gets
  have hpos := hfill.takes q id havail h.avail_lt
  have hfresh := hfill.fresh q id
  set r := H2c.getDescs conf id (fill q id).gets q with hr
  have hfresh' : Fresh r.2 (fill q id).queued := by
    refine ⟨hfresh.nodup, ?_, ?_, hfresh.covers, hfresh.unfinished⟩
    · intro s hs
      rw [htook.keeps.work]
      exact hfresh.work s hs
    · exact fun s hs hmem => hfresh.pend s hs (htook.keeps.pend s.id hmem)
  have hqueued := htook.serving.foldl_enqueue hfresh'
  have hring := ring_foldl_enqueue (q := r.2) (fill q id).queued
  set q₁ := (fill q id).queued.foldl H2c.enqueue r.2 with hq₁
  have hwritten : q₁.written = r.2.written := congrArg RingView.written hring
  have hpot : potential conf q₁ = potential conf r.2 := by
    have havail₁ : q₁.avail = r.2.avail := congrArg RingView.avail hring
    have hadv : q₁.advances = r.2.advances := congrArg RingView.advances hring
    rw [potential, havail₁, hadv, potential]
  have hlt : q.written < q₁.written := by
    rw [hwritten, htook.written]
    omega
  have hpot_lt : potential conf q₁ < potential conf q := by
    have hle := htook.potential_le
    omega
  unfold H2c.fpBypassDescFill
  dsimp only
  rw [← hr, ← hq₁]
  split
  · exact ⟨hpos, hqueued, hlt, hpot_lt⟩
  · rename_i cnt hcnt
    have hupd := @ring_qdmaUpdateRequest q₁ id r.1 cnt
    refine ⟨hpos, hqueued.qdmaUpdateRequest r.1 cnt, ?_, ?_⟩
    · have hsame : (H2c.qdmaUpdateRequest q₁ id r.1 cnt).written = q₁.written :=
        congrArg RingView.written hupd
      rw [hsame]
      exact hlt
    · have havail₁ : (H2c.qdmaUpdateRequest q₁ id r.1 cnt).avail = q₁.avail :=
        congrArg RingView.avail hupd
      have hadv : (H2c.qdmaUpdateRequest q₁ id r.1 cnt).advances = q₁.advances :=
        congrArg RingView.advances hupd
      rw [potential, havail₁, hadv]
      exact hpot_lt

/-- The descriptors of at least one piece. -/
theorem Serving.issue (h : Serving conf q) {pieces : List Piece}
    (hne : pieces ≠ []) (hlen : pieces.length ≤ q.avail) :
    Progressed conf q (issue conf id pieces q) := by
  have hupd := @Serving.qdmaUpdateRequest _ _ id h pieces.length (dataCnt pieces)
  have hring := @ring_qdmaUpdateRequest q id pieces.length (dataCnt pieces)
  have hpos : 0 < pieces.length := List.length_pos_iff.mpr hne
  constructor
  · have hkeep : KeepsWork (H2c.qdmaUpdateRequest q id pieces.length (dataCnt pieces))
        (H2c.issue conf id pieces q) := KeepsWork.of_eq rfl rfl rfl rfl
    apply hupd.of_keepsWork hkeep
    obtain ⟨k, m, hind⟩ := h.indices
    exact ⟨k, m, hind.issue hlen⟩
  · have hwritten : (H2c.qdmaUpdateRequest q id pieces.length (dataCnt pieces)).written =
        q.written := congrArg RingView.written hring
    change q.written <
      (H2c.qdmaUpdateRequest q id pieces.length (dataCnt pieces)).written + pieces.length
    omega
  · have havail : (H2c.qdmaUpdateRequest q id pieces.length (dataCnt pieces)).avail = q.avail :=
      congrArg RingView.avail hring
    have hadv : (H2c.qdmaUpdateRequest q id pieces.length (dataCnt pieces)).advances = q.advances :=
      congrArg RingView.advances hring
    change
      (H2c.qdmaUpdateRequest q id pieces.length (dataCnt pieces)).advances.length * conf.rngsz +
      ((H2c.qdmaUpdateRequest q id pieces.length (dataCnt pieces)).avail - pieces.length) < _
    rw [havail, hadv, potential]
    omega

theorem Polled.progressed (h : Polled conf q q') (h' : Progressed conf q' q'') :
    Progressed conf q q'' :=
  ⟨h'.serving, h.written ▸ h'.written, h'.potential_lt.trans_le h.potential_le⟩

/-- The pass of a loop: it ends the loop where no descriptor is free, and writes one otherwise. -/
def Serves (conf : QueueConf) (pass : ReqId → Descq → Option ℕ × Descq) : Prop :=
  ∀ q id, Serving conf q → id ∈ q.workList →
    (∃ q', pass id q = (none, q') ∧ q.avail = 0 ∧ Serving conf q' ∧ q'.written = q.written) ∨
    ∃ n q', pass id q = (some n, q') ∧ Progressed conf q q'

/-- The free descriptors at the start of a pass. -/
theorem Serving.pollIfFull (h : Serving conf q) :
    Polled conf q (if q.avail = 0 then descqPollMmNH2cCmplStatus conf q else q) := by
  split
  · exact h.poll
  · exact Polled.refl h

theorem avail_eq_zero_of_pollIfFull
    (hzero : (if q.avail = 0 then descqPollMmNH2cCmplStatus conf q else q).avail = 0) :
    q.avail = 0 := by
  by_contra hne
  rw [if_neg hne] at hzero
  exact hne hzero

/-- The callback of a queue is willing. -/
def CallbackWilling (conf : QueueConf) : Prop := ∀ fill, conf.ulExt = some fill → Willing conf fill

theorem Serving.slots (h : Serving conf q) {mm : ℕ → MmDesc} {st : ℕ → H2cDesc} :
    Serving conf { q with mmDesc := mm, h2cDesc := st } := by
  have hkeep : KeepsWork q { q with mmDesc := mm, h2cDesc := st } :=
    KeepsWork.of_eq rfl rfl rfl rfl
  obtain ⟨k, m, hind⟩ := h.indices
  exact h.of_keepsWork hkeep ⟨k, m, hind.congr rfl⟩

/-- Which descriptors are stored does not matter. -/
theorem Serving.storeAndIssue (h : Serving conf q) {pieces : List Piece} (hne : pieces ≠ [])
    (hlen : pieces.length ≤ q.avail) (mm : ℕ → MmDesc) (st : ℕ → H2cDesc) :
    Progressed conf q (H2c.issue conf id pieces { q with mmDesc := mm, h2cDesc := st }) := by
  have hissue := @Serving.issue _ _ id (@Serving.slots _ _ h mm st) _ hne hlen
  exact ⟨hissue.serving, hissue.written, hissue.potential_lt⟩

theorem mmPass_serves (hfill : CallbackWilling conf) : Serves conf (mmPass conf) := by
  intro q id h hid
  have hpoll := h.pollIfFull
  unfold mmPass
  dsimp only
  by_cases hzero : (if q.avail = 0 then descqPollMmNH2cCmplStatus conf q else q).avail = 0
  · rw [if_pos hzero]
    exact Or.inl ⟨_, rfl, avail_eq_zero_of_pollIfFull hzero, hpoll.serving, hpoll.written⟩
  · rw [if_neg hzero]
    set q₁ := if q.avail = 0 then descqPollMmNH2cCmplStatus conf q else q with hq₁
    have hid₁ : id ∈ q₁.workList := hpoll.keeps.work ▸ hid
    right
    cases hext : conf.ulExt with
    | some fill =>
      have hcall := (@Serving.fpBypassDescFill _ _ id _ hpoll.serving (hfill fill hext) hzero).2
      exact ⟨_, _, rfl, hpoll.progressed hcall⟩
    | none =>
      have hreq : q₁.req id = q.req id := hpoll.keeps.req id hid
      have hcovers := hpoll.serving.covers id hid₁
      obtain ⟨i, off, hfind, hi⟩ := hcovers.findOffset (hpoll.serving.unfinished id hid₁)
      rw [hreq] at hfind hi hcovers
      dsimp only
      rw [hfind]
      dsimp only
      have hdrop : ((q.req id).sgl.take (q.req id).sgcnt).drop i ≠ [] := by
        rw [← hcovers.length, List.take_length, Ne, List.drop_eq_nil_iff]
        omega
      have hne := @cutList_ne_nil conf.aperture (mmWindow conf (q.req id)) i off _
        (mmEpAddr conf (q.req id) (q.cb id)) _ hdrop hzero
      rw [if_neg hne]
      have hissue :=
        @Serving.storeAndIssue _ _ id hpoll.serving _ hne (length_cutList_le _ _ _ _ _ _ _)
      exact ⟨_, _, rfl, hpoll.progressed (hissue _ _)⟩

theorem stPass_serves (hfill : CallbackWilling conf) : Serves conf (stPass conf) := by
  intro q id h hid
  have hpoll := h.pollIfFull
  unfold stPass
  dsimp only
  by_cases hzero : (if q.avail = 0 then descqPollMmNH2cCmplStatus conf q else q).avail = 0
  · rw [if_pos hzero]
    exact Or.inl ⟨_, rfl, avail_eq_zero_of_pollIfFull hzero, hpoll.serving, hpoll.written⟩
  · rw [if_neg hzero]
    set q₁ := if q.avail = 0 then descqPollMmNH2cCmplStatus conf q else q with hq₁
    have hid₁ : id ∈ q₁.workList := hpoll.keeps.work ▸ hid
    right
    cases hext : conf.ulExt with
    | some fill =>
      obtain ⟨hne, hcall⟩ :=
        @Serving.fpBypassDescFill _ _ id _ hpoll.serving (hfill fill hext) hzero
      dsimp only
      rw [if_neg hne]
      exact ⟨_, _, rfl, hpoll.progressed hcall⟩
    | none =>
      have hreq : q₁.req id = q.req id := hpoll.keeps.req id hid
      have hcovers := hpoll.serving.covers id hid₁
      obtain ⟨i, off, hfind, hi⟩ := hcovers.findOffset (hpoll.serving.unfinished id hid₁)
      rw [hreq] at hfind hi hcovers
      dsimp only
      rw [hfind]
      dsimp only
      have hdrop : ((q.req id).sgl.take (q.req id).sgcnt).drop i ≠ [] := by
        rw [← hcovers.length, List.take_length, Ne, List.drop_eq_nil_iff]
        omega
      have hne := @cutList_ne_nil (pktsz (q.req id)) none i off _ 0 _ hdrop hzero
      rw [if_neg hne]
      have hissue :=
        @Serving.storeAndIssue _ _ id hpoll.serving _ hne (length_cutList_le _ _ _ _ _ _ _)
      exact ⟨_, _, rfl, hpoll.progressed (hissue _ _)⟩

/-- What the loop over the work list does. -/
structure Looped (conf : QueueConf) (q q' : Descq) : Prop where
  serving : Serving conf q'
  written_le : q.written ≤ q'.written
  written_lt : q.workList ≠ [] → q.avail ≠ 0 → q.written < q'.written

theorem Serving.passes {pass : ReqId → Descq → Option ℕ × Descq} (hpass : Serves conf pass)
    (h : Serving conf q) {fuel n : ℕ} {r : ℕ × Descq} (hr : passes pass fuel n q = some r) :
    Looped conf q r.2 := by
  induction fuel generalizing q n with
  | zero =>
    unfold H2c.passes at hr
    split at hr
    · rename_i hnil
      cases hr
      exact ⟨h, le_rfl, fun hne => absurd hnil hne⟩
    · cases hr
  | succ fuel ih =>
    unfold H2c.passes at hr
    split at hr
    · rename_i hnil
      cases hr
      exact ⟨h, le_rfl, fun hne => absurd hnil hne⟩
    · rename_i id ids hwork
      have hid : id ∈ q.workList := by
        rw [hwork]
        exact List.mem_cons_self
      dsimp only at hr
      obtain ⟨q', hres, hzero, hserving, hwritten⟩ | ⟨a, q', hres, hprog⟩ := hpass q id h hid
      · rw [hres] at hr
        cases hr
        exact ⟨hserving, hwritten.ge, fun _ hne => absurd hzero hne⟩
      · rw [hres] at hr
        have hrest := ih hprog.serving hr
        have hlt := hprog.written.trans_le hrest.written_le
        exact ⟨hrest.serving, hlt.le, fun _ _ => hlt⟩

/-- The loop ends: every pass uses up the potential. -/
theorem Serving.passes_isSome {pass : ReqId → Descq → Option ℕ × Descq} (hpass : Serves conf pass)
    (h : Serving conf q) {fuel n : ℕ} (hfuel : potential conf q < fuel) :
    ∃ r, H2c.passes pass fuel n q = some r := by
  induction fuel generalizing q n with
  | zero => exact absurd hfuel (Nat.not_lt_zero _)
  | succ fuel ih =>
    unfold H2c.passes
    split
    · exact ⟨_, rfl⟩
    · rename_i id ids hwork
      have hid : id ∈ q.workList := by
        rw [hwork]
        exact List.mem_cons_self
      dsimp only
      obtain ⟨q', hres, -⟩ | ⟨a, q', hres, hprog⟩ := hpass q id h hid
      · rw [hres]
        exact ⟨_, rfl⟩
      · rw [hres]
        have hlt := hprog.potential_lt
        exact ih hprog.serving (by omega)

/-! ## Calls -/

/-- The pass of the queue's kind. -/
def passOf (conf : QueueConf) : ReqId → Descq → Option ℕ × Descq :=
  if conf.st then stPass conf else mmPass conf

theorem passOf_serves (hfill : CallbackWilling conf) : Serves conf (passOf conf) := by
  unfold passOf
  split
  · exact stPass_serves hfill
  · exact mmPass_serves hfill

theorem qdmaDescqProcSgtRequest_eq (hmode : conf.drvMode = .poll ∨ conf.drvMode = .auto)
    (fuel : ℕ) (doorbell : Bool) (q : Descq) :
    qdmaDescqProcSgtRequest conf fuel doorbell q =
      procRequest conf (passOf conf) fuel doorbell q := by
  have hdirect : conf.drvMode ≠ .directIntr := by
    intro heq
    rw [heq] at hmode
    revert hmode
    decide
  unfold qdmaDescqProcSgtRequest passOf
  cases hst : conf.st with
  | false => rfl
  | true =>
    rw [if_neg (by decide), if_pos (conf.st_h2c hst), if_pos rfl]
    split
    · rw [if_neg hdirect]
      rfl
    · rfl

/-- The end of a call. -/
theorem Serving.finishRequests (h : Serving conf q) (doorbell : Bool) (n : ℕ) :
    Serving conf (finishRequests conf doorbell n q).2 ∧
      (finishRequests conf doorbell n q).2.written = q.written := by
  obtain ⟨k, m, hind⟩ := h.indices
  have hset : ∀ {q'}, KeepsWork q q' → q'.ring.slots = q.ring.slots → Serving conf q' :=
    fun hkeep heq => h.of_keepsWork hkeep ⟨k, m, hind.congr heq⟩
  unfold H2c.finishRequests
  split
  · exact ⟨hset (KeepsWork.of_eq rfl rfl rfl rfl) rfl, rfl⟩
  · have hle := hind.posted_le.trans hind.info_le
    have hfull : Indices conf k q.owners.length { q.ring with pidxInfoPidx := q.pidx } :=
      ⟨hind.cidx, hind.avail, hind.pidx, hind.posted, fun _ => hind.pidx, hle, le_rfl⟩
    split
    · have hposted : Serving conf { q with
          pendListEmpty := false, pidxInfoPidx := q.pidx, posted := q.pidx } :=
        h.of_keepsWork (KeepsWork.of_eq rfl rfl rfl rfl) ⟨_, _, hfull.post hind.pidx rfl⟩
      obtain ⟨hserving, -, hwritten, -, -⟩ := hposted.poll
      obtain ⟨k', m', hind'⟩ := hserving.indices
      exact ⟨hserving.of_keepsWork (KeepsWork.of_eq rfl rfl rfl rfl) ⟨k', m', hind'.congr rfl⟩,
        hwritten⟩
    · exact ⟨h.of_keepsWork (KeepsWork.of_eq rfl rfl rfl rfl) ⟨_, _, hfull.congr rfl⟩, rfl⟩

/-- The flag is clear after a call whose last write of the PIDX register does not fail. -/
theorem finishRequests_flag (n : ℕ) :
    (finishRequests conf true n q).2.procReqRunning = false := by
  unfold finishRequests
  split
  · rfl
  · rfl

/-- What a processing call does. -/
structure Called (conf : QueueConf) (q : Descq) (doorbell : Bool) (q' : Descq) : Prop where
  serving : Serving conf q'
  flag : doorbell = true → q'.procReqRunning = false
  written_lt : q.qState = .online → q.qStopWait = false → q.workList ≠ [] → q.avail ≠ 0 →
    q.written < q'.written

theorem Serving.procRequest {pass : ReqId → Descq → Option ℕ × Descq} (hpass : Serves conf pass)
    (h : Serving conf q) (hflag : q.procReqRunning = false) {fuel : ℕ} {doorbell : Bool}
    {r : ℤ × Descq} (hr : procRequest conf pass fuel doorbell q = some r) :
    Called conf q doorbell r.2 := by
  unfold H2c.procRequest at hr
  split at hr
  · rename_i hstop
    cases hr
    obtain ⟨k, m, hind⟩ := h.indices
    have hsame : (descqMmNH2cCmplStatus conf q).procReqRunning = q.procReqRunning :=
      ring_descqMmNH2cCmplStatus hind RingView.procReqRunning fun _ _ _ _ _ _ _ _ => rfl
    refine ⟨h.status.serving, fun _ => hsame.trans hflag, fun _ hnot => ?_⟩
    rw [hstop] at hnot
    cases hnot
  · split at hr
    · rename_i hoff
      cases hr
      exact ⟨h, fun _ => hflag, fun hon => absurd hon hoff⟩
    · rw [hflag, if_neg (by decide)] at hr
      obtain ⟨w, hw, rfl⟩ := Option.map_eq_some_iff.mp hr
      obtain ⟨hserving, hkeep, hwritten, havail, -⟩ := h.poll
      have hloop := hserving.passes hpass hw
      obtain ⟨hend, hsame⟩ := hloop.serving.finishRequests doorbell w.1
      refine ⟨hend, ?_, ?_⟩
      · intro hdoor
        rw [hdoor]
        exact finishRequests_flag w.1
      · intro _ _ hwork hne
        rw [hsame, ← hwritten]
        apply hloop.written_lt
        · rw [hkeep.work]
          exact hwork
        · omega

/-- A call returns. -/
theorem Serving.procRequest_isSome {pass : ReqId → Descq → Option ℕ × Descq}
    (hpass : Serves conf pass) (h : Serving conf q) {fuel : ℕ} {doorbell : Bool}
    (hfuel : potential conf q < fuel) :
    ∃ r, H2c.procRequest conf pass fuel doorbell q = some r := by
  unfold H2c.procRequest
  split
  · exact ⟨_, rfl⟩
  · split
    · exact ⟨_, rfl⟩
    · split
      · exact ⟨_, rfl⟩
      · obtain ⟨hserving, -, -, -, hpot⟩ := h.poll
        obtain ⟨r, hr⟩ := hserving.passes_isSome hpass (n := 0) (hpot.trans_lt hfuel)
        rw [hr]
        exact ⟨_, rfl⟩

/-! ## Runs -/

/-- A request is put on the work list, requests are processed, a completion is serviced, or the
queue is stopped in two steps and started again. -/
inductive ServeEvent
  | submit (s : Submission)
  | process (inp : CallInput)
  | service (inp : CallInput)
  | stopBegin
  | stopEnd
  | start (ok : Bool)

/-- One step. -/
def serveStep (conf : QueueConf) (q : Descq) : ServeEvent → Descq
  | .submit s => H2c.enqueue q s
  | .process inp =>
    afterCall q (qdmaDescqProcSgtRequest conf inp.fuel inp.doorbell (q.scripted inp))
  | .service inp =>
    afterCall q (qdmaDescqServiceCmplUpdate conf inp.fuel inp.doorbell (q.scripted inp))
  | .stopBegin => (qdmaQueueStopBegin q).2
  | .stopEnd => qdmaQueueStopEnd q
  | .start ok => (qdmaQueueStart conf ok q).2

/-- The call returned, having written a descriptor or taken a request off the work list. -/
def MakesProgress (q : Descq) : Option (ℤ × Descq) → Prop
  | none => False
  | some r => q.written < r.2.written ∨ ∃ id ∈ q.workList, id ∉ r.2.workList

/-- The queue is not wedged: no call is marked as in progress, and on the online queue with a
request and a free descriptor every processing call makes progress, whatever the hardware
does. -/
structure Unwedged (conf : QueueConf) (q : Descq) : Prop where
  flag : q.procReqRunning = false
  progress : q.qState = .online → q.qStopWait = false → q.workList ≠ [] → q.avail ≠ 0 →
    ∀ inp : CallInput, ∃ bound, ∀ fuel ≥ bound,
      MakesProgress q (qdmaDescqProcSgtRequest conf fuel inp.doorbell (q.scripted inp)) ∧
      MakesProgress q (qdmaDescqServiceCmplUpdate conf fuel inp.doorbell (q.scripted inp))

/-- A request that is queued is new and can be served, and the last write of the PIDX register of a
processing call does not fail. -/
def ServeOk (q : Descq) : ServeEvent → Prop
  | .submit s => Fresh q [s]
  | .process inp => inp.doorbell = true
  | .service inp => inp.doorbell = true
  | _ => True

instance (req : QdmaRequest) : Decidable (Covers req) :=
  decidable_of_iff (req.sgl.length = req.sgcnt ∧ req.sgl ≠ [] ∧
      req.count ≤ (req.sgl.map SwSg.len).sum ∧ (req.sgl.map SwSg.len).sum < 2 ^ 32)
    ⟨fun ⟨h₁, h₂, h₃, h₄⟩ => ⟨h₁, h₂, h₃, h₄⟩, fun ⟨h₁, h₂, h₃, h₄⟩ => ⟨h₁, h₂, h₃, h₄⟩⟩

instance (q : Descq) (subs : List Submission) : Decidable (Fresh q subs) :=
  decidable_of_iff ((subs.map Submission.id).Nodup ∧ (∀ s ∈ subs, s.id ∉ q.workList) ∧
      (∀ s ∈ subs, s.id ∉ q.pendList) ∧ (∀ s ∈ subs, Covers s.req) ∧
      ∀ s ∈ subs, Unfinished s.req s.cb)
    ⟨fun ⟨h₁, h₂, h₃, h₄, h₅⟩ => ⟨h₁, h₂, h₃, h₄, h₅⟩,
      fun ⟨h₁, h₂, h₃, h₄, h₅⟩ => ⟨h₁, h₂, h₃, h₄, h₅⟩⟩

instance (q : Descq) (e : ServeEvent) : Decidable (ServeOk q e) :=
  match e with
  | .submit _ => inferInstanceAs (Decidable (Fresh _ _))
  | .process _ => inferInstanceAs (Decidable (_ = true))
  | .service _ => inferInstanceAs (Decidable (_ = true))
  | .stopBegin => isTrue trivial
  | .stopEnd => isTrue trivial
  | .start _ => isTrue trivial

theorem Serving.scripted (h : Serving conf q) (inp : CallInput) :
    Serving conf (q.scripted inp) := by
  obtain ⟨k, m, hind⟩ := h.indices
  exact h.of_keepsWork (KeepsWork.of_eq rfl rfl rfl rfl) ⟨k, m, hind.congr rfl⟩

theorem Serving.listDel (h : Serving conf q) (id : ReqId) : Serving conf (q.listDel id) := by
  obtain ⟨k, m, hind⟩ := h.indices
  refine h.shrink ?_ ?_ ?_ ?_ ⟨k, m, hind.congr rfl⟩
  · exact List.erase_sublist
  · exact fun j hj => List.mem_of_mem_erase hj
  · exact fun _ _ => rfl
  · exact fun _ _ => rfl

theorem Serving.workReqPend (h : Serving conf q) (n : ℕ) :
    Serving conf { q with workReqPend := n } := by
  obtain ⟨k, m, hind⟩ := h.indices
  exact h.of_keepsWork (KeepsWork.of_eq rfl rfl rfl rfl) ⟨k, m, hind.congr rfl⟩

theorem Serving.stopRequest (h : Serving conf q) {del : Descq → ReqId → Descq}
    (hdel : ∀ q id, Serving conf q → Serving conf (del q id)) (id : ReqId) :
    Serving conf (H2c.stopRequest del q id) := by
  have hdone : Serving conf (q.setCb id { q.cb id with done := true, status := - ENXIO }) := by
    obtain ⟨k, m, hind⟩ := h.indices
    refine h.shrink ?_ ?_ ?_ ?_ ⟨k, m, hind.congr rfl⟩
    · exact List.Sublist.refl _
    · exact fun _ hj => hj
    · exact fun _ _ => rfl
    · intro j _
      change (Function.update q.cb id { q.cb id with done := true, status := - ENXIO } j).offset = _
      by_cases hj : j = id
      · rw [hj, Function.update_self]
      · rw [Function.update_of_ne hj]
  have hlog : ∀ {q' : Descq}, Serving conf q' →
      ∀ cs, Serving conf { q' with completions := cs } := by
    intro q' h' cs
    obtain ⟨k, m, hind⟩ := h'.indices
    exact h'.of_keepsWork (KeepsWork.of_eq rfl rfl rfl rfl) ⟨k, m, hind.congr rfl⟩
  unfold H2c.stopRequest
  dsimp only
  split
  · exact hlog (hdel _ id hdone) _
  · exact hlog hdone _

theorem Serving.foldl_stopRequest {del : Descq → ReqId → Descq}
    (hdel : ∀ q id, Serving conf q → Serving conf (del q id)) {ids : List ReqId}
    (h : Serving conf q) : Serving conf (ids.foldl (H2c.stopRequest del) q) := by
  induction ids generalizing q with
  | nil => exact h
  | cons id ids ih => exact ih (h.stopRequest hdel id)

theorem stopRequest_flag {del : Descq → ReqId → Descq}
    (hdel : ∀ q id, (del q id).procReqRunning = q.procReqRunning) {ids : List ReqId} :
    (ids.foldl (stopRequest del) q).procReqRunning = q.procReqRunning := by
  induction ids generalizing q with
  | nil => rfl
  | cons id ids ih =>
    rw [List.foldl_cons, ih]
    unfold stopRequest
    dsimp only
    split
    · exact hdel _ id
    · rfl

/-- What holds between the calls. -/
structure Between (conf : QueueConf) (q : Descq) : Prop where
  serving : Serving conf q
  flag : q.procReqRunning = false

theorem Between.stopEnd (h : Between conf q) : Between conf (qdmaQueueStopEnd q) := by
  have hoff : Serving conf { q with qState := .enabled, qStopWait := false } := by
    obtain ⟨k, m, hind⟩ := h.serving.indices
    exact h.serving.of_keepsWork (KeepsWork.of_eq rfl rfl rfl rfl) ⟨k, m, hind.congr rfl⟩
  unfold qdmaQueueStopEnd
  constructor
  · apply Serving.foldl_stopRequest fun q id hq => (hq.listDel id).workReqPend _
    exact Serving.foldl_stopRequest (fun q id hq => hq.listDel id) hoff
  · dsimp only
    rw [@stopRequest_flag _ qdmaWorkQueueDel fun _ _ => rfl,
      @stopRequest_flag _ Descq.listDel fun _ _ => rfl]
    exact h.flag

theorem Between.start (h : Between conf q) (ok : Bool) :
    Between conf (qdmaQueueStart conf ok q).2 := by
  have hempty : ∀ {q' : Descq}, KeepsWork q q' →
      (q'.cidx, q'.avail, q'.pidx, q'.posted, q'.owners) = (0, conf.rngsz - 1, 0, 0, []) →
      q'.procReqRunning = q.procReqRunning → Between conf q' :=
    fun hkeep heq hflag =>
      ⟨h.serving.of_keepsWork hkeep ⟨0, 0, Indices.empty heq⟩, hflag.trans h.flag⟩
  unfold qdmaQueueStart
  split
  · exact h
  · dsimp only
    split
    · exact hempty (KeepsWork.of_eq rfl rfl rfl rfl) rfl rfl
    · exact hempty (KeepsWork.of_eq rfl rfl rfl rfl) rfl rfl

/-- A processing call between the calls. -/
theorem Between.process (hmode : conf.drvMode = .poll ∨ conf.drvMode = .auto)
    (hfill : CallbackWilling conf) (h : Between conf q) (inp : CallInput) {fuel : ℕ}
    {r : ℤ × Descq}
    (hr : qdmaDescqProcSgtRequest conf fuel inp.doorbell (q.scripted inp) = some r) :
    Called conf (q.scripted inp) inp.doorbell r.2 := by
  rw [qdmaDescqProcSgtRequest_eq hmode] at hr
  exact (h.serving.scripted inp).procRequest (passOf_serves hfill) h.flag hr

theorem Between.service (hmode : conf.drvMode = .poll ∨ conf.drvMode = .auto)
    (h : Between conf q) (inp : CallInput) (fuel : ℕ) :
    qdmaDescqServiceCmplUpdate conf fuel inp.doorbell (q.scripted inp) =
      (qdmaDescqProcSgtRequest conf fuel inp.doorbell (q.scripted inp)).map fun r => (0, r.2) := by
  have hflag : (q.scripted inp).procReqRunning = false := h.flag
  unfold qdmaDescqServiceCmplUpdate
  rw [if_pos hmode, if_pos hflag]

/-- The step lemma. -/
theorem Between.step (hmode : conf.drvMode = .poll ∨ conf.drvMode = .auto)
    (hfill : CallbackWilling conf) (h : Between conf q) (e : ServeEvent) (hok : ServeOk q e) :
    Between conf (serveStep conf q e) := by
  cases e with
  | submit s =>
    have hs := hok
    refine ⟨?_, h.flag⟩
    exact h.serving.enqueue (hs.work s List.mem_cons_self) (hs.pend s List.mem_cons_self)
      (hs.covers s List.mem_cons_self) (hs.unfinished s List.mem_cons_self)
  | process inp =>
    change Between conf
      (afterCall q (qdmaDescqProcSgtRequest conf inp.fuel inp.doorbell (q.scripted inp)))
    cases hcall : qdmaDescqProcSgtRequest conf inp.fuel inp.doorbell (q.scripted inp) with
    | none => exact h
    | some r =>
      have hcalled := Between.process hmode hfill h inp hcall
      exact ⟨hcalled.serving, hcalled.flag hok⟩
  | service inp =>
    change Between conf
      (afterCall q (qdmaDescqServiceCmplUpdate conf inp.fuel inp.doorbell (q.scripted inp)))
    rw [Between.service hmode h]
    cases hcall : qdmaDescqProcSgtRequest conf inp.fuel inp.doorbell (q.scripted inp) with
    | none => exact h
    | some r =>
      have hcalled := Between.process hmode hfill h inp hcall
      exact ⟨hcalled.serving, hcalled.flag hok⟩
  | stopBegin =>
    change Between conf (qdmaQueueStopBegin q).2
    unfold qdmaQueueStopBegin
    split
    · exact h
    · obtain ⟨k, m, hind⟩ := h.serving.indices
      exact ⟨h.serving.of_keepsWork (KeepsWork.of_eq rfl rfl rfl rfl) ⟨k, m, hind.congr rfl⟩,
        h.flag⟩
  | stopEnd => exact h.stopEnd
  | start ok => exact h.start ok

/-- A queue between the calls is not wedged. -/
theorem Between.unwedged (hmode : conf.drvMode = .poll ∨ conf.drvMode = .auto)
    (hfill : CallbackWilling conf) (h : Between conf q) : Unwedged conf q := by
  refine ⟨h.flag, ?_⟩
  intro honline hstop hwork havail inp
  refine ⟨potential conf (q.scripted inp) + 1, fun fuel hfuel => ?_⟩
  have hserving := h.serving.scripted inp
  obtain ⟨r, hr⟩ := @Serving.procRequest_isSome _ _ _ (passOf_serves hfill) hserving fuel
    inp.doorbell (by omega)
  rw [← qdmaDescqProcSgtRequest_eq hmode] at hr
  have hcalled := Between.process hmode hfill h inp hr
  have hwritten : q.written < r.2.written := hcalled.written_lt honline hstop hwork havail
  rw [Between.service hmode h, hr]
  exact ⟨Or.inl hwritten, Or.inl hwritten⟩

theorem Between.init (conf : QueueConf) : Between conf conf.start := by
  refine ⟨⟨⟨0, 0, Indices.start conf⟩, List.nodup_nil, ?_, ?_, ?_⟩, rfl⟩
  · exact fun id hid => absurd hid List.not_mem_nil
  · exact fun id hid => absurd hid List.not_mem_nil
  · exact fun id hid => absurd hid List.not_mem_nil

/-- As long as no processing call ends with a failed write of the PIDX register, the queue is
never wedged, through stops and starts. -/
theorem serveRun_unwedged (hmode : conf.drvMode = .poll ∨ conf.drvMode = .auto)
    (hfill : CallbackWilling conf) {es : List ServeEvent}
    (hok : Admitted (serveStep conf) ServeOk conf.start es) :
    Always (serveStep conf) (Unwedged conf) conf.start es := by
  apply @Admitted.always _ _ _ _ ServeOk (Between conf) _
    (fun _ h => Between.unwedged hmode hfill h) _ _ _ (Between.init conf) hok hok
  exact fun s e h _ he => Between.step hmode hfill h e he

end

theorem pollConf_rngsz_pos : 0 < 4 := by decide

/-- A memory mapped queue of four descriptors in poll mode. -/
def pollConf : QueueConf where
  st := false
  qType := .h2c
  rngsz := 4
  drvMode := .poll
  rngsz_pos := pollConf_rngsz_pos
  rngsz_lt := by decide
  pidxAcc_lt := by decide
  st_h2c := fun h => nomatch h

theorem pollConf_willing : CallbackWilling pollConf := by
  intro fill hext
  have hnone : pollConf.ulExt = none := rfl
  rw [hnone] at hext
  cases hext

/-- A request for a list of two elements. -/
def pollReq : QdmaRequest where
  count := 96
  sgcnt := 2
  sgl := [{ len := 64 }, { len := 32 }]

/-- A request is processed, another one is interrupted by a stop, and a third one follows. -/
def pollRun : List ServeEvent :=
  [.submit { id := 1, req := pollReq }, .process { fuel := 9, advances := [1, 1] },
    .submit { id := 2, req := pollReq }, .stopBegin, .service { fuel := 9, advances := [1] },
    .stopEnd, .start true, .submit { id := 3, req := pollReq }, .service { fuel := 9 }]

theorem pollRun_unwedged : Always (serveStep pollConf) (Unwedged pollConf) pollConf.start pollRun :=
  serveRun_unwedged (Or.inl rfl) pollConf_willing (by decide +kernel)

/-- A call whose last write of the PIDX register fails returns without clearing its flag. -/
theorem pollRun_wedged :
    ¬ ∀ (conf : QueueConf), (conf.drvMode = .poll ∨ conf.drvMode = .auto) → CallbackWilling conf →
      ∀ es, Admitted (serveStep conf)
        (fun q e => ∀ s, e = .submit s → Fresh q [s]) conf.start es →
        Always (serveStep conf) (Unwedged conf) conf.start es := by
  intro h
  have hfresh : Fresh pollConf.start [{ id := 1, req := pollReq }] := by decide
  have hrun := h pollConf (Or.inl rfl) pollConf_willing
    [.submit { id := 1, req := pollReq }, .process { fuel := 9, doorbell := false }]
    ⟨fun s hs => by cases hs; exact hfresh, (fun s hs => nomatch hs), trivial⟩
  have hflag := hrun.final.flag
  revert hflag
  decide +kernel

end OnicDriver.H2c
