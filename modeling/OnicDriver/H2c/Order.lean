import OnicDriver.H2c.Steps
import OnicDriver.H2c.Mapped

/-!
# The order of completions

A queue with requests is a line: the requests that have ended and those on the
lists, in the order in which they were accepted. Processing and completions only
move the border between the two, so that every accepted request ends once, in turn,
unless its caller gives up on it.
-/

namespace OnicDriver.H2c

open Lib Queue

/-- The request that a completion ends. -/
def Completion.id : Completion → ReqId
  | .fpDone id _ _ => id
  | .woken id _ => id

/-- The requests that have ended, the first one first. -/
def Descq.ended (q : Descq) : List ReqId := q.completions.map Completion.id

/-- The requests that have ended and those on the lists. -/
def Descq.line (q : Descq) : List ReqId := q.ended ++ q.pending

/-- The line is as it was. -/
structure InLine (q q' : Descq) : Prop where
  line : q'.line = q.line
  nodup : q'.pending.Nodup

/-- The callback of the queue submits no requests itself. -/
def QueuesNone (conf : QueueConf) : Prop :=
  ∀ fill, conf.ulExt = some fill → ∀ q id, (fill q id).queued = []

section

variable {conf : QueueConf} {q q' q'' : Descq} {id : ReqId} {rest : List ReqId}

theorem InLine.trans (h : InLine q q') (h' : InLine q' q'') : InLine q q'' :=
  ⟨h'.line.trans h.line, h'.nodup⟩

theorem InLine.of_eq (hnodup : q.pending.Nodup) (hwork : q'.workList = q.workList)
    (hpend : q'.pendList = q.pendList) (hdone : q'.completions = q.completions) :
    InLine q q' := by
  have hpending : q'.pending = q.pending := by
    unfold Descq.pending
    rw [hwork, hpend]
  constructor
  · unfold Descq.line Descq.ended
    rw [hpending, hdone]
  · rw [hpending]
    exact hnodup

theorem InLine.refl (hnodup : q.pending.Nodup) : InLine q q := InLine.of_eq hnodup rfl rfl rfl

theorem InLine.setCb (hnodup : q.pending.Nodup) (id : ReqId) (cb : SgtReqCb) :
    InLine q (q.setCb id cb) := InLine.of_eq hnodup rfl rfl rfl

/-! ## Completions -/

theorem ended_qdmaSgtReqDone (error : ℤ) :
    (qdmaSgtReqDone conf q id error).ended = q.ended ++ [id] := by
  have hunlink : (unlinkReq q id).completions = q.completions := by
    unfold unlinkReq
    dsimp only
    split
    · rfl
    · rfl
  unfold qdmaSgtReqDone Descq.ended
  dsimp only
  split
  · rw [hunlink, List.map_append]
    rfl
  · rw [hunlink, List.map_append]
    rfl

/-- The first request of the pending list ends. -/
theorem InLine.done (hnodup : q.pending.Nodup) (hpend : q.pendList = id :: rest) (error : ℤ) :
    InLine q (qdmaSgtReqDone conf q id error) ∧
      (qdmaSgtReqDone conf q id error).pendList = rest := by
  have hends := @qdmaSgtReqDone_ends conf q id error
  rw [Descq.pending, hpend, List.cons_append, List.nodup_cons] at hnodup
  obtain ⟨hnot, hrest⟩ := hnodup
  have hpend' : (qdmaSgtReqDone conf q id error).pendList = rest := by
    rw [hends.pend, hpend, List.erase_cons_head]
  have hpending : (qdmaSgtReqDone conf q id error).pending = rest ++ q.workList := by
    rw [Descq.pending, hpend', hends.work,
      List.erase_of_not_mem fun hmem => hnot (List.mem_append_right _ hmem)]
  refine ⟨⟨?_, ?_⟩, hpend'⟩
  · rw [Descq.line, ended_qdmaSgtReqDone, hpending, Descq.line, Descq.pending, hpend,
      List.append_assoc]
    rfl
  · rw [hpending]
    exact hrest

theorem InLine.completeRequests (hnodup : q.pending.Nodup) {pend : List ReqId}
    (hpend : q.pendList = pend) (cr : ℕ) : InLine q (completeRequests conf cr pend q).2 := by
  induction pend generalizing cr q with
  | nil => exact InLine.refl hnodup
  | cons id pend ih =>
    obtain ⟨hdone, hrest⟩ := @InLine.done conf _ _ _ hnodup hpend 0
    unfold H2c.completeRequests
    dsimp only
    split
    · split
      · exact hdone
      · exact hdone.trans (ih hdone.nodup hrest _)
    · exact InLine.of_eq hnodup rfl rfl rfl

theorem InLine.pidxUpdate (hnodup : q.pending.Nodup) (force : Bool) :
    InLine q (qdmaPidxUpdate conf q force).2 := by
  unfold qdmaPidxUpdate queuePidxUpdate
  split
  · cases q.doorbells with
    | nil => exact InLine.of_eq hnodup rfl rfl rfl
    | cons b rest => cases b <;> exact InLine.of_eq hnodup rfl rfl rfl
  · exact InLine.refl hnodup

theorem InLine.look (hnodup : q.pending.Nodup) :
    InLine q (descqMmNH2cCmplStatus conf q) := by
  have hread : InLine q (readCmplStatus conf q).2 := by
    unfold readCmplStatus
    split
    · exact InLine.refl hnodup
    · exact InLine.of_eq hnodup rfl rfl rfl
  unfold descqMmNH2cCmplStatus
  split
  · exact InLine.refl hnodup
  · dsimp only
    split
    · exact hread
    · set q₁ := (readCmplStatus conf q).2
      set cr := if (readCmplStatus conf q).1 < q₁.cidx then
        conf.rngsz - q₁.cidx + (readCmplStatus conf q).1 else (readCmplStatus conf q).1 - q₁.cidx
      set q₂ : Descq := { q₁ with
        cidx := (readCmplStatus conf q).1, avail := q₁.avail + cr, credit := q₁.credit + cr
        owners := q₁.owners.drop cr }
      have hback : InLine q q₂ := hread.trans (InLine.of_eq hread.nodup rfl rfl rfl)
      have hcomplete := @InLine.completeRequests conf _ hback.nodup _ rfl q₂.credit
      have hcredit := hcomplete.trans (@InLine.of_eq _
        { (H2c.completeRequests conf q₂.credit q₂.pendList q₂).2 with
          credit := (H2c.completeRequests conf q₂.credit q₂.pendList q₂).1 }
        hcomplete.nodup rfl rfl rfl)
      exact hback.trans (hcredit.trans (InLine.pidxUpdate hcredit.nodup true))

theorem InLine.poll (hnodup : q.pending.Nodup) :
    InLine q (descqPollMmNH2cCmplStatus conf q) := by
  unfold descqPollMmNH2cCmplStatus
  split
  · have hflag : InLine q { q with procReqRunning := true } := InLine.of_eq hnodup rfl rfl rfl
    exact hflag.trans (InLine.look hflag.nodup)
  · exact InLine.refl hnodup

/-! ## Descriptors -/

/-- The first request of the work list stays there or goes behind the pending ones. -/
theorem InLine.update (hnodup : q.pending.Nodup) (hwork : q.workList = id :: rest) (n c : ℕ) :
    InLine q (qdmaUpdateRequest q id n c) := by
  have hnot : id ∉ q.pendList := by
    rw [Descq.pending, hwork] at hnodup
    exact fun hmem => (List.nodup_append.mp hnodup).2.2 id hmem id List.mem_cons_self rfl
  have hsame : (qdmaUpdateRequest q id n c).pending = q.pending ∧
      (qdmaUpdateRequest q id n c).completions = q.completions := by
    unfold qdmaUpdateRequest
    dsimp only
    split
    · refine ⟨?_, rfl⟩
      change (q.pendList.erase id ++ [id]) ++ q.workList.erase id = _
      rw [List.erase_of_not_mem hnot, hwork, List.erase_cons_head, List.append_assoc,
        Descq.pending, hwork]
      rfl
    · exact ⟨rfl, rfl⟩
  constructor
  · rw [Descq.line, Descq.ended, hsame.1, hsame.2]
    rfl
  · rw [hsame.1]
    exact hnodup

theorem InLine.issue (hnodup : q.pending.Nodup) (hwork : q.workList = id :: rest)
    (pieces : List Piece) (mm : ℕ → MmDesc) (st : ℕ → H2cDesc) :
    InLine q (H2c.issue conf id pieces { q with mmDesc := mm, h2cDesc := st }) := by
  have hstore : InLine q { q with mmDesc := mm, h2cDesc := st } :=
    InLine.of_eq hnodup rfl rfl rfl
  have hupdate := hstore.trans (InLine.update hstore.nodup hwork pieces.length
    (dataCnt pieces))
  exact hupdate.trans (InLine.of_eq hupdate.nodup rfl rfl rfl)

theorem InLine.qdmaQDescGet (hnodup : q.pending.Nodup) (n : ℕ) :
    InLine q (qdmaQDescGet conf id n q).2 := by
  have hlook : InLine q (if q.avail < n then descqMmNH2cCmplStatus conf q else q) := by
    split
    · exact InLine.look hnodup
    · exact InLine.refl hnodup
  unfold H2c.qdmaQDescGet
  split
  · exact InLine.refl hnodup
  · dsimp only
    set q₁ := if q.avail < n then descqMmNH2cCmplStatus conf q else q
    split
    · exact hlook
    · exact hlook.trans (InLine.of_eq hlook.nodup rfl rfl rfl)

theorem InLine.getDescs (hnodup : q.pending.Nodup) (gets : List ℕ) :
    InLine q (getDescs conf id gets q).2 := by
  induction gets generalizing q with
  | nil => exact InLine.refl hnodup
  | cons n gets ih =>
    have hget : InLine q (H2c.qdmaQDescGet conf id n q).2 := InLine.qdmaQDescGet hnodup n
    exact hget.trans (ih hget.nodup)

theorem InLine.fill (hnodup : q.pending.Nodup) (hwork : q.workList = id :: rest)
    {fill : Descq → ReqId → Fill} (hqueued : (fill q id).queued = []) :
    InLine q (fpBypassDescFill conf fill id q).2 := by
  have hgets : InLine q (H2c.getDescs conf id (fill q id).gets q).2 := InLine.getDescs hnodup _
  have hcompletes : Completes (fun _ => True) conf q
      (H2c.getDescs conf id (fill q id).gets q).2 := Completes.getDescs hnodup _
  unfold fpBypassDescFill
  dsimp only
  rw [hqueued, List.foldl_nil]
  cases (fill q id).dataCnt with
  | none => exact hgets
  | some dataCnt =>
    exact hgets.trans (InLine.update hgets.nodup (hcompletes.work.trans hwork) _ _)

/-! ## Steps of a call -/

theorem InLine.pollIfFull (hnodup : q.pending.Nodup) :
    InLine q (if q.avail = 0 then descqPollMmNH2cCmplStatus conf q else q) ∧
      (if q.avail = 0 then descqPollMmNH2cCmplStatus conf q else q).workList = q.workList := by
  split
  · exact ⟨InLine.poll hnodup, (Completes.poll (P := fun _ => True) hnodup).work⟩
  · exact ⟨InLine.refl hnodup, rfl⟩

theorem InLine.mmPass (hfill : QueuesNone conf) (hnodup : q.pending.Nodup)
    (hwork : q.workList = id :: rest) : InLine q (mmPass conf id q).2 := by
  obtain ⟨hpoll, hsame⟩ := @InLine.pollIfFull conf _ hnodup
  unfold H2c.mmPass
  dsimp only
  set q₁ := if q.avail = 0 then descqPollMmNH2cCmplStatus conf q else q
  have hwork₁ : q₁.workList = id :: rest := hsame.trans hwork
  split
  · exact hpoll
  · cases hext : conf.ulExt with
    | some fill => exact hpoll.trans (InLine.fill hpoll.nodup hwork₁ (hfill fill hext q₁ id))
    | none =>
      dsimp only
      split
      · exact hpoll.trans (InLine.update hpoll.nodup hwork₁ 0 0)
      · split
        · exact hpoll
        · exact hpoll.trans (InLine.issue hpoll.nodup hwork₁ _ _ _)

theorem InLine.stPass (hfill : QueuesNone conf) (hnodup : q.pending.Nodup)
    (hwork : q.workList = id :: rest) : InLine q (stPass conf id q).2 := by
  obtain ⟨hpoll, hsame⟩ := @InLine.pollIfFull conf _ hnodup
  unfold H2c.stPass
  dsimp only
  set q₁ := if q.avail = 0 then descqPollMmNH2cCmplStatus conf q else q
  have hwork₁ : q₁.workList = id :: rest := hsame.trans hwork
  split
  · exact hpoll
  · cases hext : conf.ulExt with
    | some fill => exact hpoll.trans (InLine.fill hpoll.nodup hwork₁ (hfill fill hext q₁ id))
    | none =>
      dsimp only
      split
      · exact hpoll.trans (InLine.update hpoll.nodup hwork₁ 0 0)
      · exact hpoll.trans (InLine.issue hpoll.nodup hwork₁ _ _ _)

theorem InLine.step (hfill : QueuesNone conf) (hnodup : q.pending.Nodup)
    (hstep : CallStep conf q q') : InLine q q' := by
  cases hstep with
  | look => exact InLine.look hnodup
  | flags running => exact InLine.of_eq hnodup rfl rfl rfl
  | aside empty pend doorbells => exact InLine.of_eq hnodup rfl rfl rfl
  | post empty pend doorbells => exact InLine.of_eq hnodup rfl rfl rfl
  | pass hwork =>
    unfold passOf
    split
    · exact InLine.stPass hfill hnodup hwork
    · exact InLine.mmPass hfill hnodup hwork
  | fill hext hwork => exact InLine.fill hnodup hwork (hfill _ hext _ _)

theorem InLine.steps (hfill : QueuesNone conf) (hnodup : q.pending.Nodup)
    (hsteps : CallSteps conf q q') : InLine q q' := by
  induction hsteps with
  | refl => exact InLine.refl hnodup
  | tail _ hstep ih => exact ih.trans (InLine.step hfill ih.nodup hstep)

/-! ## Calls of the clients -/

/-- Requests have come to the end of the line. -/
structure Joined (ids : List ReqId) (q q' : Descq) : Prop where
  line : q'.line = q.line ++ ids
  nodup : q'.pending.Nodup

theorem InLine.joined (h : InLine q q') : Joined [] q q' :=
  ⟨h.line.trans (List.append_nil _).symm, h.nodup⟩

theorem InLine.join {ids : List ReqId} (h : InLine q q') (h' : Joined ids q' q'') :
    Joined ids q q'' :=
  ⟨h.line ▸ h'.line, h'.nodup⟩

theorem Joined.trans {ids : List ReqId} (h : Joined ids q q') (h' : InLine q' q'') :
    Joined ids q q'' :=
  ⟨h'.line.trans h.line, h'.nodup⟩

theorem Joined.call (hfill : QueuesNone conf) {ids : List ReqId} (h : Joined ids q q')
    {inp : CallInput} (hsteps : CallSteps conf (q'.scripted inp) q'') : Joined ids q q'' := by
  have hset : InLine q' (q'.scripted inp) := InLine.of_eq h.nodup rfl rfl rfl
  exact (h.trans hset).trans (InLine.steps hfill hset.nodup hsteps)

/-- Requests that are new to the queue come to the work list. -/
theorem Joined.of_workList {ids : List ReqId} (hnodup : q.pending.Nodup) (hids : ids.Nodup)
    (hnew : ∀ id ∈ ids, id ∉ q.pending) (hwork : q'.workList = q.workList ++ ids)
    (hpend : q'.pendList = q.pendList) (hdone : q'.completions = q.completions) :
    Joined ids q q' := by
  have hpending : q'.pending = q.pending ++ ids := by
    unfold Descq.pending
    rw [hwork, hpend, List.append_assoc]
  constructor
  · unfold Descq.line Descq.ended
    rw [hpending, hdone, List.append_assoc]
  · rw [hpending]
    exact List.nodup_append.mpr ⟨hnodup, hids, fun a ha b hb heq => hnew b hb (heq ▸ ha)⟩

/-- The lists and the completions are as they were. -/
structure Idle (q q' : Descq) : Prop where
  work : q'.workList = q.workList
  pend : q'.pendList = q.pendList
  done : q'.completions = q.completions

theorem Idle.refl (q : Descq) : Idle q q := ⟨rfl, rfl, rfl⟩

theorem Idle.trans (h : Idle q q') (h' : Idle q' q'') : Idle q q'' :=
  ⟨h'.work.trans h.work, h'.pend.trans h.pend, h'.done.trans h.done⟩

theorem Idle.inLine (h : Idle q q') (hnodup : q.pending.Nodup) : InLine q q' :=
  InLine.of_eq hnodup h.work h.pend h.done

theorem Idle.pending (h : Idle q q') : q'.pending = q.pending := by
  unfold Descq.pending
  rw [h.work, h.pend]

theorem idle_setReq (q : Descq) (id : ReqId) (req : QdmaRequest) : Idle q (q.setReq id req) :=
  ⟨rfl, rfl, rfl⟩

theorem idle_setCb (q : Descq) (id : ReqId) (cb : SgtReqCb) : Idle q (q.setCb id cb) :=
  ⟨rfl, rfl, rfl⟩

theorem idle_sglMapReq (q : Descq) (id : ReqId) (maps : List (Option ℕ)) :
    Idle q (sglMapReq q id maps).2 := ⟨rfl, rfl, rfl⟩

theorem idle_sglUnmapReq (q : Descq) (id : ReqId) : Idle q (sglUnmapReq q id) := ⟨rfl, rfl, rfl⟩

theorem idle_mapForSubmit (q : Descq) (id : ReqId) (maps : List (Option ℕ)) :
    Idle q (mapForSubmit q id maps).2 := by
  have hmap := idle_sglMapReq q id maps
  unfold mapForSubmit
  split
  · exact Idle.refl q
  · dsimp only
    split
    · exact hmap.trans (idle_setCb _ id _)
    · exact hmap

theorem idle_unmapSgl (q : Descq) (id : ReqId) : Idle q (unmapSgl q id) := by
  unfold unmapSgl
  split
  · exact Idle.refl q
  · exact idle_sglUnmapReq q id

/-- A request of a batch that can be mapped. -/
theorem idle_batchMap (q : Descq) {item : BatchItem}
    (hmaps : item.req.dmaMapped = true ∨ mapsDone item.maps (elems item.req) = true) :
    Idle q (batchMap q item) := by
  have hok : ∀ d, mapsDone item.maps (elems item.req) = true →
      (sglMap item.maps (elems item.req) d).1 = true := by
    intro d hdone
    unfold sglMap
    dsimp only
    rw [if_pos (((mapPages_fst d).mpr hdone).trans (length_mapPages d).symm)]
  have hreq : ((q.setReq item.id item.req).setCb item.id {}).req item.id = item.req :=
    Function.update_self _ _ _
  have hset := (idle_setReq q item.id item.req).trans (idle_setCb _ item.id {})
  unfold batchMap
  dsimp only
  split
  · exact hset
  · rename_i hclient
    set q₁ := (q.setReq item.id item.req).setCb item.id {}
    have hmap : (sglMapReq q₁ item.id item.maps).1 = true := by
      unfold sglMapReq
      rw [hreq]
      exact hok _ (hmaps.resolve_left hclient)
    rw [if_pos hmap]
    exact (hset.trans (idle_sglMapReq q₁ item.id item.maps)).trans (idle_setCb _ item.id _)

theorem idle_foldl_batchMap (q : Descq) {items : List BatchItem} (hmaps : ∀ item ∈ items,
      item.req.dmaMapped = true ∨ mapsDone item.maps (elems item.req) = true) :
    Idle q (items.foldl batchMap q) := by
  induction items generalizing q with
  | nil => exact Idle.refl q
  | cons item items ih =>
    exact (idle_batchMap q (hmaps item List.mem_cons_self)).trans
      (ih _ fun i hi => hmaps i (List.mem_cons_of_mem item hi))

theorem foldl_batchAdd_lists (items : List BatchItem) :
    (items.foldl batchAdd q).workList = q.workList ++ items.map BatchItem.id ∧
      (items.foldl batchAdd q).pendList = q.pendList ∧
      (items.foldl batchAdd q).completions = q.completions := by
  induction items generalizing q with
  | nil => exact ⟨(List.append_nil _).symm, rfl, rfl⟩
  | cons item items ih =>
    obtain ⟨hwork, hpend, hdone⟩ := @ih (batchAdd q item)
    refine ⟨hwork.trans ?_, hpend, hdone⟩
    exact List.append_assoc _ [item.id] _

/-! ## The end of a stop -/

/-- A callback is told of the end of a request, which is taken off its list. -/
theorem stopRequest_fpDone {del : Descq → ReqId → Descq}
    (hdel : ∀ q : Descq, ∀ id, (del q id).workList = q.workList.erase id ∧
      (del q id).pendList = q.pendList.erase id ∧ (del q id).completions = q.completions ∧
      (del q id).req = q.req) (hfp : (q.req id).fpDone = true) :
    (stopRequest del q id).workList = q.workList.erase id ∧
      (stopRequest del q id).pendList = q.pendList.erase id ∧
      (stopRequest del q id).ended = q.ended ++ [id] ∧ (stopRequest del q id).req = q.req := by
  set q₁ := q.setCb id { q.cb id with done := true, status := - ENXIO } with hq₁
  obtain ⟨hwork, hpend, hdone, hreq⟩ := hdel q₁ id
  have hstop : stopRequest del q id = { del q₁ id with
      completions := (del q₁ id).completions ++ [Completion.fpDone id 0 (- ENXIO)] } := by
    have hfp₁ : (q₁.req id).fpDone = true := hfp
    simp only [stopRequest, ← hq₁, hfp₁, if_true]
  rw [hstop]
  refine ⟨hwork, hpend, ?_, hreq⟩
  unfold Descq.ended
  dsimp only
  rw [hdone, List.map_append]
  rfl

/-- The callbacks of the requests on the pending list are told, one after the other. -/
theorem InLine.stopPending {pend : List ReqId} (hnodup : q.pending.Nodup)
    (hpend : q.pendList = pend) (hfp : ∀ id ∈ q.pending, (q.req id).fpDone = true) :
    let q' := pend.foldl (stopRequest Descq.listDel) q
    InLine q q' ∧ q'.pendList = [] ∧ q'.workList = q.workList ∧ q'.req = q.req := by
  induction pend generalizing q with
  | nil => exact ⟨InLine.refl hnodup, hpend, rfl, rfl⟩
  | cons id pend ih =>
    rw [Descq.pending, hpend] at hnodup hfp
    obtain ⟨hnot, hrest⟩ := List.nodup_cons.mp hnodup
    obtain ⟨hwork, hpend', hended, hreq⟩ := @stopRequest_fpDone _ _ Descq.listDel
      (fun q id => ⟨rfl, rfl, rfl, rfl⟩) (hfp id List.mem_cons_self)
    rw [List.erase_of_not_mem fun hmem => hnot (List.mem_append_right _ hmem)] at hwork
    rw [hpend, List.erase_cons_head] at hpend'
    have hone : InLine q (stopRequest Descq.listDel q id) := by
      constructor
      · rw [Descq.line, Descq.line, hended, Descq.pending, hpend', hwork, Descq.pending, hpend,
          List.append_assoc]
        rfl
      · rw [Descq.pending, hpend', hwork]
        exact hrest
    obtain ⟨hline, hnone, hwork', hreq'⟩ := ih hone.nodup hpend' (fun j hj => by
      rw [Descq.pending, hpend', hwork] at hj
      rw [hreq]
      exact hfp j (List.mem_cons_of_mem id hj))
    exact ⟨hone.trans hline, hnone, hwork'.trans hwork, hreq'.trans hreq⟩

/-- Then those of the requests on the work list. -/
theorem InLine.stopWork {work : List ReqId} (hnodup : q.pending.Nodup)
    (hwork : q.workList = work) (hpend : q.pendList = [])
    (hfp : ∀ id ∈ q.workList, (q.req id).fpDone = true) :
    InLine q (work.foldl (stopRequest qdmaWorkQueueDel) q) := by
  induction work generalizing q with
  | nil => exact InLine.refl hnodup
  | cons id work ih =>
    have hnodup' := hnodup
    rw [Descq.pending, hpend, List.nil_append, hwork] at hnodup'
    rw [hwork] at hfp
    obtain ⟨hwork', hpend', hended, hreq⟩ := @stopRequest_fpDone _ _ qdmaWorkQueueDel
      (fun q id => ⟨rfl, rfl, rfl, rfl⟩) (hfp id List.mem_cons_self)
    rw [hwork, List.erase_cons_head] at hwork'
    rw [hpend, List.erase_nil] at hpend'
    have hone : InLine q (stopRequest qdmaWorkQueueDel q id) := by
      constructor
      · rw [Descq.line, Descq.line, hended, Descq.pending, hpend', hwork', Descq.pending, hpend,
          hwork, List.append_assoc]
        rfl
      · rw [Descq.pending, hpend', hwork']
        exact (List.nodup_cons.mp hnodup').2
    refine hone.trans (ih hone.nodup hwork' hpend' fun j hj => ?_)
    rw [hwork'] at hj
    rw [hreq]
    exact hfp j (List.mem_cons_of_mem id hj)

theorem InLine.stopEnd (hnodup : q.pending.Nodup)
    (hfp : ∀ id ∈ q.pending, (q.req id).fpDone = true) : InLine q (qdmaQueueStopEnd q) := by
  have hstate : InLine q { q with qState := .enabled, qStopWait := false } :=
    InLine.of_eq hnodup rfl rfl rfl
  obtain ⟨hpend, hnone, hwork, hreq⟩ := InLine.stopPending hstate.nodup rfl hfp
  unfold qdmaQueueStopEnd
  refine hstate.trans (hpend.trans (InLine.stopWork hpend.nodup rfl hnone fun id hid => ?_))
  rw [hwork] at hid
  rw [hreq]
  exact hfp id (List.mem_append_right _ hid)

/-! ## Runs -/

end

/-- Requests that are submitted are not on a list of the queue, the pages of those in a batch can be
mapped, and where a stop ends all requests have a callback. -/
def OrderOk (s : Clients) : ClientEvent → Prop
  | .requestSubmit id _ _ _ => id ∉ s.q.pending
  | .batchSubmit first rest _ =>
    ((first :: rest).map BatchItem.id).Nodup ∧ ∀ item ∈ first :: rest,
      item.id ∉ s.q.pending ∧
        (item.req.dmaMapped = true ∨ mapsDone item.maps (elems item.req) = true)
  | .packetAdd sub => sub.id ∉ s.q.pending
  | .stopEnd => ∀ id ∈ s.q.pending, (s.q.req id).fpDone = true
  | _ => True

instance (s : Clients) : ∀ e : ClientEvent, Decidable (OrderOk s e)
  | .requestSubmit id _ _ _ => inferInstanceAs (Decidable (id ∉ s.q.pending))
  | .batchSubmit first rest _ =>
    inferInstanceAs (Decidable (((first :: rest).map BatchItem.id).Nodup ∧ ∀ item ∈ first :: rest,
      item.id ∉ s.q.pending ∧
        (item.req.dmaMapped = true ∨ mapsDone item.maps (elems item.req) = true)))
  | .packetAdd sub => inferInstanceAs (Decidable (sub.id ∉ s.q.pending))
  | .stopEnd => inferInstanceAs (Decidable (∀ id ∈ s.q.pending, (s.q.req id).fpDone = true))
  | .packetMap .. | .waited _ | .process _ | .service _ | .stopBegin | .start _ =>
    instDecidableTrue

/-- The requests that a call accepts. -/
def accepted (conf : QueueConf) (s : Clients) : ClientEvent → List ReqId
  | .requestSubmit id req maps inp =>
    if (qdmaRequestSubmit conf id req maps inp s).1 = 0 then [id] else []
  | .batchSubmit first rest inp =>
    if (qdmaBatchRequestSubmit conf first rest inp s.q).1 = 0 then
      (first :: rest).map BatchItem.id else []
  | .packetAdd sub => if (packetWriteAdd conf sub s).1 = 0 then [sub.id] else []
  | _ => []

/-- The request that a caller gives up on. -/
def givenUp (s : Clients) : ClientEvent → List ReqId
  | .waited id => if (s.q.cb id).done = false ∧ id ∈ s.q.pending then [id] else []
  | _ => []

section

variable {conf : QueueConf}

/-- `qdma_request_submit`. -/
theorem Joined.requestSubmit (hfill : QueuesNone conf) {s : Clients} (hnodup : s.q.pending.Nodup)
    {id : ReqId} (hnew : id ∉ s.q.pending) (req : QdmaRequest) (maps : List (Option ℕ))
    (inp : CallInput) :
    Joined (if (qdmaRequestSubmit conf id req maps inp s).1 = 0 then [id] else []) s.q
      (qdmaRequestSubmit conf id req maps inp s).2.q := by
  have hset := idle_setReq s.q id req
  have hmap := (hset.trans (idle_setCb _ id {})).trans (idle_mapForSubmit _ id maps)
  unfold qdmaRequestSubmit
  dsimp only
  set q₁ := (mapForSubmit ((s.q.setReq id req).setCb id {}) id maps).2
  split
  · exact (hset.inLine hnodup).joined
  · split
    · exact ((hmap.trans (idle_unmapSgl q₁ id)).inLine hnodup).joined
    · split
      · exact ((hmap.trans (idle_unmapSgl q₁ id)).inLine hnodup).joined
      · have hline := hmap.inLine hnodup
        have hjoin : Joined [id] q₁ (qdmaWorkQueueAdd q₁ id) := by
          refine Joined.of_workList hline.nodup (List.nodup_singleton id) (fun j hj => ?_)
            rfl rfl rfl
          rw [List.mem_singleton.mp hj, hmap.pending]
          exact hnew
        exact (hline.join hjoin).call hfill CallSteps.call

/-- `qdma_batch_request_submit`. -/
theorem Joined.batchSubmit (hfill : QueuesNone conf) {q : Descq} (hnodup : q.pending.Nodup)
    {first : BatchItem} {rest : List BatchItem}
    (hids : ((first :: rest).map BatchItem.id).Nodup)
    (hitems : ∀ item ∈ first :: rest, item.id ∉ q.pending ∧
      (item.req.dmaMapped = true ∨ mapsDone item.maps (elems item.req) = true))
    (inp : CallInput) :
    Joined (if (qdmaBatchRequestSubmit conf first rest inp q).1 = 0 then
      (first :: rest).map BatchItem.id else []) q
      (qdmaBatchRequestSubmit conf first rest inp q).2 := by
  have hmap : Idle q ((first :: rest).foldl batchMap q) :=
    idle_foldl_batchMap q fun item hitem => (hitems item hitem).2
  have hline := hmap.inLine hnodup
  unfold qdmaBatchRequestSubmit
  split
  · exact (InLine.refl hnodup).joined
  · dsimp only
    set q₁ := (first :: rest).foldl batchMap q
    split
    · exact hline.joined
    · obtain ⟨hwork, hpend, hdone⟩ := @foldl_batchAdd_lists q₁ (first :: rest)
      have hjoin : Joined ((first :: rest).map BatchItem.id) q₁
          ((first :: rest).foldl batchAdd q₁) := by
        refine Joined.of_workList hline.nodup hids (fun j hj => ?_) hwork hpend hdone
        obtain ⟨item, hitem, rfl⟩ := List.mem_map.mp hj
        rw [hmap.pending]
        exact (hitems item hitem).1
      exact (hline.join hjoin).call hfill CallSteps.call

/-- `qdma_queue_packet_write` from the work list on. -/
theorem InLine.packetMap (hfill : QueuesNone conf) {s : Clients} (hnodup : s.q.pending.Nodup)
    (id : ReqId) (maps : List (Option ℕ)) (inp : CallInput) :
    InLine s.q (packetWriteMap conf id maps inp s).2.q := by
  have hmap := idle_mapForSubmit s.q id maps
  have hunmap : ∀ q : Descq, Idle q (if (q.cb id).unmapNeeded then sglUnmapReq q id else q) := by
    intro q
    split
    · exact idle_sglUnmapReq q id
    · exact Idle.refl q
  unfold packetWriteMap
  dsimp only
  set q₁ := (H2c.mapForSubmit s.q id maps).2
  split
  · exact (hmap.trans (hunmap q₁)).inLine hnodup
  · split
    · exact (hmap.trans (hunmap q₁)).inLine hnodup
    · have hcall := @Joined.call _ _ _ _ hfill _ (hmap.inLine hnodup).joined inp
        (@CallSteps.call _ _ inp.fuel inp.doorbell)
      exact ⟨hcall.line.trans (List.append_nil _), hcall.nodup⟩

/-- A caller that gives up takes its request out of the line. -/
theorem line_listDel {q : Descq} {id : ReqId} (hid : id ∈ q.pending) (hnodup : q.pending.Nodup) :
    (q.listDel id).line.Sublist q.line ∧ ((q.listDel id).line ++ [id]).Perm q.line := by
  have hapart := (List.nodup_append.mp hnodup).2.2
  constructor
  · exact (List.Sublist.refl _).append (List.erase_sublist.append List.erase_sublist)
  · have hperm : ((q.listDel id).pending ++ [id]).Perm q.pending := by
      change (q.pendList.erase id ++ q.workList.erase id ++ [id]).Perm (q.pendList ++ q.workList)
      refine List.perm_append_comm.trans ?_
      obtain hpend | hwork := List.mem_append.mp hid
      · have hnot : id ∉ q.workList := fun hmem => hapart id hpend id hmem rfl
        rw [List.erase_of_not_mem hnot, ← List.append_assoc]
        exact (List.perm_cons_erase hpend).symm.append_right _
      · have hnot : id ∉ q.pendList := fun hmem => hapart id hmem id hwork rfl
        rw [List.erase_of_not_mem hnot]
        change (id :: (q.pendList ++ q.workList.erase id)).Perm _
        exact (List.perm_middle (a := id)).symm.trans
          ((List.perm_cons_erase hwork).symm.append_left q.pendList)
    change (q.ended ++ (q.listDel id).pending ++ [id]).Perm (q.ended ++ q.pending)
    rw [List.append_assoc]
    exact hperm.append_left _

theorem Idle.line {q q' : Descq} (h : Idle q q') : q'.line = q.line := by
  rw [Descq.line, Descq.ended, h.pending, h.done]
  rfl

/-- What a call does to the line. -/
structure Conserved (conf : QueueConf) (s : Clients) (e : ClientEvent) : Prop where
  nodup : (clientStep conf s e).q.pending.Nodup
  order : (clientStep conf s e).q.line.Sublist (s.q.line ++ accepted conf s e)
  perm : ((clientStep conf s e).q.line ++ givenUp s e).Perm (s.q.line ++ accepted conf s e)

theorem Joined.conserved {s : Clients} {e : ClientEvent}
    (h : Joined (accepted conf s e) s.q (clientStep conf s e).q) (hgive : givenUp s e = []) :
    Conserved conf s e := by
  refine ⟨h.nodup, ?_, ?_⟩
  · rw [h.line]
  · rw [h.line, hgive, List.append_nil]

theorem Conserved.event (hfill : QueuesNone conf) {s : Clients} (hnodup : s.q.pending.Nodup)
    {e : ClientEvent} (hok : OrderOk s e) : Conserved conf s e := by
  cases e with
  | requestSubmit id req maps inp =>
    refine Joined.conserved ?_ rfl
    exact Joined.requestSubmit hfill hnodup hok req maps inp
  | batchSubmit first rest inp =>
    refine Joined.conserved ?_ rfl
    exact Joined.batchSubmit hfill hnodup hok.1 hok.2 inp
  | packetAdd sub =>
    refine Joined.conserved ?_ rfl
    change Joined (if (packetWriteAdd conf sub s).1 = 0 then [sub.id] else []) s.q
      (packetWriteAdd conf sub s).2.q
    unfold packetWriteAdd
    split
    · exact (InLine.refl hnodup).joined
    · exact Joined.of_workList hnodup (List.nodup_singleton _)
        (fun j hj => by rw [List.mem_singleton.mp hj]; exact hok) rfl rfl rfl
  | packetMap id maps inp =>
    refine Joined.conserved ?_ rfl
    exact (InLine.packetMap hfill hnodup id maps inp).joined
  | waited id =>
    have hidle : ∀ {q : Descq}, q.pending.Nodup → Idle q (clientStep conf s (.waited id)).q →
        q.line = s.q.line → givenUp s (.waited id) = [] → Conserved conf s (.waited id) := by
      intro q hq hidle hline hgive
      refine Joined.conserved ⟨?_, (hidle.inLine hq).nodup⟩ hgive
      rw [hidle.line, hline]
      exact (List.append_nil _).symm
    by_cases hdone : (s.q.cb id).done = false
    · have hstep : (clientStep conf s (.waited id)).q = unmapSgl (s.q.listDel id) id := by
        change (qdmaRequestWaitForCmpl id s).2.q = _
        unfold qdmaRequestWaitForCmpl
        dsimp only
        rw [if_pos hdone]
      have hunmap : Idle (s.q.listDel id) (clientStep conf s (.waited id)).q := by
        rw [hstep]
        exact idle_unmapSgl _ id
      have hoff : (s.q.listDel id).pending.Nodup :=
        hnodup.sublist (List.erase_sublist.append List.erase_sublist)
      by_cases hid : id ∈ s.q.pending
      · obtain ⟨hsub, hperm⟩ := line_listDel hid hnodup
        have hgive : givenUp s (.waited id) = [id] := if_pos ⟨hdone, hid⟩
        refine ⟨(hunmap.inLine hoff).nodup, ?_, ?_⟩
        · rw [hunmap.line]
          exact hsub.trans (List.sublist_append_left _ _)
        · rw [hunmap.line, hgive]
          exact hperm.trans (List.Perm.of_eq (List.append_nil _).symm)
      · have hwork : s.q.workList.erase id = s.q.workList :=
          List.erase_of_not_mem fun hmem => hid (List.mem_append_right _ hmem)
        have hpend : s.q.pendList.erase id = s.q.pendList :=
          List.erase_of_not_mem fun hmem => hid (List.mem_append_left _ hmem)
        have hsame : Idle s.q (s.q.listDel id) := ⟨hwork, hpend, rfl⟩
        exact hidle hoff hunmap hsame.line (if_neg fun h => hid h.2)
    · have hstep : Idle s.q (clientStep conf s (.waited id)).q := by
        change Idle s.q (qdmaRequestWaitForCmpl id s).2.q
        unfold qdmaRequestWaitForCmpl
        dsimp only
        rw [if_neg hdone]
        split
        · exact idle_unmapSgl s.q id
        · exact Idle.refl s.q
      exact hidle hnodup hstep rfl (if_neg fun h => hdone h.1)
  | process inp =>
    refine Joined.conserved ?_ rfl
    exact (InLine.refl hnodup).joined.call hfill CallSteps.call
  | service inp =>
    refine Joined.conserved ?_ rfl
    exact (InLine.refl hnodup).joined.call hfill CallSteps.serviceCall
  | stopBegin =>
    refine Joined.conserved (InLine.joined ?_) rfl
    change InLine s.q (qdmaQueueStopBegin s.q).2
    unfold qdmaQueueStopBegin
    split
    · exact InLine.refl hnodup
    · exact InLine.of_eq hnodup rfl rfl rfl
  | stopEnd =>
    refine Joined.conserved ?_ rfl
    exact (InLine.stopEnd hnodup hok).joined
  | start ok =>
    refine Joined.conserved (InLine.joined ?_) rfl
    change InLine s.q (qdmaQueueStart conf ok s.q).2
    unfold qdmaQueueStart
    split
    · exact InLine.refl hnodup
    · dsimp only
      split
      · exact InLine.of_eq hnodup rfl rfl rfl
      · exact InLine.of_eq hnodup rfl rfl rfl

end

end OnicDriver.H2c
