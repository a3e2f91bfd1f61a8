import OnicDriver.H2c.Control
import Mathlib.Logic.Relation
import Mathlib.Data.List.Nodup

/-!
# What a processing call does to the requests

Whatever a processing call does to the lists and to the requests is a sequence of
five moves: nothing, the end of a request of the pending list, a request there that
gets credits, the first request of the work list that goes on, and a request that is
queued meanwhile. A property that each of them keeps is kept by every call.
-/

namespace OnicDriver.H2c

open Lib Queue

/-- The requests on the lists, the oldest first. -/
def Descq.pending (q : Descq) : List ReqId := q.pendList ++ q.workList

/-- Two states of a queue with the same requests on the same lists. -/
structure SameLists (q q' : Descq) : Prop where
  work : q'.workList = q.workList
  pend : q'.pendList = q.pendList
  req : q'.req = q.req
  cb : q'.cb = q.cb
  count : q'.workReqPend = q.workReqPend

/-- A move. `P` holds for the requests that are queued. -/
inductive Moves (P : Submission → Prop) (conf : QueueConf) : Descq → Descq → Prop
  | idle {q q' : Descq} (h : SameLists q q') : Moves P conf q q'
  | done {q : Descq} {id : ReqId} (h : id ∈ q.pendList) :
    Moves P conf q (qdmaSgtReqDone conf q id 0)
  | credited {q : Descq} {id : ReqId} (h : id ∈ q.pendList) (n : ℕ) :
    Moves P conf q (q.setCb id { q.cb id with descNr := n })
  | update {q : Descq} {id : ReqId} {rest : List ReqId} (h : q.workList = id :: rest)
    (n c : ℕ) : Moves P conf q (qdmaUpdateRequest q id n c)
  | queue {q : Descq} {s : Submission} (h : P s) (hnew : s.id ∉ q.pending)
    (hlen : q.workList.length + 1 < 2 ^ 32) : Moves P conf q (enqueue q s)

/-- A sequence of moves. -/
abbrev Walk (P : Submission → Prop) (conf : QueueConf) : Descq → Descq → Prop :=
  Relation.ReflTransGen (Moves P conf)

/-- The requests that a callback queues are new to the queue and not too many. -/
structure Queues (P : Submission → Prop) (fill : Descq → ReqId → Fill) : Prop where
  nodup : ∀ q id, ((fill q id).queued.map Submission.id).Nodup
  sent : ∀ q id, ∀ s ∈ (fill q id).queued, P s
  fresh : ∀ q id, ∀ s ∈ (fill q id).queued, s.id ∉ q.pending
  few : ∀ q id, (fill q id).queued ≠ [] →
    q.workList.length + (fill q id).queued.length < 2 ^ 32

/-- The same for the callback of a queue. -/
def CallbackQueues (P : Submission → Prop) (conf : QueueConf) : Prop :=
  ∀ fill, conf.ulExt = some fill → Queues P fill

section

variable {P : Submission → Prop} {conf : QueueConf} {q q' q'' : Descq} {id : ReqId}

/-! ## Single moves -/

theorem SameLists.pending (h : SameLists q q') : q'.pending = q.pending := by
  unfold Descq.pending
  rw [h.pend, h.work]

theorem Walk.idle (h : SameLists q q') : Walk P conf q q' :=
  Relation.ReflTransGen.single (Moves.idle h)

theorem pendList_qdmaSgtReqDone (error : ℤ) :
    (qdmaSgtReqDone conf q id error).pendList = q.pendList.erase id :=
  (qdmaSgtReqDone_ends error).pend

theorem workList_qdmaSgtReqDone (error : ℤ) :
    (qdmaSgtReqDone conf q id error).workList = q.workList.erase id :=
  (qdmaSgtReqDone_ends error).work

/-- No request is on the lists twice, and none comes to them but those that are queued. -/
theorem Moves.pending (h : Moves P conf q q') (hnodup : q.pending.Nodup) :
    q'.pending.Nodup := by
  cases h with
  | idle h =>
    rw [h.pending]
    exact hnodup
  | done h =>
    unfold Descq.pending at hnodup ⊢
    rw [pendList_qdmaSgtReqDone, workList_qdmaSgtReqDone]
    exact hnodup.sublist (List.erase_sublist.append List.erase_sublist)
  | credited h n => exact hnodup
  | @update id rest h n c =>
    unfold qdmaUpdateRequest
    dsimp only
    split
    · change ((q.pendList.erase id ++ [id]) ++ q.workList.erase id).Nodup
      rw [Descq.pending, h, List.nodup_append] at hnodup
      obtain ⟨hpend, hwork, hapart⟩ := hnodup
      have hnot : id ∉ q.pendList := fun hmem => hapart id hmem id List.mem_cons_self rfl
      rw [List.erase_of_not_mem hnot, h, List.erase_cons_head, List.append_assoc]
      rw [List.nodup_append]
      exact ⟨hpend, hwork, hapart⟩
    · exact hnodup
  | queue h hnew hlen =>
    change (q.pendList ++ (q.workList ++ [_])).Nodup
    rw [← List.append_assoc, List.nodup_append]
    refine ⟨hnodup, List.nodup_singleton _, ?_⟩
    intro a ha b hb
    rw [List.mem_singleton] at hb
    rw [hb]
    exact ne_of_mem_of_not_mem ha hnew

theorem Walk.pending (h : Walk P conf q q') (hnodup : q.pending.Nodup) : q'.pending.Nodup := by
  induction h with
  | refl => exact hnodup
  | tail _ hmove ih => exact hmove.pending ih

/-! ## Completion processing -/

/-- Completions leave the work list alone, and no request comes to the lists. -/
structure Completes (P : Submission → Prop) (conf : QueueConf) (q q' : Descq) : Prop where
  walk : Walk P conf q q'
  work : q'.workList = q.workList
  pend : q'.pendList ⊆ q.pendList

theorem Completes.idle (h : SameLists q q') : Completes P conf q q' :=
  ⟨Walk.idle h, h.work, h.pend ▸ List.Subset.refl _⟩

theorem Completes.refl (q : Descq) : Completes P conf q q :=
  ⟨Relation.ReflTransGen.refl, rfl, List.Subset.refl _⟩

theorem Completes.trans (h : Completes P conf q q') (h' : Completes P conf q' q'') :
    Completes P conf q q'' :=
  ⟨h.walk.trans h'.walk, h'.work.trans h.work, fun _ hid => h.pend (h'.pend hid)⟩

theorem Completes.completeRequests {pend : List ReqId} (hnodup : q.pending.Nodup)
    (hpend : pend.Nodup) (hsub : pend ⊆ q.pendList) (cr : ℕ) :
    Completes P conf q (completeRequests conf cr pend q).2 := by
  induction pend generalizing q cr with
  | nil => exact Completes.refl q
  | cons id pend ih =>
    obtain ⟨hnot, hrest⟩ := List.nodup_cons.mp hpend
    have hid := hsub List.mem_cons_self
    have hapart : id ∉ q.workList :=
      fun hwork => (List.nodup_append.mp hnodup).2.2 id hid id hwork rfl
    have hdone : Completes P conf q (qdmaSgtReqDone conf q id 0) := by
      refine ⟨Relation.ReflTransGen.single (Moves.done hid), ?_, ?_⟩
      · rw [workList_qdmaSgtReqDone, List.erase_of_not_mem hapart]
      · rw [pendList_qdmaSgtReqDone]
        exact List.erase_subset
    unfold H2c.completeRequests
    dsimp only
    split
    · split
      · exact hdone
      · refine hdone.trans (ih (hdone.walk.pending hnodup) hrest ?_ _)
        intro j hj
        rw [pendList_qdmaSgtReqDone]
        exact (List.mem_erase_of_ne (ne_of_mem_of_not_mem hj hnot)).mpr
          (hsub (List.mem_cons_of_mem id hj))
    · exact ⟨Relation.ReflTransGen.single (Moves.credited hid _), rfl, List.Subset.refl _⟩

theorem sameLists_qdmaPidxUpdate (force : Bool) :
    SameLists q (qdmaPidxUpdate conf q force).2 := by
  unfold qdmaPidxUpdate queuePidxUpdate
  split
  · cases q.doorbells with
    | nil => exact ⟨rfl, rfl, rfl, rfl, rfl⟩
    | cons b rest => cases b <;> exact ⟨rfl, rfl, rfl, rfl, rfl⟩
  · exact ⟨rfl, rfl, rfl, rfl, rfl⟩

theorem sameLists_readCmplStatus : SameLists q (readCmplStatus conf q).2 := by
  unfold readCmplStatus
  split <;> exact ⟨rfl, rfl, rfl, rfl, rfl⟩

theorem Completes.status (hnodup : q.pending.Nodup) :
    Completes P conf q (descqMmNH2cCmplStatus conf q) := by
  have hread : SameLists q (readCmplStatus conf q).2 := sameLists_readCmplStatus
  unfold descqMmNH2cCmplStatus
  split
  · exact Completes.refl q
  · dsimp only
    split
    · exact Completes.idle hread
    · -- the descriptors are taken back, then the credits are handed out
      set cr := if (readCmplStatus conf q).1 < (readCmplStatus conf q).2.cidx then
        conf.rngsz - (readCmplStatus conf q).2.cidx + (readCmplStatus conf q).1
        else (readCmplStatus conf q).1 - (readCmplStatus conf q).2.cidx
      set q₁ : Descq := { (readCmplStatus conf q).2 with
        cidx := (readCmplStatus conf q).1, avail := (readCmplStatus conf q).2.avail + cr
        credit := (readCmplStatus conf q).2.credit + cr
        owners := (readCmplStatus conf q).2.owners.drop cr } with hq₁
      have hsame : SameLists q q₁ := ⟨hread.work, hread.pend, hread.req, hread.cb, hread.count⟩
      have hnodup₁ : q₁.pending.Nodup := hsame.pending ▸ hnodup
      have hcomplete := @Completes.completeRequests P conf _ _ hnodup₁
        (List.nodup_append.mp hnodup₁).1 (List.Subset.refl _) q₁.credit
      set r := H2c.completeRequests conf q₁.credit q₁.pendList q₁
      have hcredit : SameLists r.2 { r.2 with credit := r.1 } := ⟨rfl, rfl, rfl, rfl, rfl⟩
      exact (Completes.idle hsame).trans (hcomplete.trans ((Completes.idle hcredit).trans
        (Completes.idle (sameLists_qdmaPidxUpdate true))))

theorem Completes.poll (hnodup : q.pending.Nodup) :
    Completes P conf q (descqPollMmNH2cCmplStatus conf q) := by
  unfold descqPollMmNH2cCmplStatus
  split
  · have hflag : SameLists q { q with procReqRunning := true } := ⟨rfl, rfl, rfl, rfl, rfl⟩
    exact (Completes.idle hflag).trans (Completes.status (hflag.pending ▸ hnodup))
  · exact Completes.refl q

theorem Completes.pollIfFull (hnodup : q.pending.Nodup) :
    Completes P conf q (if q.avail = 0 then descqPollMmNH2cCmplStatus conf q else q) := by
  split
  · exact Completes.poll hnodup
  · exact Completes.refl q

/-! ## Passes -/

theorem Completes.qdmaQDescGet (hnodup : q.pending.Nodup) (cnt : ℕ) :
    Completes P conf q (qdmaQDescGet conf id cnt q).2 := by
  have hlook : Completes P conf q (if q.avail < cnt then descqMmNH2cCmplStatus conf q else q) := by
    split
    · exact Completes.status hnodup
    · exact Completes.refl q
  unfold H2c.qdmaQDescGet
  dsimp only
  split
  · exact Completes.refl q
  · set q₁ := if q.avail < cnt then descqMmNH2cCmplStatus conf q else q
    split
    · exact hlook
    · exact hlook.trans (Completes.idle ⟨rfl, rfl, rfl, rfl, rfl⟩)

theorem Completes.getDescs (hnodup : q.pending.Nodup) (gets : List ℕ) :
    Completes P conf q (getDescs conf id gets q).2 := by
  induction gets generalizing q with
  | nil => exact Completes.refl q
  | cons cnt gets ih =>
    have hget := @Completes.qdmaQDescGet P conf _ id hnodup cnt
    exact hget.trans (ih (hget.walk.pending hnodup))

/-- The requests that are queued during a call come to the end of the work list. -/
theorem Walk.foldl_enqueue {subs : List Submission} (hnodup : (subs.map Submission.id).Nodup)
    (hsent : ∀ s ∈ subs, P s) (hfresh : ∀ s ∈ subs, s.id ∉ q.pending)
    (hfew : subs ≠ [] → q.workList.length + subs.length < 2 ^ 32) :
    Walk P conf q (subs.foldl enqueue q) ∧
      (subs.foldl enqueue q).workList = q.workList ++ subs.map Submission.id := by
  induction subs generalizing q with
  | nil => exact ⟨Relation.ReflTransGen.refl, (List.append_nil _).symm⟩
  | cons s subs ih =>
    obtain ⟨hnot, hrest⟩ := List.nodup_cons.mp hnodup
    have hlen := hfew (List.cons_ne_nil s subs)
    rw [List.length_cons] at hlen
    have hlist : (enqueue q s).workList = q.workList ++ [s.id] := rfl
    obtain ⟨hwalk, hwork⟩ := ih (q := enqueue q s) hrest
      (fun t ht => hsent t (List.mem_cons_of_mem s ht)) (by
        intro t ht
        have hpending : (enqueue q s).pending = q.pending ++ [s.id] :=
          (List.append_assoc q.pendList q.workList [s.id]).symm
        rw [hpending, List.mem_append, List.mem_singleton, not_or]
        refine ⟨hfresh t (List.mem_cons_of_mem s ht), ?_⟩
        intro heq
        apply hnot
        rw [← heq]
        exact List.mem_map_of_mem ht) (by
        intro _
        rw [hlist, List.length_append, List.length_singleton]
        omega)
    have hmove : Moves P conf q (enqueue q s) :=
      Moves.queue (hsent s List.mem_cons_self) (hfresh s List.mem_cons_self) (by omega)
    refine ⟨(Relation.ReflTransGen.single hmove).trans hwalk, ?_⟩
    rw [List.foldl_cons, hwork, hlist, List.map_cons, List.append_assoc, List.singleton_append]

theorem Walk.fpBypassDescFill {fill : Descq → ReqId → Fill} (hfill : Queues P fill)
    (hnodup : q.pending.Nodup) {rest : List ReqId} (hwork : q.workList = id :: rest) :
    Walk P conf q (fpBypassDescFill conf fill id q).2 := by
  have hgets := @Completes.getDescs P conf _ id hnodup (fill q id).gets
  have hwork₁ := hgets.work
  have hqueue := @Walk.foldl_enqueue P conf
    (H2c.getDescs conf id (fill q id).gets q).2 _ (hfill.nodup q id) (hfill.sent q id) (by
      intro s hs hmem
      apply hfill.fresh q id s hs
      obtain hpend | hmem := List.mem_append.mp hmem
      · exact List.mem_append_left _ (hgets.pend hpend)
      · rw [hwork₁] at hmem
        exact List.mem_append_right _ hmem) (by
      rw [hwork₁]
      exact hfill.few q id)
  unfold H2c.fpBypassDescFill
  dsimp only
  split
  · exact hgets.walk.trans hqueue.1
  · apply (hgets.walk.trans hqueue.1).tail
    apply Moves.update
    rw [hqueue.2, hwork₁, hwork, List.cons_append]

theorem Walk.issue {rest : List ReqId} (hwork : q.workList = id :: rest) (pieces : List Piece) :
    Walk P conf q (issue conf id pieces q) := by
  have hmove : Moves P conf q (qdmaUpdateRequest q id pieces.length (dataCnt pieces)) :=
    Moves.update hwork pieces.length (dataCnt pieces)
  exact (Relation.ReflTransGen.single hmove).tail (Moves.idle ⟨rfl, rfl, rfl, rfl, rfl⟩)

/-- Which descriptors are stored does not matter. -/
theorem Walk.storeAndIssue {rest : List ReqId} (hwork : q.workList = id :: rest)
    (pieces : List Piece) (mm : ℕ → MmDesc) (st : ℕ → H2cDesc) :
    Walk P conf q (H2c.issue conf id pieces { q with mmDesc := mm, h2cDesc := st }) := by
  have hstore : Walk P conf q { q with mmDesc := mm, h2cDesc := st } :=
    Walk.idle ⟨rfl, rfl, rfl, rfl, rfl⟩
  have hwork₁ : ({ q with mmDesc := mm, h2cDesc := st } : Descq).workList = id :: rest := hwork
  exact hstore.trans (Walk.issue hwork₁ pieces)

/-- A pass is a walk. -/
def Walks (P : Submission → Prop) (conf : QueueConf) (pass : ReqId → Descq → Option ℕ × Descq) :
    Prop :=
  ∀ q id rest, q.pending.Nodup → q.workList = id :: rest → Walk P conf q (pass id q).2

theorem mmPass_walks (hfill : CallbackQueues P conf) : Walks P conf (mmPass conf) := by
  intro q id rest hnodup hwork
  have hpoll := @Completes.pollIfFull P conf _ hnodup
  have hnodup₁ := hpoll.walk.pending hnodup
  have hwork₁ := hpoll.work.trans hwork
  unfold mmPass
  dsimp only
  set q₁ := if q.avail = 0 then descqPollMmNH2cCmplStatus conf q else q
  split
  · exact hpoll.walk
  · cases hext : conf.ulExt with
    | some fill => exact hpoll.walk.trans (Walk.fpBypassDescFill (hfill fill hext) hnodup₁ hwork₁)
    | none =>
      dsimp only
      split
      · exact hpoll.walk.tail (Moves.update hwork₁ 0 0)
      · split
        · exact hpoll.walk
        · exact hpoll.walk.trans (Walk.storeAndIssue hwork₁ _ _ _)

theorem stPass_walks (hfill : CallbackQueues P conf) : Walks P conf (stPass conf) := by
  intro q id rest hnodup hwork
  have hpoll := @Completes.pollIfFull P conf _ hnodup
  have hnodup₁ := hpoll.walk.pending hnodup
  have hwork₁ := hpoll.work.trans hwork
  unfold stPass
  dsimp only
  set q₁ := if q.avail = 0 then descqPollMmNH2cCmplStatus conf q else q
  split
  · exact hpoll.walk
  · cases hext : conf.ulExt with
    | some fill => exact hpoll.walk.trans (Walk.fpBypassDescFill (hfill fill hext) hnodup₁ hwork₁)
    | none =>
      dsimp only
      split
      · exact hpoll.walk.tail (Moves.update hwork₁ 0 0)
      · exact hpoll.walk.trans (Walk.storeAndIssue hwork₁ _ _ _)

/-! ## Calls -/

theorem Walk.passes {pass : ReqId → Descq → Option ℕ × Descq} (hpass : Walks P conf pass)
    (hnodup : q.pending.Nodup) {fuel n : ℕ} {r : ℕ × Descq}
    (hr : passes pass fuel n q = some r) : Walk P conf q r.2 := by
  induction fuel generalizing q n with
  | zero =>
    unfold H2c.passes at hr
    split at hr
    · cases hr
      exact Relation.ReflTransGen.refl
    · cases hr
  | succ fuel ih =>
    unfold H2c.passes at hr
    split at hr
    · cases hr
      exact Relation.ReflTransGen.refl
    · rename_i id rest hwork
      have hwalk := hpass q id rest hnodup hwork
      dsimp only at hr
      split at hr
      · rename_i hres
        cases hr
        rw [hres] at hwalk
        exact hwalk
      · rename_i hres
        rw [hres] at hwalk
        exact hwalk.trans (ih (hwalk.pending hnodup) hr)

theorem Walk.finishRequests (hnodup : q.pending.Nodup) (doorbell : Bool) (n : ℕ) :
    Walk P conf q (finishRequests conf doorbell n q).2 := by
  unfold H2c.finishRequests
  split
  · exact Walk.idle ⟨rfl, rfl, rfl, rfl, rfl⟩
  · dsimp only
    split
    · set q₁ : Descq := { q with
        pendListEmpty := false, pidxInfoPidx := q.pidx, posted := q.pidx } with hq₁
      have hposted : Walk P conf q q₁ := Walk.idle ⟨rfl, rfl, rfl, rfl, rfl⟩
      have hpoll := @Completes.poll P conf q₁ hnodup
      exact (hposted.trans hpoll.walk).tail (Moves.idle ⟨rfl, rfl, rfl, rfl, rfl⟩)
    · exact Walk.idle ⟨rfl, rfl, rfl, rfl, rfl⟩

theorem Walk.procRequest {pass : ReqId → Descq → Option ℕ × Descq} (hpass : Walks P conf pass)
    (hnodup : q.pending.Nodup) {fuel : ℕ} {doorbell : Bool} {r : ℤ × Descq}
    (hr : procRequest conf pass fuel doorbell q = some r) : Walk P conf q r.2 := by
  unfold H2c.procRequest at hr
  split at hr
  · cases hr
    exact (Completes.status hnodup).walk
  · split at hr
    · cases hr
      exact Relation.ReflTransGen.refl
    · split at hr
      · cases hr
        exact Relation.ReflTransGen.refl
      · obtain ⟨w, hw, rfl⟩ := Option.map_eq_some_iff.mp hr
        have hpoll := @Completes.poll P conf _ hnodup
        have hloop := Walk.passes hpass (hpoll.walk.pending hnodup) hw
        have hwalk : Walk P conf q w.2 := hpoll.walk.trans hloop
        exact hwalk.trans (Walk.finishRequests (hwalk.pending hnodup) doorbell w.1)

theorem Walk.qepFill {fill : Descq → ReqId → Fill} (hfill : Queues P fill)
    (hnodup : q.pending.Nodup) {fuel n : ℕ} {r : ℕ × Descq}
    (hr : qepFill conf fill fuel n q = some r) : Walk P conf q r.2 := by
  induction fuel generalizing q n with
  | zero =>
    unfold H2c.qepFill at hr
    split at hr
    · cases hr
      exact Relation.ReflTransGen.refl
    · split at hr
      · cases hr
        exact Relation.ReflTransGen.refl
      · cases hr
  | succ fuel ih =>
    unfold H2c.qepFill at hr
    split at hr
    · cases hr
      exact Relation.ReflTransGen.refl
    · split at hr
      · cases hr
        exact Relation.ReflTransGen.refl
      · rename_i id rest hwork
        have hwalk := @Walk.fpBypassDescFill P conf _ _ _ hfill hnodup _ hwork
        dsimp only at hr
        split at hr
        · cases hr
          exact hwalk
        · split at hr
          · cases hr
            exact hwalk
          · exact hwalk.trans (ih (hwalk.pending hnodup) hr)

theorem Walk.qepRounds {fill : Descq → ReqId → Fill} (hfill : Queues P fill)
    (hnodup : q.pending.Nodup) {fuel : ℕ} {r : Option ℤ × Descq}
    (hr : qepRounds conf fill fuel q = some r) : Walk P conf q r.2 := by
  induction fuel generalizing q with
  | zero => cases hr
  | succ fuel ih =>
    unfold H2c.qepRounds at hr
    split at hr
    · cases hr
    · rename_i written q₁ hfilled
      have hround : Walk P conf q q₁ := Walk.qepFill hfill hnodup hfilled
      split at hr
      · cases hr
        exact hround
      · set q₂ : Descq := { q₁ with
          descPend := (q₁.descPend + written) % 2 ^ 8, pidxInfoPidx := q₁.pidx } with hq₂
        have hupdate : SameLists q₁ (qdmaPidxUpdate conf q₂ false).2 :=
          let h := @sameLists_qdmaPidxUpdate conf q₂ false
          ⟨h.work, h.pend, h.req, h.cb, h.count⟩
        have hwalk : Walk P conf q (qdmaPidxUpdate conf q₂ false).2 :=
          hround.tail (Moves.idle hupdate)
        dsimp only at hr
        split at hr
        · cases hr
          exact hwalk
        · split at hr
          · exact hwalk.trans (ih (hwalk.pending hnodup) hr)
          · cases hr
            exact hwalk

theorem Walk.descqProcStH2cRequestQep {fill : Descq → ReqId → Fill} (hfill : Queues P fill)
    (hnodup : q.pending.Nodup) {fuel : ℕ} {r : ℤ × Descq}
    (hr : descqProcStH2cRequestQep conf fill fuel q = some r) : Walk P conf q r.2 := by
  induction fuel generalizing q r with
  | zero => cases hr
  | succ fuel ih =>
    unfold H2c.descqProcStH2cRequestQep at hr
    split at hr
    · cases hr
      exact (Completes.status hnodup).walk
    · split at hr
      · cases hr
        exact Relation.ReflTransGen.refl
      · split at hr
        · cases hr
        · rename_i hrounds
          cases hr
          exact Walk.qepRounds hfill hnodup hrounds
        · rename_i hrounds
          have hwalk : Walk P conf q _ := Walk.qepRounds hfill hnodup hrounds
          obtain ⟨w, hw, rfl⟩ := Option.map_eq_some_iff.mp hr
          exact hwalk.trans (ih (r := w) (hwalk.pending hnodup) hw)

/-- A processing call is a walk. -/
theorem Walk.process (hfill : CallbackQueues P conf) (hnodup : q.pending.Nodup) {fuel : ℕ}
    {doorbell : Bool} {r : ℤ × Descq}
    (hr : qdmaDescqProcSgtRequest conf fuel doorbell q = some r) : Walk P conf q r.2 := by
  unfold qdmaDescqProcSgtRequest at hr
  split at hr
  · exact Walk.procRequest (mmPass_walks hfill) hnodup hr
  · split at hr
    · split at hr
      · rename_i fill hext
        split at hr
        · exact Walk.descqProcStH2cRequestQep (hfill fill hext) hnodup hr
        · exact Walk.procRequest (stPass_walks hfill) hnodup hr
      · exact Walk.procRequest (stPass_walks hfill) hnodup hr
    · cases hr
      exact Relation.ReflTransGen.refl

/-- So is the service of a completion. -/
theorem Walk.service (hfill : CallbackQueues P conf) (hnodup : q.pending.Nodup) {fuel : ℕ}
    {doorbell : Bool} {r : ℤ × Descq}
    (hr : qdmaDescqServiceCmplUpdate conf fuel doorbell q = some r) : Walk P conf q r.2 := by
  unfold qdmaDescqServiceCmplUpdate at hr
  split at hr
  · split at hr
    · obtain ⟨w, hw, rfl⟩ := Option.map_eq_some_iff.mp hr
      exact Walk.process hfill hnodup (r := w) hw
    · cases hr
      exact Relation.ReflTransGen.refl
  · have hstatus := @Completes.status P conf _ hnodup
    dsimp only at hr
    split at hr
    · exact hstatus.walk.trans (Walk.process hfill (hstatus.walk.pending hnodup) hr)
    · cases hr
      exact hstatus.walk

end

end OnicDriver.H2c
