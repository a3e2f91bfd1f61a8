import OnicDriver.H2c.Mapped

/-!
# The counter of the work list

The counter of pending requests and the work list change together, but for three
steps: a batch that is accepted comes to the list without being counted, a caller
whose time is over takes its request off the list without counting it, and a start
clears the counter and not the list. The counter is the length of the list in all
states of a run exactly when the run has none of these steps.
-/

namespace OnicDriver.H2c

open Lib Queue

/-- The counter is the length of the work list. -/
def Counted (s : Clients) : Prop := s.q.workReqPend = s.q.workList.length

/-- Between the length of the work list and the 32-bit counter is a difference of `d`. -/
structure Tallied (d : ℤ) (q : Descq) : Prop where
  nodup : q.pending.Nodup
  slack : ((q.workList.length : ℤ) - q.workReqPend) % 2 ^ 32 = d
  length_lt : q.workList.length < 2 ^ 32
  count_lt : q.workReqPend < 2 ^ 32

/-- The requests that are submitted are not on a list of the queue, and there are fewer than 2^32 of
them. -/
def TallyOk (s : Clients) : ClientEvent → Prop
  | .requestSubmit id _ _ _ => id ∉ s.q.pending ∧ s.q.workList.length + 1 < 2 ^ 32
  | .batchSubmit first rest _ =>
    ((first :: rest).map BatchItem.id).Nodup ∧ (∀ item ∈ first :: rest, item.id ∉ s.q.pending) ∧
      s.q.workList.length + (first :: rest).length < 2 ^ 32
  | .packetAdd sub => sub.id ∉ s.q.pending ∧ s.q.workList.length + 1 < 2 ^ 32
  | _ => True

instance (s : Clients) (e : ClientEvent) : Decidable (TallyOk s e) :=
  match e with
  | .requestSubmit .. => inferInstanceAs (Decidable (_ ∧ _))
  | .batchSubmit .. => inferInstanceAs (Decidable (_ ∧ _ ∧ _))
  | .packetAdd _ => inferInstanceAs (Decidable (_ ∧ _))
  | .packetMap .. | .waited _ | .process _ | .service _ | .stopBegin | .stopEnd | .start _ =>
    inferInstanceAs (Decidable True)

/-- No batch is accepted, no caller gives up on a request of the work list, and no queue is started
with requests on that list. -/
def TallyGood (conf : QueueConf) (s : Clients) : ClientEvent → Prop
  | .batchSubmit first _ _ =>
    conf.qType = .cmpt ∨ badDirection conf first.req ∨ first.req.fpDone = false ∨
      s.q.qState ≠ .online
  | .waited id => (s.q.cb id).done = true ∨ id ∉ s.q.workList
  | .start _ => s.q.qState = .enabled → s.q.workList = []
  | _ => True

instance (conf : QueueConf) (s : Clients) (e : ClientEvent) : Decidable (TallyGood conf s e) :=
  match e with
  | .batchSubmit .. => inferInstanceAs (Decidable (_ ∨ _))
  | .waited _ => inferInstanceAs (Decidable (_ ∨ _))
  | .start _ => inferInstanceAs (Decidable (_ → _))
  | .requestSubmit .. | .packetAdd _ | .packetMap .. | .process _ | .service _ | .stopBegin
  | .stopEnd => inferInstanceAs (Decidable True)

section

variable {P : Submission → Prop} {conf : QueueConf} {q q' : Descq} {s : Clients} {id : ReqId}
  {d : ℤ}

/-! ## Moves -/

theorem Tallied.counted (h : Tallied 0 s.q) : Counted s := by
  have hslack := h.slack
  have hlen := h.length_lt
  have hcount := h.count_lt
  unfold Counted
  omega

theorem Tallied.not_counted (h : Tallied d s.q) (hd : d ≠ 0) : ¬ Counted s := by
  intro heq
  apply hd
  unfold Counted at heq
  rw [← h.slack, heq, sub_self, Int.zero_emod]

/-- Only the lists and the counter matter. -/
theorem Tallied.congr (h : Tallied d q) (hwork : q'.workList = q.workList)
    (hpend : q'.pendList = q.pendList) (hcount : q'.workReqPend = q.workReqPend) :
    Tallied d q' := by
  constructor
  · rw [Descq.pending, hpend, hwork]
    exact h.nodup
  · rw [hwork, hcount]
    exact h.slack
  · rw [hwork]
    exact h.length_lt
  · rw [hcount]
    exact h.count_lt

theorem Tallied.onlyReq (h : Tallied d q) (honly : OnlyReq id q q') : Tallied d q' :=
  h.congr honly.work honly.pend (congrArg RingView.workReqPend honly.ring)

/-- A request comes to the end of the work list. -/
theorem Tallied.append (h : Tallied d q) (hnew : id ∉ q.pending)
    (hlen : q.workList.length + 1 < 2 ^ 32) {n : ℕ} (hn : n < 2 ^ 32) :
    Tallied ((d + q.workReqPend + 1 - n) % 2 ^ 32)
      { q with workList := q.workList ++ [id], workReqPend := n } := by
  have hslack := h.slack
  constructor
  · change (q.pendList ++ (q.workList ++ [id])).Nodup
    rw [← List.append_assoc, List.nodup_append]
    refine ⟨h.nodup, List.nodup_singleton _, ?_⟩
    intro a ha b hb
    rw [List.mem_singleton] at hb
    rw [hb]
    exact ne_of_mem_of_not_mem ha hnew
  · change (((q.workList ++ [id]).length : ℤ) - n) % 2 ^ 32 = _
    rw [List.length_append, List.length_singleton]
    omega
  · change (q.workList ++ [id]).length < 2 ^ 32
    rw [List.length_append, List.length_singleton]
    exact hlen
  · exact hn

theorem Tallied.qdmaWorkQueueAdd (h : Tallied d q) (hnew : id ∉ q.pending)
    (hlen : q.workList.length + 1 < 2 ^ 32) : Tallied d (qdmaWorkQueueAdd q id) := by
  have hadd := h.append hnew hlen (u32_lt (q.workReqPend + 1))
  have hslack := h.slack
  have hcount := h.count_lt
  have hsame : (d + q.workReqPend + 1 - u32 (q.workReqPend + 1)) % 2 ^ 32 = d := by
    unfold u32
    omega
  rw [hsame] at hadd
  exact hadd

/-- A request leaves the work list. -/
theorem Tallied.erase (h : Tallied d q) (hid : id ∈ q.workList) {pend : List ReqId}
    (hpend : (pend ++ q.workList.erase id).Nodup) {n : ℕ} (hn : n < 2 ^ 32)
    (hq' : q'.pendList = pend)
    (hwork : q'.workList = q.workList.erase id) (hcount : q'.workReqPend = n) :
    Tallied ((d + q.workReqPend - 1 - n) % 2 ^ 32) q' := by
  have hslack := h.slack
  have hlen := h.length_lt
  have herase := List.length_erase_of_mem hid
  have hpos := List.length_pos_of_mem hid
  constructor
  · rw [Descq.pending, hq', hwork]
    exact hpend
  · rw [hwork, hcount]
    omega
  · rw [hwork]
    omega
  · rw [hcount]
    exact hn

theorem Tallied.moves (h : Tallied d q) (hmove : Moves P conf q q') : Tallied d q' := by
  have hnodup := hmove.pending h.nodup
  have hslack := h.slack
  have hcount := h.count_lt
  cases hmove with
  | idle hsame => exact h.congr hsame.work hsame.pend hsame.count
  | @done id hid =>
    have hapart : id ∉ q.workList :=
      fun hwork => (List.nodup_append.mp h.nodup).2.2 id hid id hwork rfl
    have hwork : (qdmaSgtReqDone conf q id 0).workList = q.workList := by
      rw [workList_qdmaSgtReqDone, List.erase_of_not_mem hapart]
    have hpend : (qdmaSgtReqDone conf q id 0).workReqPend = q.workReqPend :=
      congrArg RingView.workReqPend (@ring_qdmaSgtReqDone conf q id 0)
    constructor
    · exact hnodup
    · rw [hwork, hpend]
      exact hslack
    · rw [hwork]
      exact h.length_lt
    · rw [hpend]
      exact hcount
  | credited hid n => exact h.congr rfl rfl rfl
  | @update id rest hwork n c =>
    have hid : id ∈ q.workList := by
      rw [hwork]
      exact List.mem_cons_self
    revert hnodup
    unfold qdmaUpdateRequest
    dsimp only
    split
    · intro hnodup
      have herase := h.erase hid hnodup (u32_lt (q.workReqPend - 1)) rfl rfl rfl
      have hsame : (d + q.workReqPend - 1 - u32 (q.workReqPend - 1)) % 2 ^ 32 = d := by
        unfold u32
        omega
      rw [hsame] at herase
      exact herase
    · intro _
      exact h.congr rfl rfl rfl
  | @queue sub hp hnew hlen =>
    have hset : OnlyReq sub.id q ((q.setReq sub.id sub.req).setCb sub.id sub.cb) :=
      OnlyReq.fresh sub.req sub.cb
    exact (h.onlyReq hset).qdmaWorkQueueAdd hnew hlen

theorem Tallied.walk (h : Tallied d q) (hwalk : Walk P conf q q') : Tallied d q' := by
  induction hwalk with
  | refl => exact h
  | tail _ hmove ih => exact ih.moves hmove

theorem Tallied.process (hfill : CallbackQueues P conf) (h : Tallied d q) (inp : CallInput) :
    Tallied d (afterCall (q.scripted inp)
      (qdmaDescqProcSgtRequest conf inp.fuel inp.doorbell (q.scripted inp))) := by
  have hscript : Tallied d (q.scripted inp) := h.congr rfl rfl rfl
  cases hcall : qdmaDescqProcSgtRequest conf inp.fuel inp.doorbell (q.scripted inp) with
  | none => exact hscript
  | some r => exact hscript.walk (Walk.process hfill hscript.nodup hcall)

theorem Tallied.service (hfill : CallbackQueues P conf) (h : Tallied d q) (inp : CallInput) :
    Tallied d (afterCall (q.scripted inp)
      (qdmaDescqServiceCmplUpdate conf inp.fuel inp.doorbell (q.scripted inp))) := by
  have hscript : Tallied d (q.scripted inp) := h.congr rfl rfl rfl
  cases hcall : qdmaDescqServiceCmplUpdate conf inp.fuel inp.doorbell (q.scripted inp) with
  | none => exact hscript
  | some r => exact hscript.walk (Walk.service hfill hscript.nodup hcall)

/-! ## Submissions -/

theorem OnlyReq.mapForSubmit (maps : List (Option ℕ)) :
    OnlyReq id q (mapForSubmit q id maps).2 := by
  have hmap : OnlyReq id q (H2c.sglMapReq q id maps).2 := OnlyReq.sglMapReq maps
  unfold H2c.mapForSubmit
  split
  · exact OnlyReq.refl id q
  · dsimp only
    split
    · exact hmap.trans (OnlyReq.setCb _)
    · exact hmap

theorem OnlyReq.sglUnmapReq : OnlyReq id q (sglUnmapReq q id) :=
  ⟨rfl, rfl, rfl, rfl, fun _ _ => rfl, fun _ hj => Function.update_of_ne hj _ _⟩

theorem OnlyReq.unmapSgl : OnlyReq id q (unmapSgl q id) := by
  unfold H2c.unmapSgl
  split
  · exact OnlyReq.refl id q
  · exact OnlyReq.sglUnmapReq

theorem Tallied.requestSubmit (hfill : CallbackQueues P conf) (h : Tallied d s.q)
    {req : QdmaRequest} {maps : List (Option ℕ)} (hnew : id ∉ s.q.pending)
    (hlen : s.q.workList.length + 1 < 2 ^ 32) (inp : CallInput) :
    Tallied d (qdmaRequestSubmit conf id req maps inp s).2.q := by
  have hfresh : OnlyReq id s.q ((s.q.setReq id req).setCb id {}) := OnlyReq.fresh req {}
  unfold qdmaRequestSubmit
  dsimp only
  split
  · exact h.onlyReq (OnlyReq.setReq req)
  · set q₀ := (s.q.setReq id req).setCb id {} with hq₀
    have honly : OnlyReq id s.q (H2c.mapForSubmit q₀ id maps).2 :=
      hfresh.trans (OnlyReq.mapForSubmit maps)
    generalize H2c.mapForSubmit q₀ id maps = r at honly
    obtain ⟨ok, q₁⟩ := r
    dsimp only at honly ⊢
    split
    · exact h.onlyReq (honly.trans OnlyReq.unmapSgl)
    · split
      · exact h.onlyReq (honly.trans OnlyReq.unmapSgl)
      · have hnew₁ : id ∉ q₁.pending := honly.pending ▸ hnew
        have hlen₁ : q₁.workList.length + 1 < 2 ^ 32 := honly.work ▸ hlen
        exact ((h.onlyReq honly).qdmaWorkQueueAdd hnew₁ hlen₁).process hfill inp

theorem Tallied.foldl_batchMap (h : Tallied d q) (items : List BatchItem) :
    Tallied d (items.foldl batchMap q) := by
  induction items generalizing q with
  | nil => exact h
  | cons a items ih => exact ih (h.onlyReq (OnlyReq.batchMap a))

theorem pending_foldl_batchMap (items : List BatchItem) :
    (items.foldl batchMap q).pending = q.pending ∧
      (items.foldl batchMap q).workList = q.workList := by
  induction items generalizing q with
  | nil => exact ⟨rfl, rfl⟩
  | cons a items ih =>
    have honly : OnlyReq a.id q (batchMap q a) := OnlyReq.batchMap a
    obtain ⟨hpend, hwork⟩ := ih (q := batchMap q a)
    exact ⟨hpend.trans honly.pending, hwork.trans honly.work⟩

/-- The requests of a batch are not counted. -/
theorem Tallied.foldl_batchAdd {items : List BatchItem} (h : Tallied d q)
    (hnodup : (items.map BatchItem.id).Nodup) (hnew : ∀ item ∈ items, item.id ∉ q.pending)
    (hlen : q.workList.length + items.length < 2 ^ 32) :
    Tallied ((d + items.length) % 2 ^ 32) (items.foldl batchAdd q) := by
  induction items generalizing q d with
  | nil =>
    have hslack := h.slack
    have hsame : (d + ([] : List BatchItem).length) % 2 ^ 32 = d := by
      rw [List.length_nil]
      omega
    rw [hsame]
    exact h
  | cons a items ih =>
    obtain ⟨hnot, hrest⟩ := List.nodup_cons.mp hnodup
    rw [List.length_cons] at hlen ⊢
    have hadd := h.append (hnew a List.mem_cons_self) (by omega) h.count_lt
    have hall := ih (q := batchAdd q a) hadd hrest (by
      intro item hitem
      have hpending : (batchAdd q a).pending = q.pending ++ [a.id] :=
        (List.append_assoc q.pendList q.workList [a.id]).symm
      rw [hpending, List.mem_append, List.mem_singleton, not_or]
      refine ⟨hnew item (List.mem_cons_of_mem a hitem), ?_⟩
      intro heq
      apply hnot
      rw [← heq]
      exact List.mem_map_of_mem hitem) (by
      change (q.workList ++ [a.id]).length + items.length < 2 ^ 32
      rw [List.length_append, List.length_singleton]
      omega)
    have hsame : ((d + q.workReqPend + 1 - q.workReqPend) % 2 ^ 32 + items.length) % 2 ^ 32 =
        (d + (items.length + 1 : ℕ)) % 2 ^ 32 := by
      push_cast
      omega
    rw [hsame] at hall
    exact hall

/-! ## Stop -/

/-- The end of a stop keeps what each request on the list keeps. -/
theorem foldl_stopRequest_invariant {del : Descq → ReqId → Descq} {ids : List ReqId}
    {I : List ReqId → Descq → Prop}
    (hstep : ∀ id ids q, I (id :: ids) q → I ids (stopRequest del q id)) (h : I ids q) :
    I [] (ids.foldl (stopRequest del) q) := by
  induction ids generalizing q with
  | nil => exact h
  | cons id ids ih => exact ih (hstep id ids q h)

theorem Tallied.stopPend (h : Tallied d q) :
    Tallied d (q.pendList.foldl (stopRequest Descq.listDel) q) := by
  have hstart : Tallied d q ∧ ∀ id ∈ q.pendList, id ∉ q.workList :=
    ⟨h, fun id hid hwork => (List.nodup_append.mp h.nodup).2.2 id hid id hwork rfl⟩
  refine (foldl_stopRequest_invariant (I := fun ids q => Tallied d q ∧ ∀ id ∈ ids, id ∉ q.workList)
    ?_ hstart).1
  rintro id ids q ⟨h, hapart⟩
  have hnot := hapart id List.mem_cons_self
  have hrest := fun j hj => hapart j (List.mem_cons_of_mem id hj)
  unfold stopRequest
  dsimp only
  split
  · have hwork : q.workList.erase id = q.workList := List.erase_of_not_mem hnot
    have hnodup : (q.pendList.erase id ++ q.workList.erase id).Nodup :=
      h.nodup.sublist (List.erase_sublist.append List.erase_sublist)
    refine ⟨⟨hnodup, ?_, ?_, h.count_lt⟩, ?_⟩
    · change (((q.workList.erase id).length : ℤ) - q.workReqPend) % 2 ^ 32 = d
      rw [hwork]
      exact h.slack
    · change (q.workList.erase id).length < 2 ^ 32
      rw [hwork]
      exact h.length_lt
    · intro j hj
      change j ∉ q.workList.erase id
      rw [hwork]
      exact hrest j hj
  · exact ⟨h.congr rfl rfl rfl, hrest⟩

theorem Tallied.stopWork (h : Tallied d q) :
    Tallied d (q.workList.foldl (stopRequest H2c.qdmaWorkQueueDel) q) := by
  have hstart : Tallied d q ∧ q.workList.Nodup ∧ ∀ id ∈ q.workList, id ∈ q.workList :=
    ⟨h, (List.nodup_append.mp h.nodup).2.1, fun _ hid => hid⟩
  refine (foldl_stopRequest_invariant
    (I := fun ids q => Tallied d q ∧ ids.Nodup ∧ ∀ id ∈ ids, id ∈ q.workList) ?_ hstart).1
  rintro id ids q ⟨h, hids, hsub⟩
  obtain ⟨hnot, hnodup⟩ := List.nodup_cons.mp hids
  have hid := hsub id List.mem_cons_self
  have hrest := fun j hj => hsub j (List.mem_cons_of_mem id hj)
  have hslack := h.slack
  have hcount := h.count_lt
  unfold stopRequest
  dsimp only
  split
  · have hpend : (q.pendList.erase id ++ q.workList.erase id).Nodup :=
      h.nodup.sublist (List.erase_sublist.append List.erase_sublist)
    have herase := @Tallied.erase _ { H2c.qdmaWorkQueueDel
        (q.setCb id { q.cb id with done := true, status := - ENXIO }) id with
          completions := q.completions ++ [Completion.fpDone id 0 (- ENXIO)] } _ _ h hid _ hpend _
      (u32_lt (q.workReqPend - 1)) rfl rfl rfl
    have hsame : (d + q.workReqPend - 1 - u32 (q.workReqPend - 1)) % 2 ^ 32 = d := by
      unfold u32
      omega
    rw [hsame] at herase
    refine ⟨herase, hnodup, ?_⟩
    intro j hj
    exact (List.mem_erase_of_ne (ne_of_mem_of_not_mem hj hnot)).mpr (hrest j hj)
  · exact ⟨h.congr rfl rfl rfl, hnodup, hrest⟩

theorem Tallied.stopEnd (h : Tallied d q) : Tallied d (qdmaQueueStopEnd q) := by
  have hset : Tallied d { q with qState := .enabled, qStopWait := false } := h.congr rfl rfl rfl
  exact hset.stopPend.stopWork

/-! ## Runs -/

theorem Tallied.step (hfill : CallbackQueues P conf) (h : Tallied 0 s.q) {e : ClientEvent}
    (hok : TallyOk s e) (hgood : TallyGood conf s e) : Tallied 0 (clientStep conf s e).q := by
  cases e with
  | requestSubmit id req maps inp => exact h.requestSubmit hfill hok.1 hok.2 inp
  | batchSubmit first rest inp =>
    change Tallied 0 (qdmaBatchRequestSubmit conf first rest inp s.q).2
    unfold qdmaBatchRequestSubmit
    split
    · exact h
    · rename_i haccepted
      rw [not_or, not_or] at haccepted
      obtain hcmpt | hdir | hfp | hoff := hgood
      · exact absurd hcmpt haccepted.1
      · exact absurd hdir haccepted.2.1
      · exact absurd hfp haccepted.2.2
      · dsimp only
        rw [qState_foldl_batchMap, if_pos hoff]
        exact h.foldl_batchMap (first :: rest)
  | packetAdd sub =>
    change Tallied 0 (packetWriteAdd conf sub s).2.q
    unfold packetWriteAdd
    split
    · exact h
    · have hset : OnlyReq sub.id s.q ((s.q.setReq sub.id sub.req).setCb sub.id sub.cb) :=
        OnlyReq.fresh sub.req sub.cb
      exact (h.onlyReq hset).qdmaWorkQueueAdd hok.1 hok.2
  | packetMap id maps inp =>
    have honly : OnlyReq id s.q (mapForSubmit s.q id maps).2 := OnlyReq.mapForSubmit maps
    have hmapped := h.onlyReq honly
    have hunmapped := h.onlyReq (honly.trans OnlyReq.sglUnmapReq)
    change Tallied 0 (packetWriteMap conf id maps inp s).2.q
    unfold packetWriteMap
    dsimp only
    split
    · dsimp only
      split
      · exact hunmapped
      · exact hmapped
    · split
      · dsimp only
        split
        · exact hunmapped
        · exact hmapped
      · exact hmapped.process hfill inp
  | waited id =>
    change Tallied 0 (qdmaRequestWaitForCmpl id s).2.q
    unfold qdmaRequestWaitForCmpl
    dsimp only
    split
    · rename_i hnot
      obtain hdone | hapart := hgood
      · rw [hdone] at hnot
        cases hnot
      · have hnodup : (s.q.pendList.erase id ++ s.q.workList.erase id).Nodup :=
          h.nodup.sublist (List.erase_sublist.append List.erase_sublist)
        have hwork : (s.q.listDel id).workList = s.q.workList := List.erase_of_not_mem hapart
        have hdel : Tallied 0 (s.q.listDel id) := by
          refine ⟨hnodup, ?_, ?_, h.count_lt⟩
          · rw [hwork]
            exact h.slack
          · rw [hwork]
            exact h.length_lt
        exact hdel.onlyReq OnlyReq.unmapSgl
    · split
      · exact h.onlyReq OnlyReq.unmapSgl
      · exact h
  | process inp => exact h.process hfill inp
  | service inp => exact h.service hfill inp
  | stopBegin =>
    change Tallied 0 (qdmaQueueStopBegin s.q).2
    unfold qdmaQueueStopBegin
    split
    · exact h
    · exact h.congr rfl rfl rfl
  | stopEnd => exact h.stopEnd
  | start ok =>
    change Tallied 0 (qdmaQueueStart conf ok s.q).2
    unfold qdmaQueueStart
    split
    · exact h
    · rename_i henabled
      have hnil : s.q.workList = [] := hgood (not_not.mp henabled)
      have hset : ∀ q' : Descq, q'.workList = s.q.workList → q'.pendList = s.q.pendList →
          q'.workReqPend = 0 → Tallied 0 q' := by
        intro q' hwork hpend hcount
        constructor
        · rw [Descq.pending, hwork, hpend]
          exact h.nodup
        · rw [hwork, hcount, hnil]
          rfl
        · rw [hwork]
          exact h.length_lt
        · rw [hcount]
          exact Nat.two_pow_pos 32
      split
      · exact hset _ rfl rfl rfl
      · exact hset _ rfl rfl rfl

/-- A step that is not good leaves a counter that is not the length of the list. -/
theorem Tallied.bad_step (hfill : CallbackQueues P conf) (h : Tallied 0 s.q) {e : ClientEvent}
    (hok : TallyOk s e) (hbad : ¬ TallyGood conf s e) : ¬ Counted (clientStep conf s e) := by
  cases e with
  | batchSubmit first rest inp =>
    obtain ⟨hnodup, hnew, hlen⟩ := hok
    have hbad' : ¬ (conf.qType = .cmpt ∨ badDirection conf first.req ∨ first.req.fpDone = false ∨
      s.q.qState ≠ .online) := hbad
    rw [not_or, not_or, not_or, not_not] at hbad'
    obtain ⟨hcmpt, hdir, hfp, honline⟩ := hbad'
    obtain ⟨hpending, hwork⟩ := pending_foldl_batchMap (q := s.q) (first :: rest)
    have hmapped := h.foldl_batchMap (first :: rest)
    have hadded := hmapped.foldl_batchAdd hnodup (by rw [hpending]; exact hnew)
      (by rw [hwork]; exact hlen)
    have hcall := hadded.process hfill inp
    have hsame : (clientStep conf s (.batchSubmit first rest inp)).q =
        (qdmaBatchRequestSubmit conf first rest inp s.q).2 := rfl
    have hrun : (qdmaBatchRequestSubmit conf first rest inp s.q).2 =
        afterCall
          (((first :: rest).foldl batchAdd ((first :: rest).foldl batchMap s.q)).scripted inp)
          (qdmaDescqProcSgtRequest conf inp.fuel inp.doorbell
            (((first :: rest).foldl batchAdd
              ((first :: rest).foldl batchMap s.q)).scripted inp)) := by
      unfold qdmaBatchRequestSubmit
      rw [if_neg (by rw [not_or, not_or]; exact ⟨hcmpt, hdir, hfp⟩)]
      dsimp only
      rw [qState_foldl_batchMap, if_neg (not_not.mpr honline)]
    rw [← hrun, ← hsame] at hcall
    apply hcall.not_counted
    rw [List.length_cons] at hlen ⊢
    omega
  | waited id =>
    have hbad' : ¬ ((s.q.cb id).done = true ∨ id ∉ s.q.workList) := hbad
    rw [not_or, not_not, Bool.not_eq_true] at hbad'
    obtain ⟨hnot, hid⟩ := hbad'
    have honly : OnlyReq id (s.q.listDel id) (unmapSgl (s.q.listDel id) id) := OnlyReq.unmapSgl
    have hlen := List.length_erase_of_mem hid
    have hpos := List.length_pos_of_mem hid
    have hcount : s.q.workReqPend = s.q.workList.length := h.counted
    have hstep : (clientStep conf s (.waited id)).q = unmapSgl (s.q.listDel id) id := by
      change (qdmaRequestWaitForCmpl id s).2.q = _
      unfold qdmaRequestWaitForCmpl
      dsimp only
      rw [if_pos hnot]
    unfold Counted
    rw [hstep, honly.work]
    have hreq : (unmapSgl (s.q.listDel id) id).workReqPend = s.q.workReqPend :=
      congrArg RingView.workReqPend honly.ring
    rw [hreq]
    change ¬ s.q.workReqPend = (s.q.workList.erase id).length
    omega
  | start ok =>
    have hbad' : ¬ (s.q.qState = .enabled → s.q.workList = []) := hbad
    obtain ⟨henabled, hne⟩ := Classical.not_imp.mp hbad'
    have hpos := List.length_pos_iff.mpr hne
    have hstep : (clientStep conf s (.start ok)).q.workReqPend = 0 ∧
        (clientStep conf s (.start ok)).q.workList = s.q.workList := by
      change (qdmaQueueStart conf ok s.q).2.workReqPend = 0 ∧
        (qdmaQueueStart conf ok s.q).2.workList = s.q.workList
      unfold qdmaQueueStart
      rw [if_neg (not_not.mpr henabled)]
      cases ok with
      | true => exact ⟨rfl, rfl⟩
      | false => exact ⟨rfl, rfl⟩
    unfold Counted
    rw [hstep.1, hstep.2]
    omega
  | requestSubmit id req maps inp => exact absurd trivial hbad
  | packetAdd sub => exact absurd trivial hbad
  | packetMap id maps inp => exact absurd trivial hbad
  | process inp => exact absurd trivial hbad
  | service inp => exact absurd trivial hbad
  | stopBegin => exact absurd trivial hbad
  | stopEnd => exact absurd trivial hbad

theorem Tallied.initial (conf : QueueConf) : Tallied 0 conf.start :=
  ⟨List.nodup_nil, rfl, Nat.two_pow_pos 32, Nat.two_pow_pos 32⟩

/-- The counter is the length of the work list throughout a run exactly when the run accepts no
batch, no caller gives up on a request of the work list, and no queue is started with requests on
that list. -/
theorem clientRun_counted (hfill : CallbackQueues (fun _ => True) conf) {es : List ClientEvent}
    (hok : Admitted (clientStep conf) TallyOk { q := conf.start } es) :
    Always (clientStep conf) Counted { q := conf.start } es ↔
      Admitted (clientStep conf) (TallyGood conf) { q := conf.start } es := by
  apply Admitted.always_iff (I := fun s => Tallied 0 s.q)
  · exact fun s h => h.counted
  · exact fun s e h hok hgood => h.step hfill hok hgood
  · exact fun s e h hok hbad => h.bad_step hfill hok hbad
  · exact Tallied.initial conf
  · exact hok

end

theorem CallbackQueues.of_none {P : Submission → Prop} {conf : QueueConf} (h : conf.ulExt = none) :
    CallbackQueues P conf := by
  intro fill hfill
  rw [h] at hfill
  cases hfill

/-- A request with a waiter and a packet that are completed, and a restart. -/
def countedRun : List ClientEvent :=
  [.requestSubmit 1 (twoPages false) [some 4096, some 8192] { fuel := 9 },
    .packetAdd { id := 2, req := twoPages true },
    .packetMap 2 [some 12288, some 16384] { fuel := 9 },
    .service { fuel := 9, advances := [4] }, .waited 1, .stopBegin, .stopEnd, .start true]

theorem countedRun_counted :
    Always (clientStep mappedConf) Counted { q := mappedConf.start } countedRun ↔
      Admitted (clientStep mappedConf) (TallyGood mappedConf) { q := mappedConf.start }
        countedRun :=
  clientRun_counted (CallbackQueues.of_none rfl) (by decide +kernel)

/-- A request of a batch leaves the work list with a counter of 0, which becomes 2^32 - 1. -/
theorem batch_not_counted :
    ¬ Always (clientStep mappedConf) Counted { q := mappedConf.start }
      [.batchSubmit { id := 1, req := twoPages true, maps := [some 4096, some 8192] } []
        { fuel := 9 }] := by
  intro h
  have hlast := h.final
  revert hlast
  unfold Counted
  decide +kernel

end OnicDriver.H2c
