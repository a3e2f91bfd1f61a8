import OnicDriver.H2c.Tally

/-!
# Rejected packets

A packet comes to the work list before its pages are mapped and the state of the
queue is checked, and it stays there when one of these fails: a later call makes
descriptors for a request whose submission failed. Only a queue of the wrong type
is refused in time.
-/

namespace OnicDriver.H2c

open Lib Queue

/-- `qdma_queue_packet_write`. -/
def qdmaQueuePacketWrite (conf : QueueConf) (sub : Submission) (maps : List (Option ℕ))
    (inp : CallInput) (s : Clients) : ℤ × Clients :=
  let (ret, s) := packetWriteAdd conf sub s
  if ret < 0 then (ret, s) else packetWriteMap conf sub.id maps inp s

/-- A processing call of a later step. -/
def processStep (conf : QueueConf) (q : Descq) : CallInput × Bool → Descq
  | (inp, true) => afterCall (q.scripted inp)
    (qdmaDescqProcSgtRequest conf inp.fuel inp.doorbell (q.scripted inp))
  | (inp, false) => afterCall (q.scripted inp)
    (qdmaDescqServiceCmplUpdate conf inp.fuel inp.doorbell (q.scripted inp))

/-- A call for the request `id` left no trace: the lists, the counters and the indices are as
before, the mappings that it made are undone, and no later processing touches the request unless it
was on a list already. -/
structure NoTrace (conf : QueueConf) (id : ReqId) (q q' : Descq) : Prop where
  work : q'.workList = q.workList
  pend : q'.pendList = q.pendList
  ring : q'.ring = q.ring
  credit : q'.credit = q.credit
  mapped : q'.dma.mapped.Perm q.dma.mapped
  untouched : id ∉ q.pending → ∀ calls : List (CallInput × Bool),
    (run (processStep conf) q' calls).req id = q'.req id ∧
      (run (processStep conf) q' calls).cb id = q'.cb id

/-- The queue refuses the packet at once, or its pages are mapped and the queue is online where
that is checked. -/
def Acceptable (conf : QueueConf) (sub : Submission) (maps : List (Option ℕ)) (s : Clients) :
    Prop :=
  conf.st = false ∨ conf.qType = .c2h ∨
    (sub.req.dmaMapped = true ∨ mapsDone maps (elems sub.req) = true) ∧
      (sub.req.checkQstateDisabled = true ∨ s.q.qState = .online)

section

variable {conf : QueueConf} {q q' : Descq} {s : Clients} {id : ReqId}

/-! ## Requests that are not on a list -/

/-- The request `id` is not on the lists and stays as it is. -/
structure Untouched (id : ReqId) (q q' : Descq) : Prop where
  away : id ∉ q'.pending
  req : q'.req id = q.req id
  cb : q'.cb id = q.cb id

theorem Untouched.moves (h : Moves (fun sub => sub.id ≠ id) conf q q') (hid : id ∉ q.pending) :
    Untouched id q q' := by
  rw [Descq.pending, List.mem_append, not_or] at hid
  obtain ⟨hpend, hwork⟩ := hid
  cases h with
  | idle hsame =>
    refine ⟨?_, congrFun hsame.req id, congrFun hsame.cb id⟩
    rw [hsame.pending, Descq.pending, List.mem_append, not_or]
    exact ⟨hpend, hwork⟩
  | @done j hj =>
    have hne : id ≠ j := (ne_of_mem_of_not_mem hj hpend).symm
    have hends := @qdmaSgtReqDone_ends conf q j 0
    refine ⟨?_, hends.req id hne, hends.cb id hne⟩
    rw [Descq.pending, hends.pend, hends.work, List.mem_append, not_or]
    exact ⟨fun h => hpend (List.mem_of_mem_erase h), fun h => hwork (List.mem_of_mem_erase h)⟩
  | @credited j hj n =>
    have hne : id ≠ j := (ne_of_mem_of_not_mem hj hpend).symm
    refine ⟨?_, rfl, Function.update_of_ne hne _ _⟩
    rw [Descq.pending, List.mem_append, not_or]
    exact ⟨hpend, hwork⟩
  | @update j rest hhead n c =>
    have hne : id ≠ j := by
      rw [hhead] at hwork
      exact fun heq => hwork (heq ▸ List.mem_cons_self)
    unfold qdmaUpdateRequest
    dsimp only
    split
    · refine ⟨?_, rfl, Function.update_of_ne hne _ _⟩
      change id ∉ (q.pendList.erase j ++ [j]) ++ q.workList.erase j
      rw [List.mem_append, List.mem_append, List.mem_singleton, not_or, not_or]
      exact ⟨⟨fun h => hpend (List.mem_of_mem_erase h), hne⟩,
        fun h => hwork (List.mem_of_mem_erase h)⟩
    · refine ⟨?_, rfl, Function.update_of_ne hne _ _⟩
      change id ∉ q.pendList ++ q.workList
      rw [List.mem_append, not_or]
      exact ⟨hpend, hwork⟩
  | @queue sub hsub hnew hlen =>
    have hne : id ≠ sub.id := hsub.symm
    refine ⟨?_, Function.update_of_ne hne _ _, Function.update_of_ne hne _ _⟩
    change id ∉ q.pendList ++ (q.workList ++ [sub.id])
    rw [List.mem_append, List.mem_append, List.mem_singleton, not_or, not_or]
    exact ⟨hpend, hwork, hne⟩

theorem Untouched.walk (h : Walk (fun sub => sub.id ≠ id) conf q q') (hid : id ∉ q.pending) :
    Untouched id q q' := by
  induction h with
  | refl => exact ⟨hid, rfl, rfl⟩
  | tail _ hmove ih =>
    have hstep := Untouched.moves hmove ih.away
    exact ⟨hstep.away, hstep.req.trans ih.req, hstep.cb.trans ih.cb⟩

theorem processStep_walk {P : Submission → Prop} (hfill : CallbackQueues P conf)
    (hnodup : q.pending.Nodup) (call : CallInput × Bool) :
    Walk P conf q (processStep conf q call) := by
  obtain ⟨inp, process⟩ := call
  have hscript : Walk P conf q (q.scripted inp) := Walk.idle ⟨rfl, rfl, rfl, rfl, rfl⟩
  have hnodup₁ : (q.scripted inp).pending.Nodup := hnodup
  unfold processStep
  cases process with
  | true =>
    dsimp only
    cases hcall : qdmaDescqProcSgtRequest conf inp.fuel inp.doorbell (q.scripted inp) with
    | none => exact hscript
    | some r => exact hscript.trans (Walk.process hfill hnodup₁ hcall)
  | false =>
    dsimp only
    cases hcall : qdmaDescqServiceCmplUpdate conf inp.fuel inp.doorbell (q.scripted inp) with
    | none => exact hscript
    | some r => exact hscript.trans (Walk.service hfill hnodup₁ hcall)

/-- No processing touches a request that is not on a list. -/
theorem run_processStep_untouched (hfill : CallbackQueues (fun sub => sub.id ≠ id) conf)
    (hnodup : q.pending.Nodup) (hid : id ∉ q.pending) (calls : List (CallInput × Bool)) :
    Untouched id q (run (processStep conf) q calls) := by
  induction calls generalizing q with
  | nil => exact ⟨hid, rfl, rfl⟩
  | cons call calls ih =>
    have hwalk := processStep_walk hfill hnodup call
    have hstep := Untouched.walk hwalk hid
    have hrest := ih (Walk.pending hwalk hnodup) hstep.away
    exact ⟨hrest.away, hrest.req.trans hstep.req, hrest.cb.trans hstep.cb⟩

/-! ## The call -/

theorem errno_neg : - EIO < 0 := by decide

theorem neg_EINVAL : -EINVAL < 0 := by decide

theorem packetWriteAdd_refused {sub : Submission} (h : conf.st = false ∨ conf.qType = .c2h) :
    packetWriteAdd conf sub s = (-EINVAL, s) := if_pos h

theorem packetWriteAdd_queued {sub : Submission} (h : ¬ (conf.st = false ∨ conf.qType = .c2h)) :
    packetWriteAdd conf sub s =
      (0, { s with q := enqueue s.q sub, writing := s.writing ++ [sub.id] }) := if_neg h

theorem sglMap_fst {maps : List (Option ℕ)} {sgl : List SwSg} (d : Dma) :
    (sglMap maps sgl d).1 = true ↔ mapsDone maps sgl = true := by
  have hiff := @mapPages_fst maps sgl d
  unfold sglMap
  dsimp only
  rw [length_mapPages]
  by_cases hdone : mapsDone maps sgl = true
  · rw [if_pos (hiff.mpr hdone)]
    exact ⟨fun _ => hdone, fun _ => rfl⟩
  · rw [if_neg (fun heq => hdone (hiff.mp heq))]
    exact ⟨fun h => (nomatch h), fun h => absurd h hdone⟩

/-- The pages are mapped exactly when the client did so or no mapping fails. -/
theorem mapForSubmit_fst (maps : List (Option ℕ)) : (mapForSubmit q id maps).1 = true ↔
    (q.req id).dmaMapped = true ∨ mapsDone maps (elems (q.req id)) = true := by
  unfold mapForSubmit
  split
  · rename_i hclient
    exact ⟨fun _ => Or.inl hclient, fun _ => rfl⟩
  · rename_i hclient
    have hfst : (sglMapReq q id maps).1 = true ↔ mapsDone maps (elems (q.req id)) = true :=
      sglMap_fst q.dma
    rw [← hfst]
    generalize sglMapReq q id maps = r
    obtain ⟨ok, q₁⟩ := r
    cases ok with
    | true => exact ⟨fun _ => Or.inr rfl, fun _ => rfl⟩
    | false =>
      refine ⟨fun h => (nomatch h), ?_⟩
      intro h
      obtain h | h := h
      · exact absurd h hclient
      · cases h

/-- Mapping changes nothing of a request but its list. -/
theorem mapForSubmit_field {α : Type} (f : QdmaRequest → α)
    (hf : ∀ req sgl, f (withElems req sgl) = f req) (maps : List (Option ℕ)) :
    f ((mapForSubmit q id maps).2.req id) = f (q.req id) := by
  have hmap : f ((sglMapReq q id maps).2.req id) = f (q.req id) := by
    unfold sglMapReq
    generalize sglMap maps (elems (q.req id)) q.dma = r
    obtain ⟨ok, sgl, dma⟩ := r
    change f (Function.update q.req id _ id) = _
    rw [Function.update_self]
    exact hf _ _
  unfold mapForSubmit
  split
  · rfl
  · generalize sglMapReq q id maps = r at hmap
    obtain ⟨ok, q₁⟩ := r
    cases ok with
    | true => exact hmap
    | false => exact hmap

/-- A packet that is queued and then rejected stays on the work list. -/
theorem packetWriteMap_rejected {maps : List (Option ℕ)} {inp : CallInput}
    (h : ¬ (((s.q.req id).dmaMapped = true ∨ mapsDone maps (elems (s.q.req id)) = true) ∧
      ((s.q.req id).checkQstateDisabled = true ∨ s.q.qState = .online))) :
    (packetWriteMap conf id maps inp s).1 < 0 ∧
      (packetWriteMap conf id maps inp s).2.q.workList = s.q.workList := by
  have honly : OnlyReq id s.q (mapForSubmit s.q id maps).2 := OnlyReq.mapForSubmit maps
  have hfst := @mapForSubmit_fst s.q id maps
  have hcheck := @mapForSubmit_field s.q id _ QdmaRequest.checkQstateDisabled (fun _ _ => rfl) maps
  have hstate := honly.qState
  unfold packetWriteMap
  dsimp only
  generalize mapForSubmit s.q id maps = r at honly hfst hcheck hstate
  obtain ⟨ok, q₁⟩ := r
  dsimp only at honly hfst hcheck hstate ⊢
  have hunmap : (if (q₁.cb id).unmapNeeded = true then sglUnmapReq q₁ id else q₁).workList =
      s.q.workList := by
    split
    · exact honly.work
    · exact honly.work
  split
  · exact ⟨errno_neg, hunmap⟩
  · rename_i hok
    rw [Bool.not_eq_false] at hok
    have hnot := not_and.mp h (hfst.mp hok)
    rw [not_or, Bool.not_eq_true] at hnot
    rw [hcheck, hstate, if_pos hnot]
    exact ⟨neg_EINVAL, hunmap⟩

/-- Otherwise the call returns the number of bytes. -/
theorem packetWriteMap_accepted {maps : List (Option ℕ)} {inp : CallInput}
    (h : ((s.q.req id).dmaMapped = true ∨ mapsDone maps (elems (s.q.req id)) = true) ∧
      ((s.q.req id).checkQstateDisabled = true ∨ s.q.qState = .online)) :
    (packetWriteMap conf id maps inp s).1 = s32 (s.q.req id).count := by
  have honly : OnlyReq id s.q (mapForSubmit s.q id maps).2 := OnlyReq.mapForSubmit maps
  have hfst := (@mapForSubmit_fst s.q id maps).mpr h.1
  have hcheck := @mapForSubmit_field s.q id _ QdmaRequest.checkQstateDisabled (fun _ _ => rfl) maps
  have hsame := @mapForSubmit_field s.q id _ QdmaRequest.count (fun _ _ => rfl) maps
  have hstate := honly.qState
  unfold packetWriteMap
  dsimp only
  generalize mapForSubmit s.q id maps = r at hfst hcheck hsame hstate
  obtain ⟨ok, q₁⟩ := r
  dsimp only at hfst hcheck hsame hstate ⊢
  rw [hfst, if_neg (by decide), hcheck, hstate, if_neg]
  · rw [hsame]
  · rintro ⟨hoff, hnot⟩
    obtain hdis | hon := h.2
    · rw [hdis] at hoff
      cases hoff
    · exact hnot hon

/-- Where the call returns an error, it leaves no trace exactly when the queue refuses the packet at
once or does not reject it. -/
theorem packetWrite_noTrace_iff {sub : Submission} {maps : List (Option ℕ)} {inp : CallInput}
    (hfill : CallbackQueues (fun t => t.id ≠ sub.id) conf) (hnodup : s.q.pending.Nodup)
    (hcount : sub.req.count < 2 ^ 31) :
    ((qdmaQueuePacketWrite conf sub maps inp s).1 < 0 →
      NoTrace conf sub.id s.q (qdmaQueuePacketWrite conf sub maps inp s).2.q) ↔
      Acceptable conf sub maps s := by
  by_cases htype : conf.st = false ∨ conf.qType = .c2h
  · -- the queue refuses the packet
    have hcall : qdmaQueuePacketWrite conf sub maps inp s = (-EINVAL, s) := by
      unfold qdmaQueuePacketWrite
      rw [packetWriteAdd_refused htype]
      exact if_pos (by decide)
    rw [hcall]
    constructor
    · intro _
      obtain hst | hc2h := htype
      · exact Or.inl hst
      · exact Or.inr (Or.inl hc2h)
    · intro _ _
      refine ⟨rfl, rfl, rfl, rfl, List.Perm.refl _, ?_⟩
      intro hid calls
      have hrun := run_processStep_untouched hfill hnodup hid calls
      exact ⟨hrun.req, hrun.cb⟩
  · set s₁ : Clients := { s with q := enqueue s.q sub, writing := s.writing ++ [sub.id] } with hs₁
    have hreq : s₁.q.req sub.id = sub.req := Function.update_self sub.id _ _
    have hcall : qdmaQueuePacketWrite conf sub maps inp s =
        packetWriteMap conf sub.id maps inp s₁ := by
      unfold qdmaQueuePacketWrite
      rw [packetWriteAdd_queued htype]
      exact if_neg (by decide)
    rw [hcall]
    constructor
    · intro h
      by_contra hnot
      have hrejected := @packetWriteMap_rejected conf s₁ sub.id maps inp (by
          rw [hreq]
          intro hok
          apply hnot
          exact Or.inr (Or.inr hok))
      have hwork := (h hrejected.1).work
      rw [hrejected.2] at hwork
      have hlen := congrArg List.length hwork
      change (s.q.workList ++ [sub.id]).length = s.q.workList.length at hlen
      rw [List.length_append, List.length_singleton] at hlen
      omega
    · intro hacc hneg
      have hok : (sub.req.dmaMapped = true ∨ mapsDone maps (elems sub.req) = true) ∧
          (sub.req.checkQstateDisabled = true ∨ s.q.qState = .online) := by
        obtain hst | hc2h | hok := hacc
        · exact absurd (Or.inl hst) htype
        · exact absurd (Or.inr hc2h) htype
        · exact hok
      have hret := @packetWriteMap_accepted conf s₁ sub.id maps inp (by rw [hreq]; exact hok)
      rw [hret, hreq, s32_of_lt (by omega) (by omega)] at hneg
      omega

end

/-- A packet for a queue that is online. -/
theorem packetWrite_noTrace_online :
    ((qdmaQueuePacketWrite mappedConf { id := 1, req := twoPages true } [some 4096, some 8192]
        { fuel := 9 } { q := mappedConf.start }).1 < 0 →
      NoTrace mappedConf 1 mappedConf.start
        (qdmaQueuePacketWrite mappedConf { id := 1, req := twoPages true } [some 4096, some 8192]
          { fuel := 9 } { q := mappedConf.start }).2.q) ↔
      Acceptable mappedConf { id := 1, req := twoPages true } [some 4096, some 8192]
        { q := mappedConf.start } :=
  packetWrite_noTrace_iff (CallbackQueues.of_none rfl) List.nodup_nil (by decide)

/-- A packet for a queue that was stopped is on its work list after the error. -/
theorem rejectedPacket_queued :
    ¬ ((qdmaQueuePacketWrite mappedConf { id := 1, req := twoPages true } [some 4096, some 8192]
        { fuel := 9 } { q := { mappedConf.start with qState := .enabled } }).1 < 0 →
      NoTrace mappedConf 1 { mappedConf.start with qState := .enabled }
        (qdmaQueuePacketWrite mappedConf { id := 1, req := twoPages true } [some 4096, some 8192]
          { fuel := 9 } { q := { mappedConf.start with qState := .enabled } }).2.q) := by
  intro h
  have hwork := (h (by decide)).work
  revert hwork
  decide

end OnicDriver.H2c
