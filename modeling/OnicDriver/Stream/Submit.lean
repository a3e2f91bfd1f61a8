import OnicDriver.Stream.Requests

/-!
# Submitting and giving up reads

Between two calls everything that was read up is recycled. Submitting a read
and giving up a wait move bytes, and lose none.
-/

namespace OnicDriver.Stream

open Lib C2h
open Netdev (readMem readMem_add readMem_length)

/-- The queue between two calls: `total` are the bytes of the packets processed so far. -/
structure QueueAt (flqConf : FlqConf) (conf : C2hConf) (env : PageEnv) (dst : ℕ → ℕ)
    (mem : ℕ → UInt8) (r p : ℕ) (total : List UInt8) (s : StreamQueue) : Prop where
  ring : RingAt flqConf conf env dst r r p s.q.rx
  pend : s.q.rx.flq.pidxPend = r % flqConf.size
  pidx : s.q.pidx = p % flqConf.size
  requests : Queued s.pendList
  right : ∀ rd ∈ s.reads, rd.Right ↔ rd.Kept
  inOrder : (s.reads.map Read.req ++ s.pendList).flatMap Request.got ++ unread env mem s.q = total
  drained : s.pendList ≠ [] → unread env mem s.q = []

/-- What the hardware and completion processing look at is the same: the cursors of the
completion ring, and the descriptors from number `p` on. -/
structure SameAhead (size r p : ℕ) (q q' : C2hQueue) : Prop where
  later : SameLater size r p q q'
  cidxCmpt : q'.cidxCmpt = q.cidxCmpt
  descCmptCur : q'.descCmptCur = q.descCmptCur
  color : q'.color = q.color
  err : q'.err = q.err

theorem SameAhead.refl (size r p : ℕ) (q : C2hQueue) : SameAhead size r p q q :=
  ⟨SameLater.refl _ _ _ _, rfl, rfl, rfl, rfl⟩

theorem OnlyRing.sameAhead {size r p : ℕ} {q q' : C2hQueue} (h : OnlyRing q q')
    (hlater : SameLater size r p q q') : SameAhead size r p q q' := by
  unfold OnlyRing at h
  exact ⟨hlater, (congrArg C2hQueue.cidxCmpt h :), (congrArg C2hQueue.descCmptCur h :),
    (congrArg C2hQueue.color h :), (congrArg C2hQueue.err h :)⟩

section

variable {flqConf : FlqConf} {conf : C2hConf} {env : PageEnv} {dst : ℕ → ℕ} {mem : ℕ → UInt8}
  {r p : ℕ} {total : List UInt8} {s : StreamQueue}

/-- Bytes that a read takes from what is unread go behind those of the reads before it. -/
theorem QueueAt.taken (h : QueueAt flqConf conf env dst mem r p total s) {more : List UInt8}
    {q' : C2hQueue} (hunread : unread env mem s.q = more ++ unread env mem q') :
    (s.reads.map Read.req).flatMap Request.got ++ more ++ s.pendList.flatMap Request.got ++
        unread env mem q' = total ∧
      (s.reads.map Read.req).flatMap Request.got ++ s.pendList.flatMap Request.got ++ more ++
        unread env mem q' = total ∧
      (s.pendList ≠ [] → more = [] ∧ unread env mem q' = []) := by
  have hinOrder := h.inOrder
  rw [hunread, List.flatMap_append] at hinOrder
  have hempty : s.pendList ≠ [] → more = [] ∧ unread env mem q' = [] := by
    intro hne
    have hnone := h.drained hne
    rw [hunread] at hnone
    exact List.append_eq_nil_iff.mp hnone
  refine ⟨?_, ?_, hempty⟩
  · by_cases hne : s.pendList = []
    · rw [hne, List.flatMap_nil, List.append_nil] at hinOrder ⊢
      rw [List.append_assoc]
      exact hinOrder
    · obtain ⟨hmore, hrest⟩ := hempty hne
      rw [hmore, hrest, List.append_nil, List.append_nil] at hinOrder ⊢
      exact hinOrder
  · rw [List.append_assoc _ more]
    exact hinOrder

/-- A read that ends at once. -/
theorem QueueAt.endRead (h : QueueAt flqConf conf env dst mem r p total s) (more : List UInt8)
    {r' : ℕ} {q' : C2hQueue} (hunread : unread env mem s.q = more ++ unread env mem q')
    (hring : RingAt flqConf conf env dst r' r' p q'.rx)
    (hpend : q'.rx.flq.pidxPend = r' % flqConf.size) (hpidx : q'.pidx = s.q.pidx) {rd : Read}
    (hgot : rd.req.got = more) (hright : rd.Right ↔ rd.Kept) :
    QueueAt flqConf conf env dst mem r' p total { s with q := q', reads := s.reads ++ [rd] } := by
  obtain ⟨hinOrder, -, hempty⟩ := h.taken hunread
  refine ⟨hring, hpend, hpidx.trans h.pidx, h.requests, ?_, ?_, fun hne => (hempty hne).2⟩
  · intro rd' hrd'
    rcases List.mem_append.mp hrd' with hold | hnew
    · exact h.right rd' hold
    · rw [List.mem_singleton.mp hnew]
      exact hright
  · dsimp only
    rw [List.map_append, List.flatMap_append, List.flatMap_append, List.map_singleton,
      List.flatMap_singleton, hgot]
    exact hinOrder

/-- A new request reads what there is for it. -/
theorem QueueAt.readNew (hconf : StreamsOn flqConf conf)
    (h : QueueAt flqConf conf env dst mem r p total s) {req : Request} (hreq : Filled req [])
    (hidx : req.sgIdx = 0) (hleft : req.left < 2 ^ 32) {q : C2hQueue} (hrx : q.rx = s.q.rx)
    (hpidx : q.pidx = s.q.pidx) :
    ∃ r' more rv q' req', descqStC2hRead env conf mem req true true q = (rv, q', req') ∧
      r ≤ r' ∧ SameLater flqConf.size r p q q' ∧
      RingAt flqConf conf env dst r' r' p q'.rx ∧ q'.rx.flq.pidxPend = r' % flqConf.size ∧
      OnlyRing q q' ∧ unread env mem s.q = more ++ unread env mem q' ∧ Filled req' more ∧
      req'.left = u32 (req.left - more.length) ∧ req'.count = req.count ∧
      req'.offset = req.offset ∧ (more.length = req.count ∨ unread env mem q' = []) := by
  have hsame : unread env mem s.q = unread env mem q := by
    unfold unread
    rw [hrx, hpidx]
  obtain ⟨r', more, rv, q', req', hread, -, htook⟩ := RingAt.readRequest (q := q) hconf
    (hrx ▸ h.ring) mem (hrx ▸ h.pend) (hpidx.trans h.pidx) hreq (Or.inl hidx) hleft true true
    (fun _ => rfl)
  have hended := htook.ended
  rw [List.length_nil, Nat.zero_add] at hended
  refine ⟨r', more, rv, q', req', hread, htook.le, htook.later, ?_, htook.pend, htook.rest,
    hsame.trans htook.unread, ?_, htook.left, (congrArg Request.count htook.same :),
    (congrArg Request.offset htook.same :), hended⟩
  · have hring := htook.ring
    rw [if_pos rfl] at hring
    exact hring
  · exact htook.filled

/-- `qdma_request_submit`. -/
theorem QueueAt.submit (hconf : StreamsOn flqConf conf)
    (h : QueueAt flqConf conf env dst mem r p total s) {req : Request}
    (htotal : req.sgl.flatten.length = req.count) (hbound : req.count < 2 ^ 32)
    (hcopies : req.noMemcpy = false) :
    ∃ r' ≥ r, QueueAt flqConf conf env dst mem r' p total (qdmaRequestSubmit env conf mem req s) ∧
      SameAhead flqConf.size r p s.q (qdmaRequestSubmit env conf mem req s).q := by
  obtain ⟨new, hnew⟩ : ∃ new : Request, new = { req.clear with left := req.count } := ⟨_, rfl⟩
  have hfilled : Filled new [] := by
    rw [hnew]
    exact Filled.new htotal hbound hcopies rfl rfl
  unfold qdmaRequestSubmit
  dsimp only
  rw [← hnew]
  by_cases hstop : s.q.qStopWait = true
  · rw [if_pos hstop]
    refine ⟨r, le_rfl, h.endRead [] rfl h.ring h.pend rfl hfilled.got_eq ?_,
      SameAhead.refl ..⟩
    unfold Read.Right Read.Kept
    simp [hfilled.got_eq]
  · rw [if_neg hstop]
    have hleft : new.left = req.count := by rw [hnew]
    have hcount : new.count = req.count := by
      rw [hnew]
      rfl
    obtain ⟨r', more, rv, q', req', hread, hr, hlater, hring, hpend, honly, hunread, hfilled',
      hleft', hcount', hoffset, hended⟩ :=
      h.readNew hconf hfilled (by rw [hnew]; rfl) (by omega) (q := s.q) rfl rfl
    have hle := hfilled'.le
    have hgot := hfilled'.got_eq
    have hrest : req'.left = req.count - more.length := by
      rw [hleft', hleft]
      unfold u32
      omega
    rw [hread]
    dsimp only
    by_cases hdone : req'.left = 0
    · rw [if_pos hdone]
      refine ⟨r', hr, h.endRead _ hunread hring hpend honly.pidx hgot ?_, honly.sameAhead hlater⟩
      have hfull : more.length = req'.count := by omega
      unfold Read.Right Read.Kept
      simp [hgot, hfull]
    · rw [if_neg hdone]
      obtain ⟨-, hinOrder, hempty⟩ := h.taken hunread
      have hnone : unread env mem q' = [] := hended.resolve_left (by omega)
      have hwaits : Waits req' := by
        refine ⟨?_, ?_, Nat.pos_of_ne_zero hdone, ?_⟩
        · rw [hgot]
          exact hfilled'
        · rw [hgot]
          omega
        · rw [hoffset, hnew]
          rfl
      refine ⟨r', hr,
        ⟨hring, hpend, honly.pidx.trans h.pidx, ⟨?_, ?_⟩, h.right, ?_, fun _ => hnone⟩,
        honly.sameAhead hlater⟩
      · intro cb hcb
        rcases List.mem_append.mp hcb with hold | hlast
        · exact h.requests.waits cb hold
        · rw [List.mem_singleton.mp hlast]
          exact hwaits
      · -- a second request finds nothing to read
        intro cb hcb
        cases hlist : s.pendList with
        | nil =>
          rw [hlist] at hcb
          cases hcb
        | cons first others =>
          have hnothing := (hempty (by simp [hlist])).1
          have htail := h.requests.tail
          rw [hlist] at hcb htail
          rcases List.mem_append.mp hcb with hold | hlast
          · exact htail cb hold
          · rw [List.mem_singleton.mp hlast, hgot, hnothing]
      · dsimp only
        rw [List.flatMap_append, List.flatMap_append, List.flatMap_singleton, hgot,
          ← List.append_assoc]
        exact hinOrder

/-- `qdma_queue_packet_read` reports the count on top of the number of bytes. -/
theorem packetRead_right {req : Request} {more : List UInt8} (hfilled : Filled req more)
    (hleft : req.left = u32 (0 - more.length)) :
    let rd : Read := { req := req, kind := .packetRead, rv := s32 (u32 (req.count - req.left)) }
    rd.Right ↔ rd.Kept := by
  have hle := hfilled.le
  have hbound := hfilled.bound
  have hvalue : s32 (u32 ((req.count : ℤ) - req.left)) = more.length ↔ req.count = 0 := by
    rw [hleft]
    unfold s32 u32
    rw [Int.bmod_def]
    constructor
    · intro heq
      split at heq <;> omega
    · intro hzero
      split <;> omega
  unfold Read.Right Read.Kept
  simpa [hfilled.got_eq] using hvalue

theorem SameAhead.trans {size : ℕ} {q₁ q₂ q₃ : C2hQueue} (h : SameAhead size r p q₁ q₂)
    (h' : SameAhead size r p q₂ q₃) : SameAhead size r p q₁ q₃ :=
  ⟨h.later.trans h'.later le_rfl, h'.cidxCmpt.trans h.cidxCmpt,
    h'.descCmptCur.trans h.descCmptCur, h'.color.trans h.color, h'.err.trans h.err⟩

/-- `qdma_queue_packet_read`. -/
theorem QueueAt.packetRead (hconf : StreamsOn flqConf conf)
    (h : QueueAt flqConf conf env dst mem r p total s) {req : Request}
    (htotal : req.sgl.flatten.length = req.count) (hbound : req.count < 2 ^ 32)
    (hcopies : req.noMemcpy = false) (cctrl : Option CmplCtrl) :
    ∃ r' ≥ r, QueueAt flqConf conf env dst mem r' p total
        (qdmaQueuePacketRead env conf mem req cctrl s) ∧
      SameAhead flqConf.size r p s.q (qdmaQueuePacketRead env conf mem req cctrl s).q := by
  have hfilled : Filled req.clear [] := Filled.new htotal hbound hcopies rfl rfl
  have hfrom : ∀ q : C2hQueue, q.rx = s.q.rx → q.pidx = s.q.pidx →
      SameAhead flqConf.size r p s.q q →
      ∃ r' rv q' req', descqStC2hRead env conf mem req.clear true true q = (rv, q', req') ∧
        r ≤ r' ∧ SameAhead flqConf.size r p s.q q' ∧
        QueueAt flqConf conf env dst mem r' p total { s with
          q := q'
          reads := s.reads ++ [{ req := req', kind := .packetRead
                                 rv := s32 (u32 (req'.count - req'.left)) }] } := by
    intro q hrx hpidx hsame
    obtain ⟨r', more, rv, q', req', hread, hr, hlater, hring, hpend, honly, hunread, hfilled',
      hleft', -, -, -⟩ :=
      h.readNew hconf hfilled rfl (Nat.two_pow_pos 32) hrx hpidx
    refine ⟨r', rv, q', req', hread, hr, hsame.trans (honly.sameAhead hlater), ?_⟩
    exact h.endRead _ hunread hring hpend (honly.pidx.trans hpidx) hfilled'.got_eq
      (packetRead_right hfilled' hleft')
  unfold qdmaQueuePacketRead
  cases cctrl with
  | none =>
    obtain ⟨r', rv, q', req', hread, hr, hsame, hqueue⟩ := hfrom s.q rfl rfl (SameAhead.refl ..)
    dsimp only
    rw [hread]
    exact ⟨r', hr, hqueue, hsame⟩
  | some cctrl =>
    obtain ⟨r', rv, q', req', hread, hr, hsame, hqueue⟩ :=
      hfrom (setCmplCtrl cctrl s.q) rfl rfl ⟨SameLater.refl _ _ _ _, rfl, rfl, rfl, rfl⟩
    dsimp only
    rw [hread]
    exact ⟨r', hr, hqueue, hsame⟩

/-- Taking a request out of the list: it is the first one, or was given nothing. -/
theorem Queued.erase {pend : List Request} (h : Queued pend) {i : ℕ} {cb : Request}
    (hcb : pend[i]? = some cb) :
    Queued (pend.eraseIdx i) ∧
      cb.got ++ (pend.eraseIdx i).flatMap Request.got = pend.flatMap Request.got := by
  cases pend with
  | nil => cases hcb
  | cons first others =>
    obtain ⟨-, hothers, hnone⟩ := h.cons
    cases i with
    | zero =>
      obtain rfl := Option.some.inj hcb
      exact ⟨hothers, rfl⟩
    | succ i =>
      have hmem : cb ∈ others := List.mem_of_getElem? hcb
      have hempty : cb.got = [] := h.tail cb hmem
      have hsub : ∀ x ∈ others.eraseIdx i, x ∈ others := fun x hx => List.mem_of_mem_eraseIdx hx
      refine ⟨⟨?_, fun x hx => h.tail x (hsub x hx)⟩, ?_⟩
      · intro x hx
        rcases List.mem_cons.mp hx with rfl | hrest
        · exact h.waits x List.mem_cons_self
        · exact hothers.waits x (hsub x hrest)
      · have hrest : (others.eraseIdx i).flatMap Request.got = [] :=
          List.flatMap_eq_nil_iff.mpr fun x hx => h.tail x (hsub x hx)
        rw [List.eraseIdx_cons_succ, List.flatMap_cons, List.flatMap_cons, hempty, hrest, hnone,
          List.nil_append]

/-- A wait that is given up. -/
theorem QueueAt.giveUp (h : QueueAt flqConf conf env dst mem r p total s) (i : ℕ) :
    QueueAt flqConf conf env dst mem r p total (giveUp i s) ∧ (giveUp i s).q = s.q := by
  unfold Stream.giveUp
  cases hcb : s.pendList[i]? with
  | none => exact ⟨h, rfl⟩
  | some cb =>
    obtain ⟨hpending, hgot⟩ := h.requests.erase hcb
    dsimp only
    split
    · exact ⟨h, rfl⟩
    · refine ⟨⟨h.ring, h.pend, h.pidx, hpending, ?_, ?_, ?_⟩, rfl⟩
      · intro rd hrd
        rcases List.mem_append.mp hrd with hold | hnew
        · exact h.right rd hold
        · rw [List.mem_singleton.mp hnew]
          unfold Read.Right Read.Kept
          simp
      · have hinOrder := h.inOrder
        dsimp only
        rw [List.map_append, List.flatMap_append, List.flatMap_append, List.map_singleton,
          List.flatMap_singleton, List.append_assoc _ cb.got, hgot, ← List.flatMap_append]
        exact hinOrder
      · intro hne
        refine h.drained fun hnil => hne ?_
        dsimp only
        rw [hnil, List.eraseIdx_nil]

end

end OnicDriver.Stream
