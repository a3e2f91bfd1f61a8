import OnicDriver.Transport.Ownership
import Mathlib.Data.List.Find

/-!
# Matching of requests and responses

A response carries no number of its request. It is taken to answer the first
pending request whose opcode fits, and nothing else tells requests apart.
-/

namespace OnicDriver.Transport

open Mailbox

/-- A waiter returns success with the response to its own request only. -/
def Matched (s : State) : Prop :=
  ∀ m, s.sender m = .returned 0 → (s.msgs m).raw.answers = some m

/-- The request and the response that the receive work of a VF is about to copy to it. -/
def Worker.response : Worker → Option (ℕ × Raw)
  | .rxMatched (some m) rcv => some (m, rcv)
  | .rxFound m rcv => some (m, rcv)
  | .rxRemoved m rcv => some (m, rcv)
  | _ => none

/-- The message that the work has. -/
def Worker.has : Worker → Option ℕ
  | .txSend m => some m
  | .txSent m => some m
  | .txUnlisted m => some m
  | work => work.response.map Prod.fst

/-- The sender of a message is in `qdma_mbox_msg_send`. -/
def State.Waits (s : State) (m : ℕ) : Prop := s.sender m = .waiting ∨ s.sender m = .timedOut

/-- A message that comes answers the first pending request with its opcode, or there is no such
request. -/
def InTurn (s : State) (rcv : Raw) : Prop :=
  (∃ pre m post, s.rxPendList = pre ++ m :: post ∧ rcv.answers = some m ∧
    (s.msgs m).raw.op + MBOX_MSG_OP_RSP_OFFSET = rcv.op ∧
    ∀ x ∈ pre, (s.msgs x).raw.op + MBOX_MSG_OP_RSP_OFFSET ≠ rcv.op) ∨
  ∀ x ∈ s.rxPendList, (s.msgs x).raw.op + MBOX_MSG_OP_RSP_OFFSET ≠ rcv.op

/-- The steps that keep responses with their requests: a waiter looks before a response is there
or after it was copied, and responses come in the order of the requests of their operation. -/
def Timely (s : State) : Event → Prop
  | .wake m | .expire m =>
    s.sender m = .waiting → (s.msgs m).respOpMatched →
      ∀ rcv, s.worker.response ≠ some (m, rcv)
  | .rcv (some rcv) _ _ _ _ => s.worker = .rxHead → InTurn s rcv
  | _ => True

/-- What holds in every state reached by timely steps. -/
structure Told (s : State) : Prop where
  response : ∀ m rcv, s.worker.response = some (m, rcv) → rcv.answers = some m
  copied : ∀ m, s.Waits m → (s.msgs m).respOpMatched →
    (∃ rcv, s.worker.response = some (m, rcv)) ∨ (s.msgs m).raw.answers = some m
  returned : Matched s
  pending : ∀ m rcv, s.worker = .rxMatched (some m) rcv → s.Waits m → m ∈ s.rxPendList
  fresh : ∀ m, s.next ≤ m →
    m ∉ s.txTodoList ∧ m ∉ s.rxPendList ∧ s.worker.has ≠ some m

/-! ## Transport without ownership -/

/-- The state without the account of what was freed and misused. -/
def State.plain (s : State) : State := { s with frees := fun _ => 0, misuses := [] }

variable {s s' : State} {m : ℕ}

@[simp] theorem State.plain_access (s : State) (m : ℕ) : (s.access m).plain = s.plain := by
  unfold State.access
  split <;> rfl

@[simp] theorem State.plain_free (s : State) (m : ℕ) : (s.free m).plain = s.plain := by
  unfold State.free
  split <;> rfl

@[simp] theorem State.plain_write (s : State) (m : ℕ) (f : MboxMsg → MboxMsg) :
    (s.write m f).plain = { s.plain with msgs := Function.update s.msgs m (f (s.msgs m)) } := by
  rw [← s.plain_access m]
  rfl

@[simp] theorem State.plain_listDel (s : State) (m : ℕ) :
    (s.listDel m).plain =
      { s.plain with
        txTodoList := s.txTodoList.erase m, rxPendList := s.rxPendList.erase m } := by
  have htx : (s.access m).txTodoList = s.txTodoList := by
    unfold State.access
    split <;> rfl
  have hrx : (s.access m).rxPendList = s.rxPendList := by
    unfold State.access
    split <;> rfl
  unfold State.listDel
  dsimp only
  rw [htx, hrx, ← s.plain_access m]
  split
  · rfl
  · rename_i hnot
    obtain ⟨htodo, hpend⟩ := not_or.mp hnot
    rw [List.erase_of_not_mem htodo, List.erase_of_not_mem hpend, ← htx, ← hrx]
    rfl

@[simp] theorem State.plain_relist (s : State) (m : ℕ) : (s.relist m).plain = s.plain := by
  unfold State.relist
  dsimp only
  rw [← s.plain_access m]
  split <;> rfl

@[simp] theorem State.plain_listAddTodo (s : State) (m : ℕ) :
    (s.listAddTodo m).plain = { s.plain with txTodoList := s.txTodoList ++ [m] } := by
  rw [← s.plain_relist m]
  rfl

@[simp] theorem State.plain_listAddPend (s : State) (m : ℕ) :
    (s.listAddPend m).plain = { s.plain with rxPendList := s.rxPendList ++ [m] } := by
  rw [← s.plain_relist m]
  rfl

@[simp] theorem State.plain_sendersTo (s : State) (m : ℕ) (now : Sender) :
    (s.sendersTo m now).plain = s.plain.sendersTo m now := rfl

@[simp] theorem State.plain_workAt (s : State) (work : Worker) :
    (s.workAt work).plain = s.plain.workAt work := rfl

@[simp] theorem State.access_msgs (s : State) (m : ℕ) : (s.access m).msgs = s.msgs := by
  unfold State.access
  split <;> rfl

@[simp] theorem State.access_next (s : State) (m : ℕ) : (s.access m).next = s.next := by
  unfold State.access
  split <;> rfl

@[simp] theorem State.access_worker (s : State) (m : ℕ) : (s.access m).worker = s.worker := by
  unfold State.access
  split <;> rfl

@[simp] theorem State.access_sender (s : State) (m : ℕ) : (s.access m).sender = s.sender := by
  unfold State.access
  split <;> rfl

@[simp] theorem State.listAddTodo_msgs (s : State) (m : ℕ) :
    (s.listAddTodo m).msgs = s.msgs := by
  show (s.relist m).msgs = s.msgs
  unfold State.relist
  dsimp only
  split <;> exact s.access_msgs m

@[simp] theorem State.listAddTodo_worker (s : State) (m : ℕ) :
    (s.listAddTodo m).worker = s.worker := by
  show (s.relist m).worker = s.worker
  unfold State.relist
  dsimp only
  split <;> exact s.access_worker m

@[simp] theorem State.free_worker (s : State) (m : ℕ) : (s.free m).worker = s.worker := by
  unfold State.free
  split <;> rfl

@[simp] theorem State.write_worker (s : State) (m : ℕ) (f : MboxMsg → MboxMsg) :
    (s.write m f).worker = s.worker := s.access_worker m

@[simp] theorem State.listDel_worker (s : State) (m : ℕ) : (s.listDel m).worker = s.worker := by
  unfold State.listDel
  dsimp only
  split <;> exact s.access_worker m

@[simp] theorem State.listDel_next (s : State) (m : ℕ) : (s.listDel m).next = s.next := by
  unfold State.listDel
  dsimp only
  split <;> exact s.access_next m

@[simp] theorem State.listAddPend_worker (s : State) (m : ℕ) :
    (s.listAddPend m).worker = s.worker := by
  show (s.relist m).worker = s.worker
  unfold State.relist
  dsimp only
  split <;> exact s.access_worker m

/-- The account of ownership has no part in the matching. -/
theorem Told.of_plain (h : Told s'.plain) : Told s' where
  response := h.response
  copied := h.copied
  returned := h.returned
  pending := h.pending
  fresh := h.fresh

theorem Told.plain (h : Told s) : Told s.plain where
  response := h.response
  copied := h.copied
  returned := h.returned
  pending := h.pending
  fresh := h.fresh

/-! ## Steps -/

/-- The work goes on, and forgets its response only when it was copied or nobody waits for it. -/
theorem Told.workAt (h : Told s) {work : Worker}
    (hkept : ∀ m rcv, s.worker.response = some (m, rcv) → s.Waits m →
      work.response = some (m, rcv) ∨ (s.msgs m).raw.answers = some m)
    (hnew : ∀ m rcv, work.response = some (m, rcv) → s.worker.response = some (m, rcv))
    (hmatched : ∀ m rcv, work ≠ .rxMatched (some m) rcv)
    (hfresh : ∀ m, work.has = some m → m < s.next) : Told (s.workAt work) where
  response m rcv hm := h.response m rcv (hnew m rcv hm)
  copied m hwaits hmatch := by
    rcases h.copied m hwaits hmatch with ⟨rcv, hrcv⟩ | hcopied
    · rcases hkept m rcv hrcv hwaits with hwork | hcopied
      · exact .inl ⟨rcv, hwork⟩
      · exact .inr hcopied
    · exact .inr hcopied
  returned := h.returned
  pending m rcv hm := absurd hm (hmatched m rcv)
  fresh m hm := by
    obtain ⟨htx, hrx, -⟩ := h.fresh m hm
    exact ⟨htx, hrx, fun hwork => absurd (hfresh m hwork) (not_lt.mpr hm)⟩

/-- The transmit work goes on. -/
theorem Told.transmit (h : Told s) {work : Worker} (hwas : s.worker.response = none)
    (hnow : work.response = none) (hfresh : ∀ m, work.has = some m → m < s.next) :
    Told (s.workAt work) := by
  refine h.workAt (fun m rcv hm => ?_) (fun m rcv hm => ?_) (fun m rcv hm => ?_) hfresh
  · rw [hwas] at hm
    cases hm
  · rw [hnow] at hm
    cases hm
  · rw [hm] at hnow
    cases hnow

/-- The sender of a message goes on, but does not begin to wait. -/
theorem Told.sendersTo (h : Told s) {now : Sender}
    (hwaits : now = .waiting ∨ now = .timedOut → s.Waits m)
    (hreturned : now = .returned 0 → (s.msgs m).raw.answers = some m) :
    Told (s.sendersTo m now) := by
  have hwas : ∀ x, (s.sendersTo m now).Waits x → s.Waits x := by
    intro x hx
    unfold State.Waits State.sendersTo at hx
    dsimp only at hx
    by_cases hne : x = m
    · subst hne
      rw [Function.update_self] at hx
      exact hwaits hx
    · rwa [Function.update_of_ne hne] at hx
  refine ⟨h.response, fun x hx => h.copied x (hwas x hx), fun x hx => ?_,
    fun x rcv hwork hx => h.pending x rcv hwork (hwas x hx), h.fresh⟩
  unfold State.sendersTo at hx
  dsimp only at hx
  by_cases hne : x = m
  · subst hne
    rw [Function.update_self] at hx
    exact hreturned hx
  · rw [Function.update_of_ne hne] at hx
    exact h.returned x hx

/-- A message is taken off its list. -/
theorem Told.listDel (h : Told s)
    (hm : ∀ rcv, s.worker = .rxMatched (some m) rcv → ¬ s.Waits m) : Told (s.listDel m) := by
  refine .of_plain ?_
  rw [State.plain_listDel]
  refine ⟨h.response, h.copied, h.returned, fun x rcv hwork hx => ?_, fun x hx => ?_⟩
  · have hne : x ≠ m := by
      rintro rfl
      exact hm rcv hwork hx
    exact (List.mem_erase_of_ne hne).mpr (h.pending x rcv hwork hx)
  · obtain ⟨htx, hrx, hwork⟩ := h.fresh x hx
    exact ⟨fun hmem => htx (List.mem_of_mem_erase hmem),
      fun hmem => hrx (List.mem_of_mem_erase hmem), hwork⟩

/-- A message is put on the list of those to be sent. -/
theorem Told.listAddTodo (h : Told s) (hm : m < s.next) : Told (s.listAddTodo m) := by
  refine .of_plain ?_
  rw [State.plain_listAddTodo]
  refine ⟨h.response, h.copied, h.returned, h.pending, fun x hx => ?_⟩
  obtain ⟨htx, hrest⟩ := h.fresh x hx
  refine ⟨fun hmem => ?_, hrest⟩
  rcases List.mem_append.mp hmem with hmem | hmem
  · exact htx hmem
  · exact (hm.trans_le hx).ne' (List.mem_singleton.mp hmem)

/-- A message is put on the list of those that wait for a response. -/
theorem Told.listAddPend (h : Told s) (hm : m < s.next) : Told (s.listAddPend m) := by
  refine .of_plain ?_
  rw [State.plain_listAddPend]
  refine ⟨h.response, h.copied, h.returned,
    fun x rcv hwork hx => List.mem_append_left _ (h.pending x rcv hwork hx), fun x hx => ?_⟩
  obtain ⟨htx, hrx, hwork⟩ := h.fresh x hx
  refine ⟨htx, fun hmem => ?_, hwork⟩
  rcases List.mem_append.mp hmem with hmem | hmem
  · exact hrx hmem
  · exact (hm.trans_le hx).ne' (List.mem_singleton.mp hmem)

/-- The sender of a message begins to wait. -/
theorem Told.wait (h : Told s) (hmatch : (s.msgs m).respOpMatched = false)
    (hwork : s.worker.has ≠ some m) : Told (s.sendersTo m .waiting) := by
  have hwas : ∀ x ≠ m, (s.sendersTo m .waiting).sender x = s.sender x :=
    fun x hx => Function.update_of_ne hx ..
  have hself : (s.sendersTo m .waiting).sender m = .waiting := Function.update_self ..
  refine ⟨h.response, fun x hx hmatched => ?_, fun x hx => ?_, fun x rcv hwork' hx => ?_, h.fresh⟩
  · have hne : x ≠ m := by
      rintro rfl
      exact absurd hmatched (Bool.eq_false_iff.mp hmatch)
    unfold State.Waits at hx
    rw [hwas x hne] at hx
    exact h.copied x hx hmatched
  · by_cases hne : x = m
    · rw [hne, hself] at hx
      cases hx
    · rw [hwas x hne] at hx
      exact h.returned x hx
  · have hne : x ≠ m := by
      rintro rfl
      apply hwork
      rw [show s.worker = .rxMatched (some x) rcv from hwork']
      rfl
    unfold State.Waits at hx
    rw [hwas x hne] at hx
    exact h.pending x rcv hwork' hx

/-- A new message is allocated, which nobody waits for yet. -/
theorem Told.alloc (h : Told s) (raw : Raw) : Told (s.alloc raw) := by
  have hwas : ∀ x, (s.alloc raw).Waits x → x ≠ s.next ∧ s.Waits x := by
    intro x hx
    by_cases hne : x = s.next
    · simp [State.Waits, State.alloc, hne] at hx
    · simpa [State.Waits, State.alloc, hne] using hx
  refine ⟨h.response, fun x hx hmatch => ?_, fun x hx => ?_, fun x rcv hwork hx => ?_,
    fun x hx => h.fresh x (Nat.le_of_succ_le hx)⟩
  · obtain ⟨hne, hx⟩ := hwas x hx
    have hmsg : (s.alloc raw).msgs x = s.msgs x := Function.update_of_ne hne ..
    rw [hmsg] at hmatch ⊢
    exact h.copied x hx hmatch
  · by_cases hne : x = s.next
    · simp [State.alloc, hne] at hx
    · have hmsg : (s.alloc raw).msgs x = s.msgs x := Function.update_of_ne hne ..
      rw [hmsg]
      exact h.returned x (by simpa [State.alloc, hne] using hx)
  · exact h.pending x rcv hwork (hwas x hx).2

/-- A message is written, but not its words. -/
theorem Told.write (h : Told s) {f : MboxMsg → MboxMsg}
    (hflag : s.Waits m → (f (s.msgs m)).respOpMatched → (s.msgs m).respOpMatched)
    (hraw : (f (s.msgs m)).raw = (s.msgs m).raw) : Told (s.write m f) := by
  refine .of_plain ?_
  rw [State.plain_write]
  refine ⟨h.response, fun x hx hmatch => ?_, fun x hx => ?_, h.pending, h.fresh⟩
  · dsimp only at hmatch ⊢
    by_cases hne : x = m
    · subst hne
      rw [Function.update_self] at hmatch ⊢
      rw [hraw]
      exact h.copied x hx (hflag hx hmatch)
    · rw [Function.update_of_ne hne] at hmatch ⊢
      exact h.copied x hx hmatch
  · have hold := h.returned x hx
    dsimp only
    by_cases hne : x = m
    · rw [hne, Function.update_self, hraw, ← hne]
      exact hold
    · rw [Function.update_of_ne hne]
      exact hold

/-- The response is copied to its request. -/
theorem Told.copy (h : Told s) {f : MboxMsg → MboxMsg}
    (hraw : (f (s.msgs m)).raw.answers = some m) : Told (s.write m f) := by
  refine .of_plain ?_
  rw [State.plain_write]
  refine ⟨h.response, fun x hx hmatch => ?_, fun x hx => ?_, h.pending, h.fresh⟩
  · dsimp only at hmatch ⊢
    by_cases hne : x = m
    · right
      rw [hne, Function.update_self]
      exact hraw
    · rw [Function.update_of_ne hne] at hmatch ⊢
      exact h.copied x hx hmatch
  · dsimp only
    by_cases hne : x = m
    · rw [hne, Function.update_self]
      exact hraw
    · rw [Function.update_of_ne hne]
      exact h.returned x hx

theorem Told.access (h : Told s) (m : ℕ) : Told (s.access m) := by
  refine .of_plain ?_
  rw [State.plain_access]
  exact h.plain

theorem Told.free (h : Told s) (m : ℕ) : Told (s.free m) := by
  refine .of_plain ?_
  rw [State.plain_free]
  exact h.plain

theorem Told.send (h : Told s) (hm : m < s.next) (hwaits : ¬ s.Waits m)
    (hwork : s.worker.has ≠ some m) (side : Side) (waitResp : Bool) (timeoutMs : ℕ) :
    Told (s.send m side waitResp timeoutMs) := by
  unfold State.send
  extract_lets s₁
  have hwrite : Told s₁ := h.write (fun hw => absurd hw hwaits) rfl
  have hnext : s₁.next = s.next := s.access_next m
  have hworker : s₁.worker = s.worker := s.access_worker m
  have hmatch : (s₁.msgs m).respOpMatched = false := by
    show (Function.update s.msgs m _ m).respOpMatched = false
    rw [Function.update_self]
  have hadd := hwrite.listAddTodo (hm.trans_eq hnext.symm)
  split
  · split
    · exact hwrite.sendersTo (by simp) (by simp [EINVAL])
    · exact hwrite
  · split
    · refine hadd.wait ?_ ?_
      · rw [State.listAddTodo_msgs]
        exact hmatch
      · rw [State.listAddTodo_worker, hworker]
        exact hwork
    · exact hadd

/-! ### The sender -/

theorem Told.wake (h : Told s) (htimely : Timely s (.wake m)) : Told (wake s m) := by
  unfold Transport.wake
  split
  · rename_i hwake
    obtain ⟨hwaiting, hmatch⟩ := hwake
    refine (h.access m).sendersTo (by simp) fun _ => ?_
    rw [State.access_msgs]
    rcases h.copied m (.inl hwaiting) hmatch with ⟨rcv, hrcv⟩ | hcopied
    · exact absurd hrcv (htimely hwaiting hmatch rcv)
    · exact hcopied
  · exact h

theorem Told.expire (h : Told s) (htimely : Timely s (.expire m)) : Told (expire s m) := by
  unfold Transport.expire
  split
  · rename_i hwaiting
    have hwaits : (s.access m).Waits m := by
      left
      rw [State.access_sender]
      exact hwaiting
    refine (h.access m).sendersTo (fun _ => hwaits) fun hreturned => ?_
    have hmatch : (s.msgs m).respOpMatched := by
      by_contra hnot
      rw [if_neg hnot] at hreturned
      cases hreturned
    rw [State.access_msgs]
    rcases h.copied m (.inl hwaiting) hmatch with ⟨rcv, hrcv⟩ | hcopied
    · exact absurd hrcv (htimely hwaiting hmatch rcv)
    · exact hcopied
  · exact h

theorem Told.abandon (h : Told s) (m : ℕ) : Told (abandon s m) := by
  unfold Transport.abandon
  split
  · have hreturned : Told (s.sendersTo m (.returned (-EPIPE))) :=
      h.sendersTo (by simp) (by simp [EPIPE])
    have hdel : Told ((s.sendersTo m (.returned (-EPIPE))).listDel m) := by
      refine hreturned.listDel fun rcv _ hwaits => ?_
      simp [State.Waits, State.sendersTo] at hwaits
    -- the message is taken off the list by a waiter that has given up already
    have hsame : ((s.listDel m).sendersTo m (.returned (-EPIPE))).plain =
        ((s.sendersTo m (.returned (-EPIPE))).listDel m).plain := by
      have hsender : (s.listDel m).plain.sender = s.sender := by rw [State.plain_listDel]; rfl
      rw [State.plain_sendersTo, State.plain_listDel, State.plain_listDel]
      rfl
    refine .of_plain ?_
    rw [hsame]
    exact hdel.plain
  · exact h

theorem Told.finish (h : Told s) (side : Side) (m : ℕ) : Told (finish side s m) := by
  unfold Transport.finish
  split
  · rename_i rv _
    have hread : Told (if rv = 0 then s.access m else s) := by
      split
      · exact h.access m
      · exact h
    exact (hread.free m).sendersTo (by simp) (by simp)
  · exact h.sendersTo (by simp) (by simp)
  · exact h

/-! ### The transmit work -/

theorem Told.start (h : Told s) {work : Worker} (hwork : work = .txHead ∨ work = .rxHead) :
    Told (start s work) := by
  unfold Transport.start
  split
  · rename_i hidle
    refine h.transmit (by rw [hidle]; rfl) ?_ ?_
    · rcases hwork with rfl | rfl <;> rfl
    · rcases hwork with rfl | rfl <;> exact fun m hm => nomatch hm
  · exact h

theorem Told.txTake (h : Told s) : Told (txTake s) := by
  unfold Transport.txTake
  split
  · rename_i hw _
    exact h.transmit (by rw [hw]; rfl) rfl fun m hm => nomatch hm
  · rename_i m _ hw htodo
    refine h.transmit (by rw [hw]; rfl) rfl fun x hx => ?_
    cases hx
    by_contra hle
    refine (h.fresh m (not_lt.mp hle)).1 ?_
    rw [htodo]
    exact List.mem_cons_self
  · exact h

/-- A message that the work has was allocated. -/
theorem Told.lt_next (h : Told s) (hm : s.worker.has = some m) : m < s.next := by
  by_contra hle
  exact (h.fresh m (not_lt.mp hle)).2.2 hm

theorem Told.txSendDone (h : Told s) (hw : s.worker = .txSend m) (busy offline : Bool) :
    Told (txSendDone s m busy offline) := by
  have hm : m < s.next := h.lt_next (by rw [hw]; rfl)
  have hread := h.access m
  have hwork : (s.access m).worker = .txSend m := (s.access_worker m).trans hw
  unfold Transport.txSendDone
  extract_lets s₁ s₂
  split
  · have hsent : Told { s₁ with sent := m :: s₁.sent } :=
      ⟨hread.response, hread.copied, hread.returned, hread.pending, hread.fresh⟩
    refine hsent.transmit ?_ rfl fun x hx => ?_
    · show s₁.worker.response = none
      rw [hwork]
      rfl
    · cases hx
      exact hm.trans_eq (s.access_next m).symm
  · split
    · exact (hread.free m).transmit (by rw [State.free_worker, hwork]; rfl) rfl
        fun x hx => nomatch hx
    · split
      · exact hread.transmit (by rw [hwork]; rfl) rfl fun x hx => nomatch hx
      · have hretry : Told s₂ := hread.write (fun _ hmatch => hmatch) rfl
        have hwork₂ : s₂.worker = .txSend m := (State.write_worker ..).trans hwork
        split
        · have hdel : Told (s₂.listDel m) := by
            refine hretry.listDel fun rcv hrcv => ?_
            rw [hwork₂] at hrcv
            cases hrcv
          exact (hdel.free m).transmit
            (by rw [State.free_worker, State.listDel_worker, hwork₂]; rfl) rfl
            fun x hx => nomatch hx
        · exact hretry.transmit (by rw [hwork₂]; rfl) rfl fun x hx => nomatch hx

theorem Told.txHw (h : Told s) (busy offline : Bool) : Told (txHw s busy offline) := by
  unfold Transport.txHw
  split
  · rename_i m hw
    exact h.txSendDone hw busy offline
  · exact h

theorem Told.txRemove (h : Told s) : Told (txRemove s) := by
  unfold Transport.txRemove
  split
  · rename_i m hw
    have hm : m < s.next := h.lt_next (by rw [hw]; rfl)
    have hdel : Told (s.listDel m) := by
      refine h.listDel fun rcv hrcv => ?_
      rw [hw] at hrcv
      cases hrcv
    refine hdel.transmit (by rw [State.listDel_worker, hw]; rfl) rfl fun x hx => ?_
    cases hx
    exact hm.trans_eq (s.listDel_next m).symm
  · exact h

theorem Told.txSettle (h : Told s) : Told (txSettle s) := by
  unfold Transport.txSettle
  split
  · rename_i m hw
    have hm : m < s.next := h.lt_next (by rw [hw]; rfl)
    have hread := h.access m
    have hwork : (s.access m).worker = .txUnlisted m := (s.access_worker m).trans hw
    dsimp only
    split
    · have hpend := hread.listAddPend (hm.trans_eq (s.access_next m).symm)
      exact hpend.transmit (by rw [State.listAddPend_worker, hwork]; rfl) rfl fun x hx => nomatch hx
    · exact (hread.free m).transmit (by rw [State.free_worker, hwork]; rfl) rfl
        fun x hx => nomatch hx
  · exact h

/-! ### The receive work -/

/-- A message in turn is taken to answer the request that it does answer. -/
theorem InTurn.answers {rcv : Raw} (h : InTurn s rcv) (hmatch : s.matching rcv = some m) :
    rcv.answers = some m := by
  have hresponse := List.find?_some hmatch
  rw [qdmaMboxIsMsgResponse, beq_iff_eq] at hresponse
  obtain ⟨pre, first, post, hlist, hanswers, hop, hpre⟩ | hnone := h
  · have hskip : pre.find? (fun x => qdmaMboxIsMsgResponse (s.msgs x).raw rcv) = none := by
      refine List.find?_eq_none.mpr fun x hx => ?_
      rw [qdmaMboxIsMsgResponse, beq_iff_eq]
      exact hpre x hx
    have hfirst : qdmaMboxIsMsgResponse (s.msgs first).raw rcv = true := by
      rw [qdmaMboxIsMsgResponse, beq_iff_eq]
      exact hop
    rw [State.matching, hlist, List.find?_append, hskip, Option.none_or, List.find?_cons,
      hfirst] at hmatch
    exact hanswers.trans hmatch
  · exact absurd hresponse (hnone m (List.mem_of_find?_eq_some hmatch))

/-- The response that is allocated first matches nothing. -/
theorem Told.matching_alloc (h : Told s) (resp rcv : Raw) :
    (s.alloc resp).matching rcv = s.matching rcv := by
  have hsame : ∀ x ∈ s.rxPendList,
      qdmaMboxIsMsgResponse ((s.alloc resp).msgs x).raw rcv =
        qdmaMboxIsMsgResponse (s.msgs x).raw rcv := by
    intro x hx
    have hne : x ≠ s.next := by
      rintro rfl
      exact (h.fresh s.next le_rfl).2.1 hx
    have hmsg : (s.alloc resp).msgs x = s.msgs x := Function.update_of_ne hne ..
    rw [hmsg]
  exact List.find?_congr hsame

/-- A message that was allocated last can be sent. -/
theorem Told.sendNew (h : Told s) (raw : Raw) (side : Side) (waitResp : Bool) (timeoutMs : ℕ) :
    Told ((s.alloc raw).send s.next side waitResp timeoutMs) := by
  refine (h.alloc raw).send (Nat.lt_succ_self _) ?_ (h.fresh s.next le_rfl).2.2 side waitResp _
  simp [State.Waits, State.alloc]

theorem Told.pfRcvOneMsg (h : Told s) (hw : s.worker = .rxHead) {rcv : Raw}
    (hturn : InTurn s rcv) (ret : ℤ) (resp : Raw) : Told (pfRcvOneMsg s rcv ret resp) := by
  unfold Transport.pfRcvOneMsg
  extract_lets mResp s₁
  have halloc : Told s₁ := h.alloc resp
  split
  · exact halloc.free mResp
  · split
    · split
      · rename_i mSnd hmatch
        have hmatch : s.matching rcv = some mSnd := (h.matching_alloc resp rcv).symm.trans hmatch
        have hdel : Told (s₁.listDel mSnd) := by
          refine halloc.listDel fun rcv' hrcv => ?_
          have hrcv : s.worker = .rxMatched (some mSnd) rcv' := hrcv
          rw [hw] at hrcv
          cases hrcv
        have hcopy : Told ((s₁.listDel mSnd).write mSnd fun msg =>
            { msg with raw := rcv, respOpMatched := true }) := hdel.copy (hturn.answers hmatch)
        exact (hcopy.free mSnd).free mResp
      · exact halloc.free mResp
    · exact h.sendNew resp .pf false QDMA_MBOX_MSG_TIMEOUT_MS

theorem Told.vfRcvOneMsg (h : Told s) (hw : s.worker = .rxHead) {rcv : Raw}
    (hturn : InTurn s rcv) : Told (vfRcvOneMsg s rcv) := by
  unfold Transport.vfRcvOneMsg
  split
  · rename_i mSnd hmatch
    have hpend : mSnd ∈ s.rxPendList := List.mem_of_find?_eq_some hmatch
    have hanswers := hturn.answers hmatch
    refine .of_plain ?_
    rw [State.plain_workAt, State.plain_write]
    refine ⟨fun m rcv' hm => ?_, fun m hwaits hflag => ?_, fun m hm => ?_, fun m rcv' hm _ => ?_,
      fun m hm => ?_⟩
    · cases hm
      exact hanswers
    · by_cases hne : m = mSnd
      · left
        rw [hne]
        exact ⟨rcv, rfl⟩
      · right
        have hmsg : Function.update s.msgs mSnd
            { s.msgs mSnd with respOpMatched := true } m = s.msgs m := Function.update_of_ne hne ..
        have hflag : (s.msgs m).respOpMatched := by
          rw [← hmsg]
          exact hflag
        show (Function.update s.msgs mSnd _ m).raw.answers = some m
        rw [hmsg]
        rcases h.copied m hwaits hflag with ⟨rcv', hrcv⟩ | hcopied
        · rw [hw] at hrcv
          cases hrcv
        · exact hcopied
    · have hold := h.returned m hm
      show (Function.update s.msgs mSnd _ m).raw.answers = some m
      by_cases hne : m = mSnd
      · rw [hne, Function.update_self, ← hne]
        exact hold
      · rw [Function.update_of_ne hne]
        exact hold
    · cases hm
      exact hpend
    · obtain ⟨htx, hrx, -⟩ := h.fresh m hm
      refine ⟨htx, hrx, fun hhas => ?_⟩
      cases hhas
      exact hrx hpend
  · exact h.transmit (by rw [hw]; rfl) rfl fun m hm => nomatch hm

theorem Told.rcv (h : Told s) {side : Side} {incoming : Option Raw} {offline oom : Bool} {ret : ℤ}
    {resp : Raw} (htimely : Timely s (.rcv incoming offline oom ret resp)) :
    Told (rcv side s incoming offline oom ret resp) := by
  have hidle : s.worker = .rxHead → Told (s.workAt .idle) :=
    fun hw => h.transmit (by rw [hw]; rfl) rfl fun m hm => nomatch hm
  unfold Transport.rcv
  split
  · exact h
  · rename_i hw
    have hw := not_not.mp hw
    split
    · exact hidle hw
    · split
      · exact h
      · split
        · exact hidle hw
        · cases side
          · dsimp only
            split
            · exact h
            · exact h.pfRcvOneMsg hw (htimely hw) ret resp
          · exact h.vfRcvOneMsg hw (htimely hw)

theorem Told.vfRespond (h : Told s) (rcv : Raw) : Told (vfRespond s rcv) := by
  have hreset : ∀ invalid, Told { s with resetInvalid := invalid } := fun _ =>
    ⟨h.response, h.copied, h.returned, h.pending, h.fresh⟩
  unfold Transport.vfRespond
  dsimp only
  split
  · rename_i resp _
    split
    · have hsent := (hreset false).sendNew ((qdmaMboxVfRcvMsgHandler rcv).getD {}) .vf false
        QDMA_MBOX_MSG_TIMEOUT_MS
      exact ⟨hsent.response, hsent.copied, hsent.returned, hsent.pending, hsent.fresh⟩
    · have hsent := h.sendNew ((qdmaMboxVfRcvMsgHandler rcv).getD {}) .vf false
        QDMA_MBOX_MSG_TIMEOUT_MS
      exact ⟨hsent.response, hsent.copied, hsent.returned, hsent.pending, hsent.fresh⟩
  · exact h.alloc _

theorem State.send_worker (s : State) (m : ℕ) (side : Side) (waitResp : Bool) (timeoutMs : ℕ) :
    (s.send m side waitResp timeoutMs).worker = s.worker := by
  unfold State.send
  extract_lets s₁
  have hwork : s₁.worker = s.worker := State.write_worker ..
  split
  · split <;> exact hwork
  · split <;> exact (s₁.listAddTodo_worker m).trans hwork

theorem vfRespond_worker (s : State) (rcv : Raw) : (vfRespond s rcv).worker = s.worker := by
  unfold vfRespond
  dsimp only
  split
  · split
    · exact State.send_worker ..
    · exact State.send_worker ..
  · rfl

/-- The work goes on with the response it has, or forgets it when nobody waits for it. -/
theorem Told.receive (h : Told s) {mSnd : Option ℕ} {rcv : Raw}
    (hw : s.worker = .rxMatched mSnd rcv) : Told (s.workAt (.afterHandle mSnd rcv)) := by
  have hsame : (Worker.afterHandle mSnd rcv).response = s.worker.response := by
    rw [hw]
    cases mSnd <;> rfl
  refine h.workAt (fun m rcv' hm _ => .inl (hsame.trans hm)) (fun m rcv' hm => hsame.symm.trans hm)
    (fun m rcv' hm => ?_) fun m hm => ?_
  · cases mSnd <;> cases hm
  · refine h.lt_next ?_
    rw [hw]
    cases mSnd
    · exact hm
    · exact hm

theorem Told.rxHandle (h : Told s) (oom : Bool) : Told (rxHandle s oom) := by
  unfold Transport.rxHandle
  split
  · rename_i mSnd rcv hw
    split
    · exact h.receive hw
    · rename_i hempty
      split
      · refine h.workAt (fun m rcv' hm hwaits => ?_) (fun m rcv' hm => nomatch hm)
          (fun m rcv' hm => nomatch hm) fun m hm => nomatch hm
        -- a request that is still waited for is still pending
        have hmatched : s.worker = .rxMatched (some m) rcv' := by
          rw [hw] at hm ⊢
          cases mSnd <;> cases hm
          rfl
        have hpend := h.pending m rcv' hmatched hwaits
        rw [not_not.mp hempty] at hpend
        cases hpend
      · exact (h.vfRespond rcv).receive ((vfRespond_worker s rcv).trans hw)
  · exact h

theorem Told.rxRemove (h : Told s) : Told (rxRemove s) := by
  unfold Transport.rxRemove
  split
  · rename_i m rcv hw
    have hm : m < s.next := h.lt_next (by rw [hw]; rfl)
    have hdel : Told (s.listDel m) := by
      refine h.listDel fun rcv' hrcv => ?_
      rw [hw] at hrcv
      cases hrcv
    have hsame : (Worker.rxRemoved m rcv).response = (s.listDel m).worker.response := by
      rw [State.listDel_worker, hw]
      rfl
    refine hdel.workAt (fun x rcv' hx _ => .inl (hsame.trans hx))
      (fun x rcv' hx => hsame.symm.trans hx) (fun x rcv' hx => nomatch hx) fun x hx => ?_
    cases hx
    exact hm.trans_eq (s.listDel_next m).symm
  · exact h

theorem Told.rxCopy (h : Told s) : Told (rxCopy s) := by
  unfold Transport.rxCopy
  split
  · rename_i m rcv hw
    have hanswers : rcv.answers = some m := h.response m rcv (by rw [hw]; rfl)
    have hcopy : Told (s.write m fun msg => { msg with raw := rcv }) := h.copy hanswers
    refine hcopy.workAt (fun x rcv' hx _ => .inr ?_) (fun x rcv' hx => nomatch hx)
      (fun x rcv' hx => nomatch hx) fun x hx => nomatch hx
    rw [State.write_worker, hw] at hx
    cases hx
    show (Function.update s.msgs m _ m).raw.answers = some m
    rw [Function.update_self]
    exact hanswers
  · exact h

/-! ## Runs -/

/-- A timely step keeps the invariant. -/
theorem Told.step (h : Told s) (side : Side) (e : Event) (htimely : Timely s e) :
    Told (step side s e) := by
  cases e with
  | send raw waitResp timeoutMs => exact h.sendNew raw side waitResp timeoutMs
  | wake m => exact h.wake htimely
  | expire m => exact h.expire htimely
  | abandon m => exact h.abandon m
  | finish m => exact h.finish side m
  | startTx => exact h.start (.inl rfl)
  | startRx => exact h.start (.inr rfl)
  | txTake => exact h.txTake
  | txHw busy offline => exact h.txHw busy offline
  | txRemove => exact h.txRemove
  | txSettle => exact h.txSettle
  | rcv incoming offline oom ret resp => exact h.rcv htimely
  | rxHandle oom => exact h.rxHandle oom
  | rxRemove => exact h.rxRemove
  | rxCopy => exact h.rxCopy
  | reset invalid => exact ⟨h.response, h.copied, h.returned, h.pending, h.fresh⟩

theorem told_init : Told .init where
  response _ _ h := nomatch h
  copied _ h := by simp [State.Waits, State.init] at h
  returned _ h := nomatch h
  pending _ _ h := nomatch h
  fresh _ _ := ⟨List.not_mem_nil, List.not_mem_nil, fun h => nomatch h⟩

/-- In a run of timely steps every waiter that returns success has the response to its request. -/
theorem run_matched (side : Side) (es : List Event)
    (h : Lib.Admitted (step side) Timely .init es) : Matched (Lib.run (step side) .init es) := by
  have hinv : Told (Lib.run (step side) .init es) :=
    Lib.Admitted.invariant (I := Told) (s := .init) (fun _ e hs he => hs.step side e he) told_init h
  exact hinv.returned

/-- A VF sends a request and returns with its response. -/
theorem answeredRun_matched : Matched (Lib.run (step .vf) .init (answeredRun.take 13)) := by
  refine run_matched .vf (answeredRun.take 13) ⟨trivial, trivial, trivial, trivial, trivial,
    trivial, trivial, trivial, fun _ => .inl ⟨[], 0, [], ?_⟩, trivial, trivial, trivial,
    fun _ _ rcv h => ?_, trivial⟩
  · decide
  · cases h

/-- A request times out, and the response to it comes while a second request waits. -/
def lateRun : List Event :=
  [.send { op := 3, srcFuncId := 5, dstFuncId := 0 } true 10000, .startTx, .txTake,
    .txHw false false, .txRemove, .txSettle, .txTake, .expire 0, .abandon 0, .finish 0,
    .send { op := 3, srcFuncId := 5, dstFuncId := 0 } true 10000, .startTx, .txTake,
    .txHw false false, .txRemove, .txSettle, .txTake, .startRx,
    .rcv (some { op := 131, srcFuncId := 0, dstFuncId := 5, answers := some 0 }) false false 0 {},
    .rxHandle false, .rxRemove, .rxCopy, .wake 1]

/-- The second waiter returns with the response to the first request. -/
theorem lateRun_not_matched : ¬ Matched (Lib.run (step .vf) .init lateRun) := by
  intro h
  have hreturned : (Lib.run (step .vf) .init lateRun).sender 1 = .returned 0 := by decide
  have hanswers := h 1 hreturned
  have hfirst : ((Lib.run (step .vf) .init lateRun).msgs 1).raw.answers = some 0 := by decide
  rw [hfirst] at hanswers
  cases hanswers

end OnicDriver.Transport
