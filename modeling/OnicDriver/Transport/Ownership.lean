import OnicDriver.Transport.Mbox

/-!
# Ownership of mailbox messages

Who owns a message: the sender, a list, the transmit work or the receive work.
Every message is followed on its own, and a step of the transport moves at most
one message that exists already.
-/

namespace OnicDriver.Transport

open Mailbox

/-! ## What goes on with a message -/

/-- What the work does with a message between two critical sections. -/
inductive Pc
  | none
  | sending
  | sent
  | unlisted
  | matched
  | found
  | removed
  deriving DecidableEq, Repr

/-- The part of the work that concerns message `m`. -/
def Worker.on (w : Worker) (m : ℕ) : Pc :=
  match w with
  | .txSend m' => if m' = m then .sending else .none
  | .txSent m' => if m' = m then .sent else .none
  | .txUnlisted m' => if m' = m then .unlisted else .none
  | .rxMatched (some m') _ => if m' = m then .matched else .none
  | .rxFound m' _ => if m' = m then .found else .none
  | .rxRemoved m' _ => if m' = m then .removed else .none
  | _ => .none

/-- What there is to know of a message: how often it is on the lists, what the work does with it,
its sender and flags, and how often it was freed. -/
structure View where
  tx : ℕ
  rx : ℕ
  pc : Pc
  sender : Sender
  waitResp : Bool
  respOpMatched : Bool
  frees : ℕ
  deriving DecidableEq, Repr

def State.view (s : State) (m : ℕ) : View where
  tx := s.txTodoList.count m
  rx := s.rxPendList.count m
  pc := s.worker.on m
  sender := s.sender m
  waitResp := (s.msgs m).waitResp
  respOpMatched := (s.msgs m).respOpMatched
  frees := s.frees m

/-- The sender of a message that is not answered: it waits if it wants a response. -/
def SenderOk (waitResp : Bool) (sender : Sender) : Prop :=
  if waitResp then sender = .waiting ∨ sender = .timedOut else sender = .finished

/-- The stages of a message. -/
inductive Ok (side : Side) : View → Prop
  | unborn (w k : Bool) : Ok side ⟨0, 0, .none, .unborn, w, k, 0⟩
  | queued {pc : Pc} {w : Bool} {sn : Sender} (hpc : pc = .none ∨ pc = .sending ∨ pc = .sent)
      (hsn : SenderOk w sn) : Ok side ⟨1, 0, pc, sn, w, false, 0⟩
  | takenOff {w : Bool} {sn : Sender} (hsn : SenderOk w sn) :
      Ok side ⟨0, 0, .unlisted, sn, w, false, 0⟩
  | pending {sn : Sender} (hsn : SenderOk true sn) : Ok side ⟨0, 1, .none, sn, true, false, 0⟩
  | found {pc : Pc} {sn : Sender} (hside : side = .vf) (hpc : pc = .matched ∨ pc = .found)
      (hsn : SenderOk true sn) : Ok side ⟨0, 1, pc, sn, true, true, 0⟩
  | removed {sn : Sender} (hside : side = .vf) (hsn : SenderOk true sn) :
      Ok side ⟨0, 0, .removed, sn, true, true, 0⟩
  | answered {sn : Sender} {n : ℕ} (hn : n = if side = .pf then 1 else 0)
      (hsn : SenderOk true sn) : Ok side ⟨0, 0, .none, sn, true, true, n⟩
  | returned (rv : ℤ) (w k : Bool) : Ok side ⟨0, 0, .none, .returned rv, w, k, 0⟩
  | done (w k : Bool) : Ok side ⟨0, 0, .none, .finished, w, k, 1⟩

/-- All parties have finished with a message. -/
def State.Finished (s : State) (m : ℕ) : Prop :=
  s.sender m = .finished ∧ s.worker.on m = .none ∧ m ∉ s.txTodoList ∧ m ∉ s.rxPendList

/-- Every message is on at most one list, freed once when all parties have finished with it, and
neither on a list nor used after that. -/
structure Owned (s : State) : Prop where
  nodup : (s.txTodoList ++ s.rxPendList).Nodup
  listed : ∀ m ∈ s.txTodoList ++ s.rxPendList, s.frees m = 0
  once : ∀ m, s.frees m ≤ 1
  settled : ∀ m, s.Finished m → s.frees m = 1
  misuses : s.misuses = []

/-- What holds in every state reached by careful steps. -/
structure Inv (side : Side) (s : State) : Prop where
  ok : ∀ m, Ok side (s.view m)
  fresh : ∀ m, s.next ≤ m → s.sender m = .unborn
  misuses : s.misuses = []

theorem Ok.listed_le_one {side : Side} {v : View} (h : Ok side v) : v.tx + v.rx ≤ 1 := by
  cases h <;> simp

theorem Ok.frees_of_listed {side : Side} {v : View} (h : Ok side v) (hl : 0 < v.tx + v.rx) :
    v.frees = 0 := by
  cases h <;> first | rfl | exact absurd hl (lt_irrefl 0)

theorem Ok.frees_le_one {side : Side} {v : View} (h : Ok side v) : v.frees ≤ 1 := by
  cases h with
  | answered hn =>
    rw [hn]
    dsimp only
    split <;> simp
  | _ => simp

theorem Ok.frees_of_finished {side : Side} {v : View} (h : Ok side v)
    (hsender : v.sender = .finished) (hpc : v.pc = .none) (hl : v.tx + v.rx = 0) :
    v.frees = 1 := by
  cases h <;> simp_all [SenderOk]

theorem Inv.owned {side : Side} {s : State} (h : Inv side s) : Owned s where
  nodup := by
    refine List.nodup_iff_count.mpr fun m => ?_
    rw [List.count_append]
    exact (h.ok m).listed_le_one
  listed m hm := by
    refine (h.ok m).frees_of_listed ?_
    have hcount := List.count_pos_iff.mpr hm
    rwa [List.count_append] at hcount
  once m := (h.ok m).frees_le_one
  settled m hm := by
    obtain ⟨hsender, hpc, htx, hrx⟩ := hm
    refine (h.ok m).frees_of_finished hsender hpc ?_
    exact congrArg₂ (· + ·) (List.count_eq_zero_of_not_mem htx) (List.count_eq_zero_of_not_mem hrx)
  misuses := h.misuses

/-! ## Careful steps -/

/-- The steps after which every message still has one owner. -/
def Careful (side : Side) (s : State) : Event → Prop
  -- a message that nobody waits for is not sent by a VF that is not to send
  | .send _ waitResp _ => side = .vf → s.resetInvalid → waitResp
  -- a waiter does not see its response before the receive work is done with the message, and
  -- on a PF never
  | .wake m | .expire m =>
    s.sender m = .waiting → (s.msgs m).respOpMatched → side = .vf ∧ s.worker.on m = .none
  -- a waiter does not give up while the work has the message or when it is answered
  | .abandon m =>
    s.sender m = .timedOut →
      (m ∈ s.txTodoList ∨ m ∈ s.rxPendList) ∧ s.worker.on m = .none
  -- the PF does not free a message whose time is over
  | .finish m => (∃ rv, s.sender m = .returned rv) → side = .vf
  -- the device does not go offline while a message is to be sent
  | .txHw busy offline => (∃ m, s.worker = .txSend m) → busy → offline = false
  -- a VF without pending requests gets requests only, and may respond to them
  | .rxHandle oom =>
    ∀ mSnd rcv, s.worker = .rxMatched mSnd rcv → s.rxPendList = [] → oom = false →
      (qdmaMboxVfRcvMsgHandler rcv).isSome ∧
        (s.resetInvalid → MboxOp.fromByte rcv.op = some .resetDone)
  | _ => True

variable {side : Side} {s s' : State}

/-- The state `s'` is `s` but for message `m`, of which `v` is known then. -/
structure Moves (s : State) (m : ℕ) (v : View) (s' : State) : Prop where
  other : ∀ x ≠ m, s'.view x = s.view x
  self : s'.view m = v
  next : s'.next = s.next
  misuses : s'.misuses = s.misuses

/-- A step that moves one message keeps the invariant. -/
theorem Inv.of_moves (h : Inv side s) {m : ℕ} {v : View} (hmoves : Moves s m v s')
    (hborn : s.sender m ≠ .unborn) (hok : Ok side v) : Inv side s' where
  ok x := by
    by_cases hx : x = m
    · rw [hx, hmoves.self]
      exact hok
    · rw [hmoves.other x hx]
      exact h.ok x
  fresh x hx := by
    rw [hmoves.next] at hx
    have hunborn := h.fresh x hx
    have hne : x ≠ m := by
      rintro rfl
      exact hborn hunborn
    exact (congrArg View.sender (hmoves.other x hne)).trans hunborn
  misuses := hmoves.misuses.trans h.misuses

/-- A step that moves no message keeps the invariant. -/
theorem Inv.of_views (h : Inv side s) (hview : ∀ x, s'.view x = s.view x)
    (hnext : s'.next = s.next) (hmisuses : s'.misuses = s.misuses) : Inv side s' where
  ok x := by
    rw [hview x]
    exact h.ok x
  fresh x hx := by
    rw [hnext] at hx
    exact (congrArg View.sender (hview x)).trans (h.fresh x hx)
  misuses := hmisuses.trans h.misuses

/-! ### Operations on one message -/

variable {m : ℕ} {v : View}

theorem Moves.trans {v' : View} {s'' : State} (h : Moves s m v s') (h' : Moves s' m v' s'') :
    Moves s m v' s'' where
  other x hx := (h'.other x hx).trans (h.other x hx)
  self := h'.self
  next := h'.next.trans h.next
  misuses := h'.misuses.trans h.misuses

theorem moves_sendersTo (s : State) (m : ℕ) (now : Sender) :
    Moves s m { s.view m with sender := now } (s.sendersTo m now) where
  other x hx := by simp [State.view, State.sendersTo, hx]
  self := by simp [State.view, State.sendersTo]
  next := rfl
  misuses := rfl

theorem moves_write (h : (s.view m).frees = 0) (f : MboxMsg → MboxMsg) :
    Moves s m
      { s.view m with
        waitResp := (f (s.msgs m)).waitResp
        respOpMatched := (f (s.msgs m)).respOpMatched } (s.write m f) := by
  rw [State.write_of_live h]
  exact ⟨fun x hx => by simp [State.view, hx], by simp [State.view], rfl, rfl⟩

theorem mem_lists_iff (s : State) (m : ℕ) :
    m ∈ s.txTodoList ∨ m ∈ s.rxPendList ↔ 0 < (s.view m).tx + (s.view m).rx := by
  show _ ↔ 0 < s.txTodoList.count m + s.rxPendList.count m
  rw [← List.count_append, List.count_pos_iff, List.mem_append]

theorem moves_listDel (h : (s.view m).frees = 0) (hl : 0 < (s.view m).tx + (s.view m).rx) :
    Moves s m { s.view m with tx := (s.view m).tx - 1, rx := (s.view m).rx - 1 }
      (s.listDel m) := by
  rw [State.listDel_of_live h ((mem_lists_iff s m).mpr hl)]
  exact ⟨fun x hx => by simp [State.view, List.count_erase_of_ne hx],
    by simp [State.view, List.count_erase_self], rfl, rfl⟩

theorem moves_listAddTodo (h : (s.view m).frees = 0) (hl : (s.view m).tx + (s.view m).rx = 0) :
    Moves s m { s.view m with tx := 1 } (s.listAddTodo m) := by
  have hnot : ¬ (m ∈ s.txTodoList ∨ m ∈ s.rxPendList) := by
    rw [mem_lists_iff]
    omega
  have htx : s.txTodoList.count m = 0 := Nat.eq_zero_of_add_eq_zero_right hl
  rw [State.listAddTodo_of_live h hnot]
  exact ⟨fun x hx => by simp [State.view, List.count_append, hx.symm],
    by simp [State.view, List.count_append, htx], rfl, rfl⟩

theorem moves_listAddPend (h : (s.view m).frees = 0) (hl : (s.view m).tx + (s.view m).rx = 0) :
    Moves s m { s.view m with rx := 1 } (s.listAddPend m) := by
  have hnot : ¬ (m ∈ s.txTodoList ∨ m ∈ s.rxPendList) := by
    rw [mem_lists_iff]
    omega
  have hrx : s.rxPendList.count m = 0 := Nat.eq_zero_of_add_eq_zero_left hl
  rw [State.listAddPend_of_live h hnot]
  exact ⟨fun x hx => by simp [State.view, List.count_append, hx.symm],
    by simp [State.view, List.count_append, hrx], rfl, rfl⟩

theorem moves_free (h : (s.view m).frees = 0) :
    Moves s m { s.view m with frees := 1 } (s.free m) := by
  rw [State.free_of_live h]
  exact ⟨fun x hx => by simp [State.view, hx], by simp [State.view], rfl, rfl⟩

/-- The work goes on from message `m` or to it. -/
theorem Moves.workAt (h : Moves s m v s') {work : Worker}
    (hon : ∀ x ≠ m, work.on x = s.worker.on x) :
    Moves s m { v with pc := work.on m } (s'.workAt work) where
  other x hx := by
    show { s'.view x with pc := work.on x } = s.view x
    rw [h.other x hx, hon x hx]
    rfl
  self := by
    show { s'.view m with pc := work.on m } = { v with pc := work.on m }
    rw [h.self]
  next := h.next
  misuses := h.misuses

theorem Moves.refl (s : State) (m : ℕ) : Moves s m (s.view m) s := ⟨fun _ _ => rfl, rfl, rfl, rfl⟩

/-- The work goes on with no message. -/
theorem Inv.workAt (h : Inv side s) {work : Worker} (hon : ∀ x, work.on x = s.worker.on x) :
    Inv side (s.workAt work) := by
  refine h.of_views (fun x => ?_) rfl rfl
  show { s.view x with pc := work.on x } = s.view x
  rw [hon x]
  rfl

/-! ### Stages -/

/-- An answered message that the receive work does not have. -/
theorem Ok.of_answered (h : Ok .vf v) (hsender : v.sender = .waiting) (hmatched : v.respOpMatched)
    (hpc : v.pc = .none) : v.frees = 0 ∧ ∀ rv, Ok .vf { v with sender := .returned rv } := by
  cases h with
  | queued | pending => cases hmatched
  | found _ hpc' => cases hpc; simp at hpc'
  | answered hn =>
    subst hn
    exact ⟨rfl, fun rv => .returned rv _ _⟩
  | takenOff | removed => cases hpc
  | _ => cases hsender

/-- A message that is not answered. -/
theorem Ok.of_waiting (h : Ok side v) (hsender : v.sender = .waiting)
    (hmatched : v.respOpMatched = false) :
    v.frees = 0 ∧ Ok side { v with sender := .timedOut } := by
  cases h with
  | @queued _ w _ hpc hsn =>
    refine ⟨rfl, .queued hpc ?_⟩
    cases w
    · cases hsender.symm.trans hsn
    · exact .inr rfl
  | @takenOff w _ hsn =>
    refine ⟨rfl, .takenOff ?_⟩
    cases w
    · cases hsender.symm.trans hsn
    · exact .inr rfl
  | pending => exact ⟨rfl, .pending (.inr rfl)⟩
  | found | removed | answered => cases hmatched
  | _ => cases hsender

/-- A message on a list that the work does not have. -/
theorem Ok.of_abandoned (h : Ok side v) (hl : 0 < v.tx + v.rx) (hpc : v.pc = .none) :
    v.frees = 0 ∧
      ∀ rv, Ok side { v with tx := v.tx - 1, rx := v.rx - 1, sender := .returned rv } := by
  cases h with
  | queued => cases hpc; exact ⟨rfl, fun rv => .returned rv _ _⟩
  | pending => exact ⟨rfl, fun rv => .returned rv _ _⟩
  | found _ hpc' => cases hpc; simp at hpc'
  | _ => exact absurd hl (lt_irrefl 0)

/-- A message whose send has returned. -/
theorem Ok.of_returned (h : Ok side v) {rv : ℤ} (hsender : v.sender = .returned rv) :
    v.frees = 0 ∧ Ok side { v with sender := .finished, frees := 1 } := by
  cases h with
  | returned => exact ⟨rfl, .done _ _⟩
  | @queued _ w _ _ hsn | @takenOff w _ hsn => cases hsender; cases w <;> simp [SenderOk] at hsn
  | pending hsn | found _ _ hsn | removed _ hsn | answered _ hsn =>
    cases hsender
    simp [SenderOk] at hsn
  | _ => cases hsender

theorem Ok.born_of_listed (h : Ok side v) (hl : 0 < v.tx + v.rx) : v.sender ≠ .unborn := by
  cases h with
  | @queued _ w _ _ hsn => rintro rfl; cases w <;> simp [SenderOk] at hsn
  | pending hsn | found _ _ hsn => rintro rfl; simp [SenderOk] at hsn
  | _ => exact absurd hl (lt_irrefl 0)

/-- The first message to be sent. -/
theorem Ok.of_taken (h : Ok side v) (hl : 0 < v.tx) (hpc : v.pc = .none) :
    Ok side { v with pc := .sending } := by
  cases h with
  | queued _ hsn => exact .queued (.inr (.inl rfl)) hsn
  | _ => exact absurd hl (lt_irrefl 0)

/-- A message that is being sent. -/
theorem Ok.of_sending (h : Ok side v) (hpc : v.pc = .sending) :
    v.tx = 1 ∧ v.rx = 0 ∧ v.frees = 0 ∧ Ok side { v with pc := .sent } ∧
      Ok side { v with pc := .none } ∧
      (v.waitResp = false → Ok side { v with tx := 0, pc := .none, frees := 1 }) := by
  cases h with
  | @queued pc w sn _ hsn =>
    refine ⟨rfl, rfl, rfl, .queued (.inr (.inr rfl)) hsn, .queued (.inl rfl) hsn, ?_⟩
    rintro rfl
    have hsn : sn = .finished := hsn
    subst hsn
    exact .done _ _
  | found _ hpc' => cases hpc; simp at hpc'
  | _ => cases hpc

/-- A message that was sent. -/
theorem Ok.of_sent (h : Ok side v) (hpc : v.pc = .sent) :
    v.tx = 1 ∧ v.rx = 0 ∧ v.frees = 0 ∧ Ok side { v with tx := 0, pc := .unlisted } := by
  cases h with
  | queued _ hsn => exact ⟨rfl, rfl, rfl, .takenOff hsn⟩
  | found _ hpc' => cases hpc; simp at hpc'
  | _ => cases hpc

/-- A message that was sent and taken off the list. -/
theorem Ok.of_unlisted (h : Ok side v) (hpc : v.pc = .unlisted) :
    v.tx = 0 ∧ v.rx = 0 ∧ v.frees = 0 ∧ v.sender ≠ .unborn ∧
      (v.waitResp → Ok side { v with rx := 1, pc := .none }) ∧
      (v.waitResp = false → Ok side { v with pc := .none, frees := 1 }) := by
  cases h with
  | queued hpc' | found _ hpc' => cases hpc; simp at hpc'
  | @takenOff w sn hsn =>
    refine ⟨rfl, rfl, rfl, ?_, ?_, ?_⟩
    · rintro rfl
      cases w <;> simp [SenderOk] at hsn
    · rintro rfl
      exact .pending hsn
    · rintro rfl
      have hsn : sn = .finished := hsn
      subst hsn
      exact .done _ _
  | _ => cases hpc

/-- A pending message. -/
theorem Ok.of_pending (h : Ok side v) (hl : 0 < v.rx) (hpc : v.pc = .none) :
    v.tx = 0 ∧ v.rx = 1 ∧ v.frees = 0 ∧
      (side = .vf → Ok side { v with respOpMatched := true, pc := .matched }) ∧
      (side = .pf → Ok side { v with rx := 0, respOpMatched := true, frees := 1 }) := by
  cases h with
  | pending hsn =>
    refine ⟨rfl, rfl, rfl, fun hside => .found hside (.inl rfl) hsn, ?_⟩
    rintro rfl
    exact .answered rfl hsn
  | found _ hpc' => cases hpc; simp at hpc'
  | _ => exact absurd hl (lt_irrefl 0)

/-- A message whose response has come. -/
theorem Ok.of_matched (h : Ok side v) (hpc : v.pc = .matched) :
    v.rx = 1 ∧ Ok side { v with pc := .found } := by
  cases h with
  | queued hpc' => cases hpc; simp at hpc'
  | found hside _ hsn => exact ⟨rfl, .found hside (.inr rfl) hsn⟩
  | _ => cases hpc

/-- A message whose response has come and which is to leave its list. -/
theorem Ok.of_found (h : Ok side v) (hpc : v.pc = .found) :
    v.tx = 0 ∧ v.rx = 1 ∧ v.frees = 0 ∧ Ok side { v with rx := 0, pc := .removed } := by
  cases h with
  | queued hpc' => cases hpc; simp at hpc'
  | found hside _ hsn => exact ⟨rfl, rfl, rfl, .removed hside hsn⟩
  | _ => cases hpc

/-- A message that is to get its response. -/
theorem Ok.of_removed (h : Ok side v) (hpc : v.pc = .removed) :
    v.frees = 0 ∧ v.sender ≠ .unborn ∧ Ok side { v with pc := .none } := by
  cases h with
  | queued hpc' | found _ hpc' => cases hpc; simp at hpc'
  | removed hside hsn =>
    subst hside
    refine ⟨rfl, ?_, .answered rfl hsn⟩
    rintro rfl
    simp [SenderOk] at hsn
  | _ => cases hpc

/-! ### The sender -/

theorem Inv.wake (h : Inv side s) (hcareful : Careful side s (.wake m)) : Inv side (wake s m) := by
  unfold Transport.wake
  split
  · rename_i hwake
    obtain ⟨hsender, hmatched⟩ := hwake
    obtain ⟨rfl, hpc⟩ := hcareful hsender hmatched
    obtain ⟨hlive, hreturned⟩ := (h.ok m).of_answered hsender hmatched hpc
    rw [State.access_of_live hlive]
    exact h.of_moves (moves_sendersTo s m _) (by simp [hsender]) (hreturned 0)
  · exact h

theorem Inv.expire (h : Inv side s) (hcareful : Careful side s (.expire m)) :
    Inv side (expire s m) := by
  unfold Transport.expire
  split
  · rename_i hsender
    cases hmatched : (s.msgs m).respOpMatched
    · obtain ⟨hlive, hok⟩ := (h.ok m).of_waiting hsender hmatched
      rw [State.access_of_live hlive]
      exact h.of_moves (moves_sendersTo s m _) (by simp [hsender]) hok
    · obtain ⟨rfl, hpc⟩ := hcareful hsender hmatched
      obtain ⟨hlive, hreturned⟩ := (h.ok m).of_answered hsender hmatched hpc
      rw [State.access_of_live hlive]
      exact h.of_moves (moves_sendersTo s m _) (by simp [hsender]) (hreturned 0)
  · exact h

theorem Inv.abandon (h : Inv side s) (hcareful : Careful side s (.abandon m)) :
    Inv side (abandon s m) := by
  unfold Transport.abandon
  split
  · rename_i hsender
    obtain ⟨hlisted, hpc⟩ := hcareful hsender
    have hlisted := (mem_lists_iff s m).mp hlisted
    obtain ⟨hlive, hreturned⟩ := (h.ok m).of_abandoned hlisted hpc
    have hdel := moves_listDel hlive hlisted
    have hmoves := hdel.trans (moves_sendersTo (s.listDel m) m (.returned (-EPIPE)))
    rw [hdel.self] at hmoves
    exact h.of_moves hmoves (by simp [hsender]) (hreturned (-EPIPE))
  · exact h

theorem Inv.finish (h : Inv side s) (hcareful : Careful side s (.finish m)) :
    Inv side (finish side s m) := by
  unfold Transport.finish
  split
  · rename_i rv hsender
    obtain ⟨hlive, hdone⟩ := (h.ok m).of_returned hsender
    have haccess : (if rv = 0 then s.access m else s) = s := by
      rw [State.access_of_live hlive, ite_self]
    have hfree := moves_free hlive
    have hmoves := hfree.trans (moves_sendersTo (s.free m) m .finished)
    rw [hfree.self] at hmoves
    rw [haccess]
    exact h.of_moves hmoves (by simp [hsender]) hdone
  · rename_i rv hsender
    cases hcareful ⟨rv, hsender⟩
  · exact h

/-! ### The transmit work -/

theorem Inv.start (h : Inv side s) {work : Worker} (hwork : ∀ x, work.on x = .none) :
    Inv side (start s work) := by
  unfold Transport.start
  split
  · rename_i hidle
    refine h.workAt fun x => ?_
    rw [hwork, hidle]
    rfl
  · exact h

/-- The work has at most one message. -/
theorem Worker.on_of_ne {x : ℕ} (hx : x ≠ m) (rcv : Raw) :
    (Worker.txSend m).on x = .none ∧ (Worker.txSent m).on x = .none ∧
      (Worker.txUnlisted m).on x = .none ∧ (Worker.rxMatched (some m) rcv).on x = .none ∧
      (Worker.rxFound m rcv).on x = .none ∧ (Worker.rxRemoved m rcv).on x = .none := by
  simp [Worker.on, hx.symm]

theorem Worker.on_self (m : ℕ) (rcv : Raw) :
    (Worker.txSend m).on m = .sending ∧ (Worker.txSent m).on m = .sent ∧
      (Worker.txUnlisted m).on m = .unlisted ∧ (Worker.rxMatched (some m) rcv).on m = .matched ∧
      (Worker.rxFound m rcv).on m = .found ∧ (Worker.rxRemoved m rcv).on m = .removed := by
  simp [Worker.on]

theorem Inv.txTake (h : Inv side s) : Inv side (txTake s) := by
  unfold Transport.txTake
  split
  · rename_i hw _
    refine h.workAt fun x => ?_
    rw [hw]
    rfl
  · rename_i m rest hw htx
    have hl : 0 < (s.view m).tx := by
      show 0 < s.txTodoList.count m
      rw [htx, List.count_cons_self]
      exact Nat.succ_pos _
    have hpc : (s.view m).pc = .none := by
      show s.worker.on m = .none
      rw [hw]
      rfl
    refine h.of_moves ((Moves.refl s m).workAt fun x hx => ?_)
      ((h.ok m).born_of_listed (Nat.add_pos_left hl _)) ?_
    · rw [hw]
      exact (Worker.on_of_ne hx {}).1
    · rw [(Worker.on_self m {}).1]
      exact (h.ok m).of_taken hl hpc
  · exact h

theorem Inv.txHw (h : Inv side s) {busy offline : Bool}
    (hcareful : Careful side s (.txHw busy offline)) : Inv side (txHw s busy offline) := by
  unfold Transport.txHw
  split
  · rename_i m hw
    have hpc : (s.view m).pc = .sending := by
      show s.worker.on m = .sending
      rw [hw]
      exact (Worker.on_self m {}).1
    obtain ⟨htx, hrx, hlive, hsent, hkept, hfreed⟩ := (h.ok m).of_sending hpc
    have hl : 0 < (s.view m).tx + (s.view m).rx := by omega
    have hborn := (h.ok m).born_of_listed hl
    have hon : ∀ x ≠ m, s.worker.on x = .none := by
      intro x hx
      rw [hw]
      exact (Worker.on_of_ne hx {}).1
    unfold txSendDone
    rw [State.access_of_live hlive]
    cases hbusy : busy
    · have hmoves : Moves s m (s.view m) { s with sent := m :: s.sent } :=
        ⟨fun _ _ => rfl, rfl, rfl, rfl⟩
      refine h.of_moves (hmoves.workAt fun x (hx : x ≠ m) => ?_) hborn ?_
      · rw [hon x hx]
        exact (Worker.on_of_ne hx {}).2.1
      · rw [(Worker.on_self m {}).2.1]
        exact hsent
    · rw [hcareful ⟨m, hw⟩ hbusy]
      simp only [Bool.not_true, Bool.false_eq_true, if_false]
      split
      · exact h.of_moves ((Moves.refl s m).workAt fun x hx => (hon x hx).symm) hborn hkept
      · rename_i hwait
        have hwait : (s.view m).waitResp = false := Bool.eq_false_iff.mpr hwait
        have hwrite := moves_write hlive
          fun msg => { msg with retryCnt := (msg.retryCnt + (2 ^ 16 - 1)) % 2 ^ 16 }
        generalize (s.write m fun msg =>
          { msg with retryCnt := (msg.retryCnt + (2 ^ 16 - 1)) % 2 ^ 16 }) = s₁ at *
        have hview : s₁.view m = s.view m := hwrite.self
        split
        · have hlive₁ : (s₁.view m).frees = 0 := by rw [hview, hlive]
          have hdel := moves_listDel hlive₁ (by rw [hview]; exact hl)
          have hlive₂ : ((s₁.listDel m).view m).frees = 0 := by
            rw [hdel.self]
            exact hlive₁
          have hmoves := (hwrite.trans hdel).trans (moves_free hlive₂)
          rw [hdel.self, hview, htx, hrx] at hmoves
          exact h.of_moves (hmoves.workAt fun x hx => (hon x hx).symm) hborn (by
            have hok := hfreed hwait
            rwa [hrx] at hok)
        · exact h.of_moves (hwrite.workAt fun x hx => (hon x hx).symm) hborn hkept
  · exact h

theorem Inv.txRemove (h : Inv side s) : Inv side (txRemove s) := by
  unfold Transport.txRemove
  split
  · rename_i m hw
    have hpc : (s.view m).pc = .sent := by
      show s.worker.on m = .sent
      rw [hw]
      exact (Worker.on_self m {}).2.1
    obtain ⟨htx, hrx, hlive, hok⟩ := (h.ok m).of_sent hpc
    have hl : 0 < (s.view m).tx + (s.view m).rx := by omega
    have hmoves := moves_listDel hlive hl
    rw [htx, hrx] at hmoves
    refine h.of_moves (hmoves.workAt fun x hx => ?_) ((h.ok m).born_of_listed hl) ?_
    · rw [hw, (Worker.on_of_ne hx {}).2.1]
      exact (Worker.on_of_ne hx {}).2.2.1
    · rw [(Worker.on_self m {}).2.2.1]
      rwa [hrx] at hok
  · exact h

theorem Inv.txSettle (h : Inv side s) : Inv side (txSettle s) := by
  unfold Transport.txSettle
  split
  · rename_i m hw
    have hpc : (s.view m).pc = .unlisted := by
      show s.worker.on m = .unlisted
      rw [hw]
      exact (Worker.on_self m {}).2.2.1
    obtain ⟨htx, hrx, hlive, hborn, hpend, hfreed⟩ := (h.ok m).of_unlisted hpc
    have hon : ∀ x ≠ m, Worker.txHead.on x = s.worker.on x := by
      intro x hx
      rw [hw, (Worker.on_of_ne hx {}).2.2.1]
      rfl
    rw [State.access_of_live hlive]
    dsimp only
    split
    · rename_i hwait
      have hmoves := moves_listAddPend hlive (by omega)
      exact h.of_moves (hmoves.workAt hon) hborn (hpend hwait)
    · rename_i hwait
      exact h.of_moves ((moves_free hlive).workAt hon) hborn (hfreed (Bool.eq_false_iff.mpr hwait))
  · exact h

/-! ### New messages -/

/-- A step that puts the newest message somewhere keeps the invariant. -/
theorem Inv.of_alloc (h : Inv side s) (raw : Raw) (hmoves : Moves (s.alloc raw) s.next v s')
    (hok : Ok side v) : Inv side s' where
  ok x := by
    by_cases hx : x = s.next
    · rw [hx, hmoves.self]
      exact hok
    · have hview : (s.alloc raw).view x = s.view x := by simp [State.view, State.alloc, hx]
      rw [hmoves.other x hx, hview]
      exact h.ok x
  fresh x hx := by
    have hlt : s.next < x := by
      rw [hmoves.next] at hx
      exact hx
    have hview : (s.alloc raw).view x = s.view x := by simp [State.view, State.alloc, hlt.ne']
    exact (congrArg View.sender ((hmoves.other x hlt.ne').trans hview)).trans (h.fresh x hlt.le)
  misuses := hmoves.misuses.trans h.misuses

/-- A new message is nowhere. -/
theorem Inv.view_alloc (h : Inv side s) (raw : Raw) :
    (s.alloc raw).view s.next = ⟨0, 0, .none, .finished, false, false, 0⟩ := by
  have hok := h.ok s.next
  have hsender : (s.view s.next).sender = .unborn := h.fresh s.next le_rfl
  have hold : ∃ w k, s.view s.next = ⟨0, 0, .none, .unborn, w, k, 0⟩ := by
    generalize s.view s.next = v at hok hsender
    cases hok with
    | unborn w k => exact ⟨w, k, rfl⟩
    | @queued _ w _ _ hsn | @takenOff w _ hsn => cases hsender; cases w <;> simp [SenderOk] at hsn
    | pending hsn | found _ _ hsn | removed _ hsn | answered _ hsn =>
      cases hsender
      simp [SenderOk] at hsn
    | _ => cases hsender
  obtain ⟨w, k, hold⟩ := hold
  simp only [State.view, View.mk.injEq] at hold
  obtain ⟨htx, hrx, hpc, -, -, -, hlive⟩ := hold
  simp [State.view, State.alloc, htx, hrx, hpc, hlive]

/-- `qdma_mbox_msg_send` puts a new message on the list, or returns it to its waiter. -/
theorem moves_send (side : Side) (waitResp : Bool)
    (hnew : s.view m = ⟨0, 0, .none, .finished, false, false, 0⟩)
    (hwait : side = .vf → s.resetInvalid → waitResp) (timeoutMs : ℕ) :
    ∃ v, Moves s m v (s.send m side waitResp timeoutMs) ∧ v.pc = .none ∧
      ∀ side', Ok side' v := by
  have hlive : (s.view m).frees = 0 := by rw [hnew]
  have hwrite := moves_write hlive fun msg =>
    { msg with
      respOpMatched := false, waitResp := waitResp
      retryCnt := (timeoutMs / 1000 + 1) % 2 ^ 16 }
  have hreset : (s.write m fun msg =>
      { msg with
        respOpMatched := false, waitResp := waitResp
        retryCnt := (timeoutMs / 1000 + 1) % 2 ^ 16 }).resetInvalid = s.resetInvalid := by
    rw [State.write_of_live hlive]
  unfold State.send
  generalize (s.write m fun msg =>
    { msg with
      respOpMatched := false, waitResp := waitResp
      retryCnt := (timeoutMs / 1000 + 1) % 2 ^ 16 }) = s₁ at *
  rw [hnew] at hwrite
  dsimp only at hwrite ⊢
  rw [hreset]
  split
  · rename_i hinvalid
    rw [hwait hinvalid.1 hinvalid.2, if_pos rfl]
    have hmoves := hwrite.trans (moves_sendersTo s₁ m (.returned (-EINVAL)))
    rw [hwrite.self] at hmoves
    exact ⟨_, hmoves, rfl, fun _ => .returned _ _ _⟩
  · have hadd : Moves s₁ m _ (s₁.listAddTodo m) :=
      moves_listAddTodo (by rw [hwrite.self]) (by rw [hwrite.self]; rfl)
    have hmoves := hwrite.trans hadd
    rw [hwrite.self] at hmoves
    cases waitResp
    · exact ⟨_, hmoves, rfl, fun _ => .queued (.inl rfl) rfl⟩
    · have hmoves' := hmoves.trans (moves_sendersTo (s₁.listAddTodo m) m .waiting)
      rw [hmoves.self] at hmoves'
      exact ⟨_, hmoves', rfl, fun _ => .queued (.inl rfl) (.inl rfl)⟩

theorem Inv.send (h : Inv side s) {raw : Raw} {waitResp : Bool} {timeoutMs : ℕ}
    (hcareful : Careful side s (.send raw waitResp timeoutMs)) :
    Inv side ((s.alloc raw).send s.next side waitResp timeoutMs) := by
  obtain ⟨v, hmoves, -, hok⟩ :=
    moves_send side waitResp (h.view_alloc raw) hcareful timeoutMs
  exact h.of_alloc raw hmoves (hok side)

/-! ### The receive work -/

/-- The request that a message is taken to answer is pending. -/
theorem State.matching_pending {s : State} {rcv : Raw} {mSnd : ℕ} (h : s.matching rcv = some mSnd) :
    0 < (s.view mSnd).rx :=
  List.count_pos_iff.mpr (List.mem_of_find?_eq_some h)

theorem Inv.vfRcvOneMsg (h : Inv .vf s) (hw : s.worker = .rxHead) (rcv : Raw) :
    Inv .vf (vfRcvOneMsg s rcv) := by
  unfold Transport.vfRcvOneMsg
  split
  · rename_i mSnd hmatch
    have hl := State.matching_pending hmatch
    have hpc : (s.view mSnd).pc = .none := by
      show s.worker.on mSnd = .none
      rw [hw]
      rfl
    obtain ⟨-, -, hlive, hok, -⟩ := (h.ok mSnd).of_pending hl hpc
    have hmoves := moves_write hlive fun msg => { msg with respOpMatched := true }
    refine h.of_moves (hmoves.workAt fun x hx => ?_)
      ((h.ok mSnd).born_of_listed (Nat.add_pos_right _ hl)) ?_
    · rw [hw]
      exact (Worker.on_of_ne hx rcv).2.2.2.1
    · rw [(Worker.on_self mSnd rcv).2.2.2.1]
      exact hok rfl
  · refine h.workAt fun x => ?_
    rw [hw]
    rfl

/-- The PF completes a pending request, and frees it. -/
theorem moves_pfComplete {mSnd : ℕ} (hok : Ok .pf (s.view mSnd))
    (hpc : (s.view mSnd).pc = .none) (hl : 0 < (s.view mSnd).rx) (rcv : Raw) :
    ∃ v, Moves s mSnd v (pfComplete s mSnd rcv) ∧ Ok .pf v := by
  obtain ⟨htx, hrx, hlive, -, hdone⟩ := hok.of_pending hl hpc
  have hdel := moves_listDel hlive (Nat.add_pos_right _ hl)
  have hlive₁ : ((s.listDel mSnd).view mSnd).frees = 0 := by
    rw [hdel.self]
    exact hlive
  have hwrite := hdel.trans (moves_write hlive₁ fun msg =>
    { msg with raw := rcv, respOpMatched := true })
  have hlive₂ := congrArg View.frees hwrite.self
  have hmoves := hwrite.trans (moves_free (hlive₂.trans hlive₁))
  have hwait : ((s.listDel mSnd).msgs mSnd).waitResp = (s.view mSnd).waitResp :=
    congrArg View.waitResp hdel.self
  rw [hwrite.self, hdel.self] at hmoves
  dsimp only at hmoves
  rw [hwait, hrx, htx] at hmoves
  have hdone := hdone rfl
  rw [htx] at hdone
  exact ⟨_, hmoves, hdone⟩

theorem Inv.pfRcvOneMsg (h : Inv .pf s) (hw : s.worker = .rxHead) (rcv : Raw) (ret : ℤ)
    (resp : Raw) : Inv .pf (pfRcvOneMsg s rcv ret resp) := by
  have hnew := h.view_alloc resp
  have hlive : ((s.alloc resp).view s.next).frees = 0 := by rw [hnew]
  have hfree := moves_free hlive
  rw [hnew] at hfree
  unfold Transport.pfRcvOneMsg
  dsimp only
  split
  · exact h.of_alloc resp hfree (.done _ _)
  · split
    · split
      · rename_i mSnd hmatch
        have hl := State.matching_pending hmatch
        have hne : s.next ≠ mSnd := by
          rintro rfl
          rw [hnew] at hl
          exact lt_irrefl 0 hl
        have hview : ∀ x ≠ s.next, (s.alloc resp).view x = s.view x := fun x hx => by
          simp [State.view, State.alloc, hx]
        have hok : Ok .pf ((s.alloc resp).view mSnd) := by
          rw [hview mSnd hne.symm]
          exact h.ok mSnd
        have hpc : ((s.alloc resp).view mSnd).pc = .none := by
          show s.worker.on mSnd = .none
          rw [hw]
          rfl
        obtain ⟨v, hcomplete, hdone⟩ := moves_pfComplete hok hpc hl rcv
        have hresp := (hcomplete.other s.next hne).trans hnew
        have hfree := moves_free (congrArg View.frees hresp)
        rw [hresp] at hfree
        -- two messages are moved: the request and the response that is not used
        refine ⟨fun x => ?_, fun x hx => ?_, ?_⟩
        · by_cases hx : x = s.next
          · rw [hx, hfree.self]
            exact .done _ _
          · rw [hfree.other x hx]
            by_cases hx' : x = mSnd
            · rw [hx', hcomplete.self]
              exact hdone
            · rw [hcomplete.other x hx', hview x hx]
              exact h.ok x
        · rw [hfree.next, hcomplete.next] at hx
          have hlt : s.next < x := hx
          have hunborn := h.fresh x hlt.le
          have hborn := (h.ok mSnd).born_of_listed (by
            rw [← hview mSnd hne.symm]
            exact Nat.add_pos_right _ hl)
          have hx' : x ≠ mSnd := by
            rintro rfl
            exact hborn hunborn
          have hsame := (hfree.other x hlt.ne').trans
            ((hcomplete.other x hx').trans (hview x hlt.ne'))
          exact (congrArg View.sender hsame).trans hunborn
        · exact (hfree.misuses.trans hcomplete.misuses).trans h.misuses
      · exact h.of_alloc resp hfree (.done _ _)
    · obtain ⟨v, hmoves, -, hok⟩ :=
        moves_send .pf false hnew (by simp) QDMA_MBOX_MSG_TIMEOUT_MS
      exact h.of_alloc resp hmoves (hok .pf)

theorem Inv.rcv (h : Inv side s) (incoming : Option Raw) (offline oom : Bool) (ret : ℤ)
    (resp : Raw) : Inv side (rcv side s incoming offline oom ret resp) := by
  have hidle : s.worker = .rxHead → Inv side (s.workAt .idle) := by
    intro hw
    refine h.workAt fun x => ?_
    rw [hw]
    rfl
  unfold Transport.rcv
  split
  · exact h
  · rename_i hw
    have hw := not_not.mp hw
    split
    · exact hidle hw
    · split
      · exact h
      · split
        · exact hidle hw
        · cases side
          · dsimp only
            split
            · exact h
            · exact h.pfRcvOneMsg hw _ ret resp
          · exact h.vfRcvOneMsg hw _

/-- A VF responds to a request of the PF. -/
theorem moves_vfRespond (h : Inv side s) {rcv : Raw}
    (hrequest : (qdmaMboxVfRcvMsgHandler rcv).isSome)
    (hreset : s.resetInvalid → MboxOp.fromByte rcv.op = some .resetDone) :
    ∃ resp v, Moves (s.alloc resp) s.next v (vfRespond s rcv) ∧ v.pc = .none ∧ Ok side v := by
  obtain ⟨resp, hresp⟩ := Option.isSome_iff_exists.mp hrequest
  unfold vfRespond
  rw [hresp]
  dsimp only [Option.getD_some]
  have hnew := h.view_alloc resp
  split
  · obtain ⟨v, hmoves, hpc, hok⟩ := moves_send (s := { s.alloc resp with resetInvalid := false })
      .vf false hnew (by simp) QDMA_MBOX_MSG_TIMEOUT_MS
    exact ⟨resp, v, ⟨hmoves.other, hmoves.self, hmoves.next, hmoves.misuses⟩, hpc, hok side⟩
  · rename_i hop
    obtain ⟨v, hmoves, hpc, hok⟩ := moves_send .vf false hnew
      (fun _ hinvalid => absurd (hreset hinvalid) hop) QDMA_MBOX_MSG_TIMEOUT_MS
    exact ⟨resp, v, ⟨hmoves.other, hmoves.self, hmoves.next, hmoves.misuses⟩, hpc, hok side⟩

theorem Inv.rxHandle (h : Inv side s) {oom : Bool} (hcareful : Careful side s (.rxHandle oom)) :
    Inv side (rxHandle s oom) := by
  unfold Transport.rxHandle
  split
  · rename_i mSnd rcv hw
    cases mSnd with
    | none =>
      have hon : ∀ x, (Worker.afterHandle none rcv).on x = s.worker.on x := by
        intro x
        rw [hw]
        rfl
      split
      · exact h.workAt hon
      · rename_i hempty
        split
        · exact h.workAt hon
        · rename_i hoom
          obtain ⟨hrequest, hreset⟩ := hcareful none rcv hw (not_not.mp hempty)
            (Bool.eq_false_iff.mpr hoom)
          obtain ⟨resp, v, hmoves, hpc, hok⟩ := moves_vfRespond h hrequest hreset
          have hview : { v with pc := Pc.none } = v := by
            rw [← hpc]
          refine h.of_alloc resp (hmoves.workAt fun x _ => hon x) ?_
          show Ok side { v with pc := Pc.none }
          rw [hview]
          exact hok
    | some m =>
      have hpc : (s.view m).pc = .matched := by
        show s.worker.on m = .matched
        rw [hw]
        exact (Worker.on_self m rcv).2.2.2.1
      obtain ⟨hrx, hok⟩ := (h.ok m).of_matched hpc
      have hpending : s.rxPendList ≠ [] := by
        intro hempty
        have hcount : s.rxPendList.count m = 1 := hrx
        rw [hempty] at hcount
        cases hcount
      rw [if_pos hpending]
      refine h.of_moves ((Moves.refl s m).workAt fun x hx => ?_)
        ((h.ok m).born_of_listed (by omega)) ?_
      · rw [hw, (Worker.on_of_ne hx rcv).2.2.2.1]
        exact (Worker.on_of_ne hx rcv).2.2.2.2.1
      · show Ok side { s.view m with pc := (Worker.rxFound m rcv).on m }
        rw [(Worker.on_self m rcv).2.2.2.2.1]
        exact hok
  · exact h

theorem Inv.rxRemove (h : Inv side s) : Inv side (rxRemove s) := by
  unfold Transport.rxRemove
  split
  · rename_i m rcv hw
    have hpc : (s.view m).pc = .found := by
      show s.worker.on m = .found
      rw [hw]
      exact (Worker.on_self m rcv).2.2.2.2.1
    obtain ⟨htx, hrx, hlive, hok⟩ := (h.ok m).of_found hpc
    have hl : 0 < (s.view m).tx + (s.view m).rx := by omega
    have hmoves := moves_listDel hlive hl
    rw [htx, hrx] at hmoves
    refine h.of_moves (hmoves.workAt fun x hx => ?_) ((h.ok m).born_of_listed hl) ?_
    · rw [hw, (Worker.on_of_ne hx rcv).2.2.2.2.1]
      exact (Worker.on_of_ne hx rcv).2.2.2.2.2
    · rw [(Worker.on_self m rcv).2.2.2.2.2]
      rwa [htx] at hok
  · exact h

theorem Inv.rxCopy (h : Inv side s) : Inv side (rxCopy s) := by
  unfold Transport.rxCopy
  split
  · rename_i m rcv hw
    have hpc : (s.view m).pc = .removed := by
      show s.worker.on m = .removed
      rw [hw]
      exact (Worker.on_self m rcv).2.2.2.2.2
    obtain ⟨hlive, hborn, hok⟩ := (h.ok m).of_removed hpc
    have hmoves := moves_write hlive fun msg => { msg with raw := rcv }
    refine h.of_moves (hmoves.workAt fun x hx => ?_) hborn hok
    rw [hw, (Worker.on_of_ne hx rcv).2.2.2.2.2]
    rfl
  · exact h

/-! ## Runs -/

/-- A careful step keeps the invariant. -/
theorem Inv.step (h : Inv side s) (e : Event) (hcareful : Careful side s e) :
    Inv side (step side s e) := by
  cases e with
  | send raw waitResp timeoutMs => exact h.send hcareful
  | wake m => exact h.wake hcareful
  | expire m => exact h.expire hcareful
  | abandon m => exact h.abandon hcareful
  | finish m => exact h.finish hcareful
  | startTx => exact h.start fun _ => rfl
  | startRx => exact h.start fun _ => rfl
  | txTake => exact h.txTake
  | txHw busy offline => exact h.txHw hcareful
  | txRemove => exact h.txRemove
  | txSettle => exact h.txSettle
  | rcv incoming offline oom ret resp => exact h.rcv incoming offline oom ret resp
  | rxHandle oom => exact h.rxHandle hcareful
  | rxRemove => exact h.rxRemove
  | rxCopy => exact h.rxCopy
  | reset invalid => exact h.of_views (fun _ => rfl) rfl rfl

/-- Before the first step no message was allocated. -/
def State.init : State := {}

/-- A VF sends a request and frees it when it has its response. -/
def answeredRun : List Event :=
  [.send { op := 3, srcFuncId := 5, dstFuncId := 0 } true 10000, .startTx, .txTake,
    .txHw false false, .txRemove, .txSettle, .txTake, .startRx,
    .rcv (some { op := 131, srcFuncId := 0, dstFuncId := 5, answers := some 0 }) false false 0 {},
    .rxHandle false, .rxRemove, .rxCopy, .wake 0, .finish 0]

/-- The PF triggers a reset of a VF, which responds. -/
def resetRun : List Event :=
  [.send { op := 16, srcFuncId := 0, dstFuncId := 5 } true 10000, .startTx, .txTake,
    .txHw false false, .txRemove, .txSettle, .txTake, .startRx,
    .rcv (some { op := 144, srcFuncId := 5, dstFuncId := 0, answers := some 0 }) false false
      QDMA_MBOX_VF_RESET {},
    .wake 0]

end OnicDriver.Transport
