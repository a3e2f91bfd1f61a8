import OnicDriver.Transport.Matching

/-!
# Notifications of the PF

The PF tells a VF about resets and about its end without being asked. The VF
looks for such a notification only while none of its own requests is pending;
otherwise the message is compared with the requests and forgotten.
-/

namespace OnicDriver.Transport

open Lib Mailbox

/-- `enum qdma_dev_reset_state`. -/
inductive ResetState
  | idle
  | recvPfResetReq
  | pfWaitForByes
  | recvPfResetDone
  | recvPfOfflineReq
  | pfOfflineReqProcessing
  | invalid
  deriving DecidableEq, Repr

/-- The reset state that `mbox_rcv_one_msg` of the VF sets for a notification. -/
def notifiedState (raw : Raw) : Option ResetState :=
  match MboxOp.fromByte raw.op with
  | some .resetPrepare => some .recvPfResetReq
  | some .resetDone => some .recvPfResetDone
  | some .pfBye => some .recvPfOfflineReq
  | _ => none

/-- The request that a received message was found to answer, and the message, before the VF
handles it. -/
def Worker.matched : Worker → Option (Option ℕ × Raw)
  | .rxMatched mSnd raw => some (mSnd, raw)
  | _ => none

/-- The message that the VF has received and not yet handled. -/
def Worker.inHand (work : Worker) : Option Raw := work.matched.map Prod.snd

/-- A VF with its reset state. The notifications that have come, the responses that it has handed
to the mailbox while it handled a message, and the reset states that it was moved to then are
recorded in order. -/
structure VfState where
  mbox : State := {}
  resetState : ResetState := .idle
  arrived : List Raw := []
  responses : List Raw := []
  moves : List ResetState := []

/-- A step of the transport, or a change of the reset state by another part of the driver. -/
inductive VfEvent
  | mbox (e : Event)
  | reset (now : ResetState)
  deriving DecidableEq, Repr

/-- The notification that the VF takes from the hardware in a step. A response to one of its
requests is none. -/
def arrivals (s : State) (incoming : Option Raw) : List Raw :=
  if s.worker = .rxHead then
    (incoming.filter fun raw => raw.answers.isNone && (qdmaMboxVfRcvMsgHandler raw).isSome).toList
  else []

/-- The reset state that the handling of the message in hand sets. -/
def moved (s : State) (oom : Bool) : Option ResetState :=
  if s.rxPendList = [] ∧ oom = false then s.worker.inHand.bind notifiedState else none

/-- The state after a step. -/
def vfStep (v : VfState) : VfEvent → VfState
  | .reset now =>
    { v with mbox := step .vf v.mbox (.reset (decide (now = .invalid))), resetState := now }
  | .mbox (.reset _) => v
  | .mbox (.rcv incoming offline oom ret resp) =>
    { v with
      mbox := step .vf v.mbox (.rcv incoming offline oom ret resp)
      arrived := v.arrived ++ arrivals v.mbox incoming }
  | .mbox (.rxHandle oom) =>
    let mbox := step .vf v.mbox (.rxHandle oom)
    let sent := mbox.txTodoList.drop v.mbox.txTodoList.length
    { v with
      mbox := mbox
      resetState := (moved v.mbox oom).getD v.resetState
      responses := v.responses ++ sent.map fun m => (mbox.msgs m).raw
      moves := v.moves ++ (moved v.mbox oom).toList }
  | .mbox e => { v with mbox := step .vf v.mbox e }

/-- Between two messages, every notification has its response and has moved the reset state, and
nothing else has. -/
def Notified (v : VfState) : Prop :=
  v.mbox.worker.inHand = none →
    v.responses = v.arrived.filterMap qdmaMboxVfRcvMsgHandler ∧
      v.moves = v.arrived.filterMap notifiedState

/-- The steps that hear a notification: it comes to a device that is not offline, and when it is
handled no request is pending, there is memory for the response, and the reset state is valid
unless the notification makes it so. -/
def Heard (v : VfState) : VfEvent → Prop
  | .mbox (.rcv incoming offline _ _ _) => arrivals v.mbox incoming ≠ [] → offline = false
  | .mbox (.rxHandle oom) =>
    ∀ raw ∈ v.mbox.worker.inHand, (qdmaMboxVfRcvMsgHandler raw).isSome →
      v.mbox.rxPendList = [] ∧ oom = false ∧
        (v.resetState = .invalid → MboxOp.fromByte raw.op = some .resetDone)
  | _ => True

instance (v : VfState) (e : VfEvent) : Decidable (Heard v e) := by
  unfold Heard
  split <;> infer_instance

/-- What holds between the steps of a VF that hears its notifications. -/
structure Hearing (v : VfState) : Prop where
  invalid : v.mbox.resetInvalid = decide (v.resetState = .invalid)
  unmatched : ∀ m raw, v.mbox.worker.matched = some (some m, raw) →
    qdmaMboxVfRcvMsgHandler raw = none
  responses : v.arrived.filterMap qdmaMboxVfRcvMsgHandler =
    v.responses ++ (v.mbox.worker.inHand.bind qdmaMboxVfRcvMsgHandler).toList
  moves : v.arrived.filterMap notifiedState =
    v.moves ++ (v.mbox.worker.inHand.bind notifiedState).toList

/-! ## Opcodes -/

/-- The response and the reset state belong to the same messages. -/
theorem isSome_notifiedState (raw : Raw) :
    (notifiedState raw).isSome = (qdmaMboxVfRcvMsgHandler raw).isSome := by
  unfold notifiedState qdmaMboxVfRcvMsgHandler
  rcases MboxOp.fromByte raw.op with - | op
  · rfl
  · cases op <;> rfl

/-- The opcode of a response is none of a notification. -/
theorem handler_of_response {raw : Raw} {op : ℕ} (h : raw.op = op + MBOX_MSG_OP_RSP_OFFSET) :
    qdmaMboxVfRcvMsgHandler raw = none := by
  have hnone : MboxOp.fromByte raw.op = none := by
    unfold MboxOp.fromByte
    rw [h]
    refine List.getElem?_eq_none ?_
    have hlength : MboxOp.all.length = 21 := rfl
    unfold MBOX_MSG_OP_RSP_OFFSET
    omega
  unfold qdmaMboxVfRcvMsgHandler
  rw [hnone]

/-! ## Steps that handle no message -/

/-- The reset state and the message in hand are as they were. -/
def Quiet (s s' : State) : Prop :=
  s'.resetInvalid = s.resetInvalid ∧ s'.worker.matched = s.worker.matched

variable {s s' s'' : State} {m : ℕ}

theorem Quiet.refl (s : State) : Quiet s s := ⟨rfl, rfl⟩

theorem Quiet.trans (h : Quiet s s') (h' : Quiet s' s'') : Quiet s s'' :=
  ⟨h'.1.trans h.1, h'.2.trans h.2⟩

/-- The account of ownership has no part in it. -/
theorem Quiet.of_plain (h : s'.plain.resetInvalid = s.plain.resetInvalid)
    (hwork : s'.plain.worker = s.plain.worker) : Quiet s s' :=
  ⟨h, congrArg Worker.matched hwork⟩

theorem quiet_access (s : State) (m : ℕ) : Quiet s (s.access m) :=
  .of_plain (by rw [State.plain_access]) (by rw [State.plain_access])

theorem quiet_free (s : State) (m : ℕ) : Quiet s (s.free m) :=
  .of_plain (by rw [State.plain_free]) (by rw [State.plain_free])

theorem quiet_write (s : State) (m : ℕ) (f : MboxMsg → MboxMsg) : Quiet s (s.write m f) :=
  .of_plain (by rw [State.plain_write]) (by rw [State.plain_write])

theorem quiet_listDel (s : State) (m : ℕ) : Quiet s (s.listDel m) :=
  .of_plain (by rw [State.plain_listDel]) (by rw [State.plain_listDel])

theorem quiet_listAddTodo (s : State) (m : ℕ) : Quiet s (s.listAddTodo m) :=
  .of_plain (by rw [State.plain_listAddTodo]) (by rw [State.plain_listAddTodo])

theorem quiet_listAddPend (s : State) (m : ℕ) : Quiet s (s.listAddPend m) :=
  .of_plain (by rw [State.plain_listAddPend]) (by rw [State.plain_listAddPend])

/-- A sender goes on. -/
theorem Quiet.sendersTo (h : Quiet s s') (m : ℕ) (now : Sender) :
    Quiet s (s'.sendersTo m now) := h

/-- The work goes on between two messages. -/
theorem Quiet.workAt (h : Quiet s s') {work : Worker} (hwas : s.worker.matched = none)
    (hnow : work.matched = none) : Quiet s (s'.workAt work) := ⟨h.1, hnow.trans hwas.symm⟩

theorem quiet_send (s : State) (m : ℕ) (side : Side) (waitResp : Bool) (timeoutMs : ℕ) :
    Quiet s (s.send m side waitResp timeoutMs) := by
  unfold State.send
  extract_lets s₁
  have hwrite : Quiet s s₁ := quiet_write ..
  have hadd := hwrite.trans (quiet_listAddTodo s₁ m)
  split
  · split
    · exact hwrite.sendersTo m _
    · exact hwrite
  · split
    · exact hadd.sendersTo m _
    · exact hadd

theorem quiet_wake (s : State) (m : ℕ) : Quiet s (wake s m) := by
  unfold wake
  split
  · exact (quiet_access s m).sendersTo m _
  · exact .refl s

theorem quiet_expire (s : State) (m : ℕ) : Quiet s (expire s m) := by
  unfold expire
  split
  · exact (quiet_access s m).sendersTo m _
  · exact .refl s

theorem quiet_abandon (s : State) (m : ℕ) : Quiet s (abandon s m) := by
  unfold abandon
  split
  · exact (quiet_listDel s m).sendersTo m _
  · exact .refl s

theorem quiet_finish (side : Side) (s : State) (m : ℕ) : Quiet s (finish side s m) := by
  unfold finish
  split
  · rename_i rv _
    have hread : Quiet s (if rv = 0 then s.access m else s) := by
      split
      · exact quiet_access s m
      · exact .refl s
    exact (hread.trans (quiet_free _ m)).sendersTo m _
  · exact (Quiet.refl s).sendersTo m _
  · exact .refl s

theorem quiet_start (s : State) {work : Worker} (hwork : work.matched = none) :
    Quiet s (start s work) := by
  unfold start
  split
  · rename_i hidle
    refine (Quiet.refl s).workAt ?_ hwork
    rw [hidle]
    rfl
  · exact .refl s

theorem quiet_txTake (s : State) : Quiet s (txTake s) := by
  unfold txTake
  split
  · rename_i hw _
    exact (Quiet.refl s).workAt (by rw [hw]; rfl) rfl
  · rename_i hw _
    exact (Quiet.refl s).workAt (by rw [hw]; rfl) rfl
  · exact .refl s

theorem quiet_txSendDone (hw : s.worker = .txSend m) (busy offline : Bool) :
    Quiet s (txSendDone s m busy offline) := by
  have hwas : s.worker.matched = none := by
    rw [hw]
    rfl
  have hread := quiet_access s m
  unfold txSendDone
  extract_lets s₁ s₂
  have hretry : Quiet s s₂ := hread.trans (quiet_write ..)
  split
  · exact Quiet.workAt hread hwas rfl
  · split
    · exact (hread.trans (quiet_free ..)).workAt hwas rfl
    · split
      · exact hread.workAt hwas rfl
      · split
        · exact ((hretry.trans (quiet_listDel ..)).trans (quiet_free ..)).workAt hwas rfl
        · exact hretry.workAt hwas rfl

theorem quiet_txHw (s : State) (busy offline : Bool) : Quiet s (txHw s busy offline) := by
  unfold txHw
  split
  · rename_i m hw
    exact quiet_txSendDone hw busy offline
  · exact .refl s

theorem quiet_txRemove (s : State) : Quiet s (txRemove s) := by
  unfold txRemove
  split
  · rename_i m hw
    exact (quiet_listDel s m).workAt (by rw [hw]; rfl) rfl
  · exact .refl s

theorem quiet_txSettle (s : State) : Quiet s (txSettle s) := by
  unfold txSettle
  split
  · rename_i m hw
    have hwas : s.worker.matched = none := by
      rw [hw]
      rfl
    dsimp only
    split
    · exact ((quiet_access s m).trans (quiet_listAddPend ..)).workAt hwas rfl
    · exact ((quiet_access s m).trans (quiet_free ..)).workAt hwas rfl
  · exact .refl s

theorem quiet_rxRemove (s : State) : Quiet s (rxRemove s) := by
  unfold rxRemove
  split
  · rename_i m rcv hw
    exact (quiet_listDel s m).workAt (by rw [hw]; rfl) rfl
  · exact .refl s

theorem quiet_rxCopy (s : State) : Quiet s (rxCopy s) := by
  unfold rxCopy
  split
  · rename_i m rcv hw
    exact (quiet_write s m _).workAt (by rw [hw]; rfl) rfl
  · exact .refl s

/-- A step keeps what is heard when nothing comes and nothing is handled. -/
theorem Hearing.quiet {v : VfState} (h : Hearing v) {mbox : State} (hquiet : Quiet v.mbox mbox) :
    Hearing { v with mbox := mbox } := by
  obtain ⟨hreset, hwork⟩ := hquiet
  refine ⟨hreset.trans h.invalid, fun m raw hm => h.unmatched m raw (hwork.symm.trans hm), ?_, ?_⟩
  · show _ = v.responses ++ ((mbox.worker.matched.map Prod.snd).bind qdmaMboxVfRcvMsgHandler).toList
    rw [hwork]
    exact h.responses
  · show _ = v.moves ++ ((mbox.worker.matched.map Prod.snd).bind notifiedState).toList
    rw [hwork]
    exact h.moves

/-! ## Receipt of a message -/

/-- A message that is no response to a request is a notification, if the VF answers it. -/
theorem arrivals_of_genuine {raw : Raw} (hw : s.worker = .rxHead) (h : Genuine s raw) :
    arrivals s (some raw) = if (qdmaMboxVfRcvMsgHandler raw).isSome then [raw] else [] := by
  unfold arrivals
  rw [if_pos hw]
  cases hanswers : raw.answers with
  | none =>
    cases hhandler : qdmaMboxVfRcvMsgHandler raw with
    | none => simp [hanswers, hhandler]
    | some resp => simp [hanswers, hhandler]
  | some m =>
    have hhandler : qdmaMboxVfRcvMsgHandler raw = none := handler_of_response (h m hanswers).2
    simp [hanswers, hhandler]

theorem vfRcvOneMsg_quiet (s : State) (raw : Raw) :
    (vfRcvOneMsg s raw).resetInvalid = s.resetInvalid ∧
      (vfRcvOneMsg s raw).worker.matched = some (s.matching raw, raw) := by
  unfold vfRcvOneMsg
  split
  · rename_i mSnd hmatch
    rw [hmatch]
    exact ⟨(quiet_write s mSnd fun msg => { msg with respOpMatched := true }).1, rfl⟩
  · rename_i hmatch
    rw [hmatch]
    exact ⟨rfl, rfl⟩

/-- A message that comes is in hand, and is the notification that has come if it is one. -/
theorem Hearing.vfRcvOneMsg {v : VfState} (h : Hearing v) (hw : v.mbox.worker = .rxHead) {raw : Raw}
    (hgenuine : Genuine v.mbox raw) :
    Hearing { v with
      mbox := Transport.vfRcvOneMsg v.mbox raw
      arrived := v.arrived ++ arrivals v.mbox (some raw) } := by
  obtain ⟨hreset, hmatched⟩ := vfRcvOneMsg_quiet v.mbox raw
  have hempty : v.mbox.worker.inHand = none := by
    rw [hw]
    rfl
  have hresponses := h.responses
  have hmoves := h.moves
  rw [hempty] at hresponses hmoves
  have hsome := isSome_notifiedState raw
  rw [arrivals_of_genuine hw hgenuine]
  refine ⟨hreset.trans h.invalid, fun m raw' hm => ?_, ?_, ?_⟩
  · have hfound : some (v.mbox.matching raw, raw) = some (some m, raw') := hmatched.symm.trans hm
    simp only [Option.some.injEq, Prod.mk.injEq] at hfound
    obtain ⟨hfound, rfl⟩ := hfound
    have hresponse := List.find?_some hfound
    rw [qdmaMboxIsMsgResponse, beq_iff_eq] at hresponse
    exact handler_of_response hresponse.symm
  · show (v.arrived ++ _).filterMap _ = v.responses ++ Option.toList
      (((Transport.vfRcvOneMsg v.mbox raw).worker.matched.map Prod.snd).bind _)
    rw [hmatched, List.filterMap_append, hresponses]
    cases hhandler : qdmaMboxVfRcvMsgHandler raw with
    | none => simp [hhandler]
    | some resp => simp [hhandler]
  · show (v.arrived ++ _).filterMap _ = v.moves ++ Option.toList
      (((Transport.vfRcvOneMsg v.mbox raw).worker.matched.map Prod.snd).bind _)
    rw [hmatched, List.filterMap_append, hmoves, ← hsome]
    cases hnotified : notifiedState raw with
    | none => simp [hnotified]
    | some now => simp [hnotified]

theorem Hearing.rcv {v : VfState} (h : Hearing v) {incoming : Option Raw} {offline oom : Bool}
    {ret : ℤ} {resp : Raw} (hheard : arrivals v.mbox incoming ≠ [] → offline = false) :
    Hearing (vfStep v (.mbox (.rcv incoming offline oom ret resp))) := by
  have hnothing : ∀ {mbox : State}, Quiet v.mbox mbox → arrivals v.mbox incoming = [] →
      Hearing { v with mbox := mbox, arrived := v.arrived ++ arrivals v.mbox incoming } := by
    intro mbox hquiet hempty
    rw [hempty, List.append_nil]
    exact h.quiet hquiet
  unfold vfStep
  dsimp only [Transport.step]
  by_cases hw : v.mbox.worker = .rxHead
  · have hmatched : v.mbox.worker.matched = none := by
      rw [hw]
      rfl
    have hidle : Quiet v.mbox (v.mbox.workAt .idle) := (Quiet.refl v.mbox).workAt hmatched rfl
    unfold Transport.rcv
    rw [if_neg (not_not.mpr hw)]
    cases incoming with
    | none => exact hnothing hidle (by simp [arrivals])
    | some raw =>
      dsimp only
      split
      · rename_i hgenuine
        refine hnothing (.refl v.mbox) ?_
        -- only a response can fail to be one
        cases hanswers : raw.answers with
        | none =>
          refine absurd (fun m hm => ?_) hgenuine
          rw [hanswers] at hm
          cases hm
        | some m => simp [arrivals, hanswers]
      · rename_i hgenuine
        split
        · rename_i hoffline
          refine hnothing hidle ?_
          by_contra hne
          rw [hheard hne] at hoffline
          cases hoffline
        · exact h.vfRcvOneMsg hw (not_not.mp hgenuine)
  · unfold Transport.rcv
    rw [if_pos hw]
    exact hnothing (.refl v.mbox) (if_neg hw)

/-! ## Handling of a message -/

theorem Worker.matched_eq {work : Worker} {mSnd : Option ℕ} {raw : Raw}
    (h : work.matched = some (mSnd, raw)) : work = .rxMatched mSnd raw := by
  cases work <;> cases h
  rfl

@[simp] theorem Worker.matched_afterHandle (mSnd : Option ℕ) (raw : Raw) :
    (Worker.afterHandle mSnd raw).matched = none := by
  cases mSnd <;> rfl

/-- A response is handed over unless the reset state is invalid. -/
theorem sendResponse (s : State) (resp : Raw) (timeoutMs : ℕ) :
    ((s.alloc resp).send s.next .vf false timeoutMs).txTodoList =
        s.txTodoList ++ (if s.resetInvalid then [] else [s.next]) ∧
      (((s.alloc resp).send s.next .vf false timeoutMs).msgs s.next).raw = resp := by
  have halloc : ((s.alloc resp).msgs s.next).raw = resp := by
    show (Function.update s.msgs s.next _ s.next).raw = resp
    rw [Function.update_self]
  unfold State.send
  extract_lets s₁
  have hraw : (s₁.msgs s.next).raw = resp := by
    show (Function.update (s.alloc resp).msgs s.next _ s.next).raw = resp
    rw [Function.update_self]
    exact halloc
  have hplain : s₁.plain = { (s.alloc resp).plain with msgs := s₁.msgs } :=
    State.plain_write (s.alloc resp) s.next _
  have htodo : s₁.plain.txTodoList = s.txTodoList := by
    rw [hplain]
    rfl
  have hinvalid : s₁.resetInvalid = s.resetInvalid := by
    show s₁.plain.resetInvalid = _
    rw [hplain]
    rfl
  simp only [true_and, Bool.false_eq_true, if_false, hinvalid]
  split
  · exact ⟨htodo.trans (List.append_nil _).symm, hraw⟩
  · constructor
    · rw [← htodo]
      exact congrArg State.txTodoList (State.plain_listAddTodo s₁ s.next)
    · rw [State.listAddTodo_msgs]
      exact hraw

/-- The response that the VF hands over: the end of a reset makes the reset state valid before
it, a reset or the end of the PF behind it. -/
def sentResponses (s : State) (raw : Raw) : List ℕ :=
  if (qdmaMboxVfRcvMsgHandler raw).isSome ∧
      ¬ (s.resetInvalid ∧ MboxOp.fromByte raw.op ≠ some .resetDone) then [s.next] else []

theorem vfRespond_spec (s : State) (raw : Raw) :
    (vfRespond s raw).txTodoList = s.txTodoList ++ sentResponses s raw ∧
      (∀ resp ∈ qdmaMboxVfRcvMsgHandler raw, ((vfRespond s raw).msgs s.next).raw = resp) ∧
      (vfRespond s raw).resetInvalid =
        (s.resetInvalid && (qdmaMboxVfRcvMsgHandler raw).isNone) := by
  cases hhandler : qdmaMboxVfRcvMsgHandler raw with
  | none =>
    have hrespond : vfRespond s raw = s.alloc {} := by
      unfold vfRespond
      rw [hhandler]
      rfl
    rw [hrespond, sentResponses, hhandler]
    refine ⟨(List.append_nil _).symm, fun resp hresp => (by cases hresp), ?_⟩
    exact (Bool.and_true _).symm
  | some resp =>
    by_cases hdone : MboxOp.fromByte raw.op = some .resetDone
    · have hrespond : vfRespond s raw =
          { (({ s with resetInvalid := false }).alloc resp).send s.next .vf false
              QDMA_MBOX_MSG_TIMEOUT_MS with resetInvalid := false } := by
        unfold vfRespond
        rw [hhandler]
        dsimp only
        rw [if_pos hdone]
        rfl
      obtain ⟨htodo, hraw⟩ :=
        sendResponse { s with resetInvalid := false } resp QDMA_MBOX_MSG_TIMEOUT_MS
      have hsent : sentResponses s raw = [s.next] := by
        rw [sentResponses, hhandler]
        exact if_pos ⟨rfl, fun h => h.2 hdone⟩
      rw [hrespond, hsent]
      exact ⟨htodo, fun r hr => (by cases hr; exact hraw), (Bool.and_false _).symm⟩
    · have hrespond : vfRespond s raw =
          { (s.alloc resp).send s.next .vf false QDMA_MBOX_MSG_TIMEOUT_MS with
            resetInvalid := false } := by
        unfold vfRespond
        rw [hhandler]
        dsimp only
        rw [if_neg hdone]
        rfl
      obtain ⟨htodo, hraw⟩ := sendResponse s resp QDMA_MBOX_MSG_TIMEOUT_MS
      have hsent : sentResponses s raw = if s.resetInvalid then [] else [s.next] := by
        rw [sentResponses, hhandler]
        cases s.resetInvalid with
        | false => exact if_pos ⟨rfl, fun h => absurd h.1 Bool.false_ne_true⟩
        | true => exact if_neg fun h => h.2 ⟨rfl, hdone⟩
      rw [hrespond, hsent]
      exact ⟨htodo, fun r hr => (by cases hr; exact hraw), (Bool.and_false _).symm⟩

/-- What a step that handles a message does. -/
theorem rxHandle_spec {mSnd : Option ℕ} {raw : Raw} {oom : Bool}
    (hw : s.worker.matched = some (mSnd, raw)) :
    (rxHandle s oom).worker.matched = none ∧
      (rxHandle s oom).resetInvalid =
        (s.resetInvalid && (moved s oom).isNone) ∧
      ((rxHandle s oom).txTodoList.drop s.txTodoList.length).map
          (fun m => ((rxHandle s oom).msgs m).raw) =
        if s.rxPendList = [] ∧ oom = false ∧
            ¬ (s.resetInvalid ∧ MboxOp.fromByte raw.op ≠ some .resetDone) then
          (qdmaMboxVfRcvMsgHandler raw).toList
        else [] := by
  have hinHand : s.worker.inHand = some raw := by
    unfold Worker.inHand
    rw [hw]
    rfl
  have hmoved : moved s oom =
      if s.rxPendList = [] ∧ oom = false then notifiedState raw else none := by
    unfold moved
    rw [hinHand]
    rfl
  rw [hmoved]
  have hwork := Worker.matched_eq hw
  unfold rxHandle
  rw [hwork]
  dsimp only
  by_cases hpend : s.rxPendList = []
  · cases oom with
    | true =>
      rw [if_neg (not_not.mpr hpend), if_pos rfl, if_neg (by simp), if_neg (by simp)]
      refine ⟨rfl, (Bool.and_true _).symm, ?_⟩
      show List.map _ (List.drop _ s.txTodoList) = []
      rw [List.drop_length]
      rfl
    | false =>
      obtain ⟨htodo, hraw, hinvalid⟩ := vfRespond_spec s raw
      rw [if_neg (not_not.mpr hpend), if_neg Bool.false_ne_true, if_pos ⟨hpend, rfl⟩]
      refine ⟨Worker.matched_afterHandle mSnd raw, ?_, ?_⟩
      · rw [← Option.not_isSome, isSome_notifiedState, Option.not_isSome]
        exact hinvalid
      · show List.map (fun m => ((vfRespond s raw).msgs m).raw)
          (List.drop _ (vfRespond s raw).txTodoList) = _
        rw [htodo, List.drop_left, sentResponses]
        cases hhandler : qdmaMboxVfRcvMsgHandler raw with
        | none => simp
        | some resp =>
          simp only [Option.isSome_some, true_and, hpend]
          split
          · rw [List.map_singleton, hraw resp hhandler]
            rfl
          · rfl
  · rw [if_pos hpend, if_neg fun h => hpend h.1, if_neg fun h => hpend h.1]
    refine ⟨Worker.matched_afterHandle mSnd raw, (Bool.and_true _).symm, ?_⟩
    show List.map _ (List.drop _ s.txTodoList) = []
    rw [List.drop_length]
    rfl

theorem notifiedState_ne_invalid (raw : Raw) : notifiedState raw ≠ some .invalid := by
  unfold notifiedState
  rcases MboxOp.fromByte raw.op with - | op
  · exact (Option.some_ne_none _).symm
  · cases op <;> decide

theorem moved_ne_invalid (s : State) (oom : Bool) : moved s oom ≠ some .invalid := by
  unfold moved
  split
  · cases s.worker.inHand with
    | none => exact (Option.some_ne_none _).symm
    | some raw => exact notifiedState_ne_invalid raw
  · exact (Option.some_ne_none _).symm

/-- Nothing happens where no message is in hand. -/
theorem vfStep_rxHandle_none {v : VfState} (hw : v.mbox.worker.matched = none) (oom : Bool) :
    vfStep v (.mbox (.rxHandle oom)) = v := by
  have hstay : rxHandle v.mbox oom = v.mbox := by
    unfold rxHandle
    cases hwork : v.mbox.worker with
    | rxMatched mSnd raw =>
      rw [hwork] at hw
      cases hw
    | _ => rfl
  have hmoved : moved v.mbox oom = none := by
    unfold moved Worker.inHand
    rw [hw]
    exact ite_self none
  unfold vfStep
  dsimp only [Transport.step]
  rw [hstay, hmoved, List.drop_length]
  simp

/-- What the handling of a message adds to the records. -/
theorem vfStep_rxHandle_some {v : VfState} {mSnd : Option ℕ} {raw : Raw}
    (hw : v.mbox.worker.matched = some (mSnd, raw)) (oom : Bool) :
    (vfStep v (.mbox (.rxHandle oom))).mbox.worker.matched = none ∧
      (vfStep v (.mbox (.rxHandle oom))).responses =
        v.responses ++ (if v.mbox.rxPendList = [] ∧ oom = false ∧
            ¬ (v.mbox.resetInvalid ∧ MboxOp.fromByte raw.op ≠ some .resetDone) then
          (qdmaMboxVfRcvMsgHandler raw).toList
        else []) ∧
      (vfStep v (.mbox (.rxHandle oom))).moves = v.moves ++
        (if v.mbox.rxPendList = [] ∧ oom = false then notifiedState raw else none).toList := by
  obtain ⟨hmatched, -, hsent⟩ := @rxHandle_spec _ _ _ oom hw
  refine ⟨hmatched, congrArg (v.responses ++ ·) hsent, ?_⟩
  show v.moves ++ (moved v.mbox oom).toList = _
  unfold moved Worker.inHand
  rw [hw]
  rfl

theorem Hearing.rxHandle {v : VfState} (h : Hearing v) {oom : Bool}
    (hheard : Heard v (.mbox (.rxHandle oom))) : Hearing (vfStep v (.mbox (.rxHandle oom))) := by
  cases hw : v.mbox.worker.matched with
  | none =>
    rw [vfStep_rxHandle_none hw]
    exact h
  | some found =>
    obtain ⟨mSnd, raw⟩ := found
    have hinHand : v.mbox.worker.inHand = some raw := by
      unfold Worker.inHand
      rw [hw]
      rfl
    have hresponses := h.responses
    have hmoves := h.moves
    rw [hinHand, Option.bind_some] at hresponses hmoves
    obtain ⟨hmatched, hsent, hmoved⟩ := vfStep_rxHandle_some hw oom
    have hempty : (vfStep v (.mbox (.rxHandle oom))).mbox.worker.inHand = none := by
      unfold Worker.inHand
      rw [hmatched]
      rfl
    have hsome := isSome_notifiedState raw
    refine ⟨?_, fun m raw' hm => ?_, ?_, ?_⟩
    · have hinvalid := (@rxHandle_spec _ _ _ oom hw).2.1
      have hnow := moved_ne_invalid v.mbox oom
      show (Transport.rxHandle v.mbox oom).resetInvalid =
        decide ((moved v.mbox oom).getD v.resetState = .invalid)
      rw [hinvalid, h.invalid]
      cases hmove : moved v.mbox oom with
      | none => exact Bool.and_true _
      | some now =>
        have hne : now ≠ .invalid := fun heq => hnow (by rw [hmove, heq])
        simp [hne]
    · rw [hmatched] at hm
      cases hm
    · rw [hempty, hsent]
      show v.arrived.filterMap _ = _ ++ Option.toList none
      rw [hresponses]
      cases hhandler : qdmaMboxVfRcvMsgHandler raw with
      | none => simp
      | some resp =>
        obtain ⟨hpend, hmemory, hvalid⟩ := hheard raw hinHand (by rw [hhandler]; rfl)
        have hvalid' : ¬ (v.mbox.resetInvalid ∧ MboxOp.fromByte raw.op ≠ some .resetDone) := by
          rw [h.invalid, decide_eq_true_iff]
          exact fun hnot => hnot.2 (hvalid hnot.1)
        rw [if_pos ⟨hpend, hmemory, hvalid'⟩]
        exact (List.append_nil _).symm
    · rw [hempty, hmoved]
      show v.arrived.filterMap _ = _ ++ Option.toList none
      rw [hmoves]
      cases hhandler : qdmaMboxVfRcvMsgHandler raw with
      | none =>
        have hnone : notifiedState raw = none := by
          rw [hhandler] at hsome
          exact Option.isSome_eq_false_iff.mp hsome |> Option.isNone_iff_eq_none.mp
        rw [hnone]
        simp
      | some resp =>
        obtain ⟨hpend, hmemory, -⟩ := hheard raw hinHand (by rw [hhandler]; rfl)
        rw [if_pos ⟨hpend, hmemory⟩]
        exact (List.append_nil _).symm

/-! ## Runs -/

theorem Hearing.notified {v : VfState} (h : Hearing v) : Notified v := by
  intro hempty
  have hresponses := h.responses
  have hmoves := h.moves
  rw [hempty] at hresponses hmoves
  exact ⟨(hresponses.trans (List.append_nil _)).symm, (hmoves.trans (List.append_nil _)).symm⟩

/-- A step that hears its notification keeps what is heard. -/
theorem Hearing.step {v : VfState} (h : Hearing v) {e : VfEvent} (hheard : Heard v e) :
    Hearing (vfStep v e) := by
  cases e with
  | reset now =>
    exact ⟨rfl, h.unmatched, h.responses, h.moves⟩
  | mbox e =>
    cases e with
    | send raw waitResp timeoutMs =>
      have halloc : Quiet v.mbox (v.mbox.alloc raw) := ⟨rfl, rfl⟩
      exact h.quiet (halloc.trans (quiet_send ..))
    | wake m => exact h.quiet (quiet_wake ..)
    | expire m => exact h.quiet (quiet_expire ..)
    | abandon m => exact h.quiet (quiet_abandon ..)
    | finish m => exact h.quiet (quiet_finish ..)
    | startTx => exact h.quiet (quiet_start _ rfl)
    | startRx => exact h.quiet (quiet_start _ rfl)
    | txTake => exact h.quiet (quiet_txTake _)
    | txHw busy offline => exact h.quiet (quiet_txHw ..)
    | txRemove => exact h.quiet (quiet_txRemove _)
    | txSettle => exact h.quiet (quiet_txSettle _)
    | rcv incoming offline oom ret resp => exact h.rcv hheard
    | rxHandle oom => exact h.rxHandle hheard
    | rxRemove => exact h.quiet (quiet_rxRemove _)
    | rxCopy => exact h.quiet (quiet_rxCopy _)
    | reset invalid => exact h

end OnicDriver.Transport
