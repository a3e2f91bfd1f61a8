import OnicDriver.Lib.Runs
import OnicDriver.Mailbox.Handler

/-!
# Mailbox transport

Messages on their way from `qdma_mbox_msg_send` through the transmit and receive
work. The parties take steps in any order, each of them one critical section of
the code. The two works never run at once: their queue has a single thread.
-/

namespace OnicDriver.Transport

open Mailbox Resource

/-- The driver of a PF or that of a VF, which differ in how they receive. -/
inductive Side
  | pf
  | vf
  deriving DecidableEq, Repr

/-- The header of a message, and the request for which another function made it, if it is a
response. No register holds the latter. -/
structure Raw where
  op : ℕ := 0
  srcFuncId : ℕ := 0
  dstFuncId : ℕ := 0
  answers : Option ℕ := none
  deriving DecidableEq, Repr

/-- `struct mbox_msg`. -/
structure MboxMsg where
  raw : Raw := {}
  waitResp : Bool := false
  respOpMatched : Bool := false
  retryCnt : ℕ := 0
  deriving DecidableEq, Repr

/-- Where the sender of a message is. -/
inductive Sender
  | unborn
  | waiting
  | timedOut
  /-- `qdma_mbox_msg_send` has returned, and the caller still has the message. -/
  | returned (rv : ℤ)
  /-- The caller does not use the message any more. -/
  | finished
  deriving DecidableEq, Repr

/-- Where the thread of the work queue is, between two critical sections. -/
inductive Worker
  | idle
  | txHead
  | txSend (m : ℕ)
  | txSent (m : ℕ)
  | txUnlisted (m : ℕ)
  | rxHead
  | rxMatched (mSnd : Option ℕ) (rcv : Raw)
  | rxFound (m : ℕ) (rcv : Raw)
  | rxRemoved (m : ℕ) (rcv : Raw)
  deriving DecidableEq, Repr

/-- What must not happen to a message. -/
inductive Misuse
  | access (m : ℕ)
  | unlisted (m : ℕ)
  | relisted (m : ℕ)
  | doubleFree (m : ℕ)
  deriving DecidableEq, Repr

/-- The messages that were allocated, the lists of `struct qdma_mbox`, and the parties. An
address is not used again after it was freed. -/
structure State where
  msgs : ℕ → MboxMsg := fun _ => {}
  next : ℕ := 0
  txTodoList : List ℕ := []
  rxPendList : List ℕ := []
  frees : ℕ → ℕ := fun _ => 0
  sender : ℕ → Sender := fun _ => .unborn
  worker : Worker := .idle
  /-- `RESET_STATE_INVALID` of a VF. -/
  resetInvalid : Bool := false
  /-- The requests written to the hardware, and each request as it was sent. -/
  sent : List ℕ := []
  request : ℕ → Raw := fun _ => {}
  misuses : List Misuse := []

def EINVAL : ℤ := 22
def EPIPE : ℤ := 32

namespace State

variable (s : State) (m : ℕ)

/-- A message is read or written. -/
def access : State :=
  if s.frees m = 0 then s else { s with misuses := s.misuses ++ [.access m] }

/-- A write to a message. -/
def write (f : MboxMsg → MboxMsg) : State :=
  { s.access m with msgs := Function.update s.msgs m (f (s.msgs m)) }

/-- `list_del`. -/
def listDel : State :=
  let s := s.access m
  if m ∈ s.txTodoList ∨ m ∈ s.rxPendList then
    { s with txTodoList := s.txTodoList.erase m, rxPendList := s.rxPendList.erase m }
  else { s with misuses := s.misuses ++ [.unlisted m] }

/-- What `list_add_tail` finds wrong with a message. -/
def relist : State :=
  let s := s.access m
  if m ∈ s.txTodoList ∨ m ∈ s.rxPendList then
    { s with misuses := s.misuses ++ [.relisted m] }
  else s

/-- `list_add_tail` to `tx_todo_list`. -/
def listAddTodo : State := { s.relist m with txTodoList := s.txTodoList ++ [m] }

/-- `list_add_tail` to `rx_pend_list`. -/
def listAddPend : State := { s.relist m with rxPendList := s.rxPendList ++ [m] }

/-- The sender of a message goes on. -/
def sendersTo (now : Sender) : State := { s with sender := Function.update s.sender m now }

/-- `qdma_mbox_msg_free`. The reference count is never more than 1. -/
def free : State :=
  if s.frees m = 0 then { s with frees := Function.update s.frees m 1 }
  else
    { s with
      frees := Function.update s.frees m (s.frees m + 1)
      misuses := s.misuses ++ [.doubleFree m] }

/-- The work goes on. -/
def workAt (work : Worker) : State := { s with worker := work }

/-- `qdma_mbox_msg_alloc` of a message that gets these words. -/
def alloc (raw : Raw) : State :=
  { s with
    msgs := Function.update s.msgs s.next { raw := raw }
    request := Function.update s.request s.next raw
    sender := Function.update s.sender s.next .finished
    next := s.next + 1 }

/-- `qdma_mbox_msg_send` up to its wait. -/
def send (side : Side) (waitResp : Bool) (timeoutMs : ℕ) : State :=
  let s := s.write m fun msg =>
    { msg with
      respOpMatched := false, waitResp := waitResp
      retryCnt := (timeoutMs / 1000 + 1) % 2 ^ 16 }
  if side = .vf ∧ s.resetInvalid then
    if waitResp then s.sendersTo m (.returned (-EINVAL)) else s
  else if waitResp then (s.listAddTodo m).sendersTo m .waiting
  else s.listAddTodo m

/-! ### Operations on a message that may be used -/

variable {s m}

theorem access_of_live (h : s.frees m = 0) : s.access m = s := if_pos h

theorem write_of_live (h : s.frees m = 0) (f : MboxMsg → MboxMsg) :
    s.write m f = { s with msgs := Function.update s.msgs m (f (s.msgs m)) } := by
  rw [write, access_of_live h]

theorem listDel_of_live (h : s.frees m = 0) (hm : m ∈ s.txTodoList ∨ m ∈ s.rxPendList) :
    s.listDel m = { s with
      txTodoList := s.txTodoList.erase m, rxPendList := s.rxPendList.erase m } := by
  rw [listDel, access_of_live h, if_pos hm]

theorem listAddTodo_of_live (h : s.frees m = 0)
    (hm : ¬ (m ∈ s.txTodoList ∨ m ∈ s.rxPendList)) :
    s.listAddTodo m = { s with txTodoList := s.txTodoList ++ [m] } := by
  rw [listAddTodo, relist, access_of_live h, if_neg hm]

theorem listAddPend_of_live (h : s.frees m = 0)
    (hm : ¬ (m ∈ s.txTodoList ∨ m ∈ s.rxPendList)) :
    s.listAddPend m = { s with rxPendList := s.rxPendList ++ [m] } := by
  rw [listAddPend, relist, access_of_live h, if_neg hm]

theorem free_of_live (h : s.frees m = 0) :
    s.free m = { s with frees := Function.update s.frees m 1 } := if_pos h

end State

/-- `qdma_mbox_is_msg_response`. -/
def qdmaMboxIsMsgResponse (sendData rcvData : Raw) : Bool :=
  sendData.op + MBOX_MSG_OP_RSP_OFFSET == rcvData.op

/-- The pending request that a received message is taken to answer. -/
def State.matching (s : State) (rcv : Raw) : Option ℕ :=
  s.rxPendList.find? fun m => qdmaMboxIsMsgResponse (s.msgs m).raw rcv

def QDMA_MBOX_MSG_TIMEOUT_MS : ℕ := 10000

/-- The response of `qdma_mbox_vf_rcv_msg_handler`, if the message is a request of the PF. -/
def qdmaMboxVfRcvMsgHandler (rcv : Raw) : Option Raw :=
  match MboxOp.fromByte rcv.op with
  | some .resetPrepare | some .resetDone | some .pfBye =>
    some { op := rcv.op + MBOX_MSG_OP_RSP_OFFSET, srcFuncId := rcv.dstFuncId
           dstFuncId := rcv.srcFuncId }
  | _ => none

/-! ## Steps -/

/-- A step of one of the parties. -/
inductive Event
  /-- `qdma_mbox_msg_send` is called with a new message. -/
  | send (raw : Raw) (waitResp : Bool) (timeoutMs : ℕ)
  /-- The waiter of a message sees that there is a response. -/
  | wake (m : ℕ)
  /-- The time of a waiter is over. -/
  | expire (m : ℕ)
  /-- The waiter that has seen no response takes the message off its list. -/
  | abandon (m : ℕ)
  /-- The caller of `qdma_mbox_msg_send` has done with the message. -/
  | finish (m : ℕ)
  | startTx
  | startRx
  /-- `mbox_tx_work` takes the first message. -/
  | txTake
  /-- `mbox_hw_send`, where the hardware may be busy and the device offline. -/
  | txHw (busy offline : Bool)
  /-- `mbox_tx_work` removes the message that was sent. -/
  | txRemove
  /-- `mbox_tx_work` keeps the message for its response or frees it. -/
  | txSettle
  /-- `mbox_hw_rcv` and the first critical section of `mbox_rcv_one_msg`. On a PF, `ret` and
  `resp` are what its handler returns. -/
  | rcv (incoming : Option Raw) (offline oom : Bool) (ret : ℤ) (resp : Raw)
  /-- The VF handles a message that comes while no request is pending. -/
  | rxHandle (oom : Bool)
  /-- The VF removes the request that it found. -/
  | rxRemove
  /-- The VF copies the response. -/
  | rxCopy
  /-- The reset state of a VF changes. -/
  | reset (invalid : Bool)
  deriving DecidableEq, Repr

/-- A response is made by the function that a request went to, once it was sent. -/
def Genuine (s : State) (rcv : Raw) : Prop :=
  ∀ m ∈ rcv.answers, m ∈ s.sent ∧ rcv.op = (s.request m).op + MBOX_MSG_OP_RSP_OFFSET

instance (s : State) (rcv : Raw) : Decidable (Genuine s rcv) := by
  unfold Genuine
  infer_instance

/-! ### The sender -/

/-- A waiter that sees its response returns. -/
def wake (s : State) (m : ℕ) : State :=
  if s.sender m = .waiting ∧ (s.msgs m).respOpMatched then
    (s.access m).sendersTo m (.returned 0)
  else s

/-- A waiter whose time is over looks once more. -/
def expire (s : State) (m : ℕ) : State :=
  if s.sender m = .waiting then
    (s.access m).sendersTo m (if (s.msgs m).respOpMatched then .returned 0 else .timedOut)
  else s

/-- A waiter without response takes its message off the list. -/
def abandon (s : State) (m : ℕ) : State :=
  if s.sender m = .timedOut then (s.listDel m).sendersTo m (.returned (-EPIPE)) else s

/-- What the callers do with the message. Those of the PF leave it to the receive work. -/
def finish (side : Side) (s : State) (m : ℕ) : State :=
  match s.sender m, side with
  | .returned rv, .vf => ((if rv = 0 then s.access m else s).free m).sendersTo m .finished
  | .returned _, .pf => s.sendersTo m .finished
  | _, _ => s

/-! ### The transmit work -/

/-- The work queue starts one of its works. -/
def start (s : State) (work : Worker) : State :=
  if s.worker = .idle then s.workAt work else s

/-- The first critical section of `mbox_tx_work`. -/
def txTake (s : State) : State :=
  match s.worker, s.txTodoList with
  | .txHead, [] => s.workAt .idle
  | .txHead, m :: _ => s.workAt (.txSend m)
  | _, _ => s

/-- `mbox_tx_work` after it has tried to send `m`. -/
def txSendDone (s : State) (m : ℕ) (busy offline : Bool) : State :=
  let s := s.access m
  if !busy then { s with sent := m :: s.sent }.workAt (.txSent m)
  else if offline then (s.free m).workAt .idle
  else if (s.msgs m).waitResp then s.workAt .idle
  else
    let s := s.write m fun msg => { msg with retryCnt := (msg.retryCnt + (2 ^ 16 - 1)) % 2 ^ 16 }
    if (s.msgs m).retryCnt = 0 then ((s.listDel m).free m).workAt .idle
    else s.workAt .idle

/-- `mbox_hw_send` and what follows where it fails. -/
def txHw (s : State) (busy offline : Bool) : State :=
  match s.worker with
  | .txSend m => txSendDone s m busy offline
  | _ => s

/-- The second critical section of `mbox_tx_work`. -/
def txRemove (s : State) : State :=
  match s.worker with
  | .txSent m => (s.listDel m).workAt (.txUnlisted m)
  | _ => s

/-- The end of the loop of `mbox_tx_work`. -/
def txSettle (s : State) : State :=
  match s.worker with
  | .txUnlisted m =>
    let s := s.access m
    if (s.msgs m).waitResp then (s.listAddPend m).workAt .txHead else (s.free m).workAt .txHead
  | _ => s

/-! ### The receive work -/

/-- A pending request of the PF gets its response. -/
def pfComplete (s : State) (mSnd : ℕ) (rcv : Raw) : State :=
  let s := s.listDel mSnd
  let s := s.write mSnd fun msg => { msg with raw := rcv, respOpMatched := true }
  s.free mSnd

/-- `mbox_rcv_one_msg` of the PF after its handler has returned. -/
def pfRcvOneMsg (s : State) (rcv : Raw) (ret : ℤ) (resp : Raw) : State :=
  let mResp := s.next
  let s := s.alloc resp
  if ret = QDMA_MBOX_VF_OFFLINE then s.free mResp
  else if ret = QDMA_MBOX_VF_RESET ∨ ret = QDMA_MBOX_PF_RESET_DONE ∨ ret = QDMA_MBOX_PF_BYE then
    match s.matching rcv with
    | some mSnd => (pfComplete s mSnd rcv).free mResp
    | none => s.free mResp
  else s.send mResp .pf false QDMA_MBOX_MSG_TIMEOUT_MS

/-- The first critical section of `mbox_rcv_one_msg` of the VF. -/
def vfRcvOneMsg (s : State) (rcv : Raw) : State :=
  match s.matching rcv with
  | some mSnd =>
    (s.write mSnd fun msg => { msg with respOpMatched := true }).workAt
      (.rxMatched (some mSnd) rcv)
  | none => s.workAt (.rxMatched none rcv)

/-- `mbox_hw_rcv` and the first critical section of `mbox_rcv_one_msg`. -/
def rcv (side : Side) (s : State) (incoming : Option Raw) (offline oom : Bool) (ret : ℤ)
    (resp : Raw) : State :=
  if s.worker ≠ .rxHead then s
  else
    match incoming with
    | none => s.workAt .idle
    | some rcv =>
      if ¬ Genuine s rcv then s
      else if offline then s.workAt .idle
      else
        match side with
        | .pf => if oom then s else pfRcvOneMsg s rcv ret resp
        | .vf => vfRcvOneMsg s rcv

/-- Where the VF goes on after it has looked for requests of the PF. -/
def Worker.afterHandle (mSnd : Option ℕ) (rcv : Raw) : Worker :=
  match mSnd with
  | some m => .rxFound m rcv
  | none => .rxHead

/-- The VF responds to a message that comes while no request is pending. -/
def vfRespond (s : State) (rcv : Raw) : State :=
  let mResp := s.next
  let s := s.alloc ((qdmaMboxVfRcvMsgHandler rcv).getD {})
  match qdmaMboxVfRcvMsgHandler rcv with
  | some _ =>
    -- the end of a reset is noted before the response, its beginning after it
    let s :=
      if MboxOp.fromByte rcv.op = some .resetDone then { s with resetInvalid := false } else s
    { s.send mResp .vf false QDMA_MBOX_MSG_TIMEOUT_MS with resetInvalid := false }
  -- the response that was allocated is not used
  | none => s

/-- `mbox_rcv_one_msg` of the VF between its critical sections. -/
def rxHandle (s : State) (oom : Bool) : State :=
  match s.worker with
  | .rxMatched mSnd rcv =>
    if s.rxPendList ≠ [] then s.workAt (.afterHandle mSnd rcv)
    else if oom then s.workAt .rxHead
    else (vfRespond s rcv).workAt (.afterHandle mSnd rcv)
  | _ => s

/-- The second critical section of `mbox_rcv_one_msg` of the VF. -/
def rxRemove (s : State) : State :=
  match s.worker with
  | .rxFound m rcv => (s.listDel m).workAt (.rxRemoved m rcv)
  | _ => s

/-- The end of `mbox_rcv_one_msg` of the VF. -/
def rxCopy (s : State) : State :=
  match s.worker with
  | .rxRemoved m rcv => (s.write m fun msg => { msg with raw := rcv }).workAt .rxHead
  | _ => s

/-- The state after a step. A party that cannot take the step stays where it is. -/
def step (side : Side) (s : State) : Event → State
  | .send raw waitResp timeoutMs => (s.alloc raw).send s.next side waitResp timeoutMs
  | .wake m => wake s m
  | .expire m => expire s m
  | .abandon m => abandon s m
  | .finish m => finish side s m
  | .startTx => start s .txHead
  | .startRx => start s .rxHead
  | .txTake => txTake s
  | .txHw busy offline => txHw s busy offline
  | .txRemove => txRemove s
  | .txSettle => txSettle s
  | .rcv incoming offline oom ret resp => rcv side s incoming offline oom ret resp
  | .rxHandle oom => rxHandle s oom
  | .rxRemove => rxRemove s
  | .rxCopy => rxCopy s
  | .reset invalid => { s with resetInvalid := invalid }

end OnicDriver.Transport
