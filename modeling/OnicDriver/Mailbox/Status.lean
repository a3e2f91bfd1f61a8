import OnicDriver.Mailbox.Isolation

/-!
# The status of a response

The status of the response to a context request should tell whether the queue
was the sender's to ask about and every hardware access was made and
succeeded. This file finds the requests and the patterns of hardware results
for which it does.
-/

namespace OnicDriver.Mailbox

open Lib Access Resource

/-! ## What a request asks for -/

/-- An operation without the context that it writes. -/
def eraseOp {α : Type} (blank : α) : CtxtOp α → CtxtOp α
  | .write _ => .write blank
  | op => op

/-- An access without the context that it writes. -/
def eraseAccess : HwAccess → HwAccess
  | .swCtx c2h qid op => .swCtx c2h qid (eraseOp {} op)
  | .hwCtx c2h qid op => .hwCtx c2h qid (eraseOp {} op)
  | .creditCtx c2h qid op => .creditCtx c2h qid (eraseOp {} op)
  | .pfetchCtx qid op => .pfetchCtx qid (eraseOp {} op)
  | .cmptCtx qid op => .cmptCtx qid (eraseOp {} op)
  | .qid2vec c2h qid op => .qid2vec c2h qid (eraseOp {} op)
  | .intrCtx ring op => .intrCtx ring (eraseOp {} op)
  | a => a

/-- The accesses of a part of the log that succeeded, in turn. -/
def succeeded (new : HwLog) : List HwAccess :=
  (new.filter fun x => decide (0 ≤ x.2)).map fun x => eraseAccess x.1

/-- The writes of a queue context request. -/
def queueContextWrites (qidHw : ℕ) (st c2h : Bool) (cmptCtxtType : CmptCtxtType)
    (sw : DescqSwCtxt) (pfetch : DescqPrefetchCtxt) (cmpt : DescqCmptCtxt) : List HwAccess :=
  [.swCtx c2h qidHw (.write sw)] ++
    (if st && c2h then [.pfetchCtx qidHw (.write pfetch)] else []) ++
    (if cmptCtxtType.withCmpt then [.cmptCtx qidHw (.write cmpt)] else [])

/-- The tables in which the values of a completion context are looked up. -/
def cmptTables : List HwAccess := [.globalCsr .cntTh, .globalCsr .timerCnt, .globalCsr .ringSz]

/-- The accesses that a queue context request other than a write asks for. -/
def queueRequest (op : ∀ {α : Type}, CtxtOp α) (m : MboxMem) : List HwAccess :=
  if m.cmptCtxtType = .ctxtOnly then [.cmptCtx m.qidHw op]
  else queueContextAccesses op m.qidHw m.st m.c2h m.cmptCtxtType

/-- The accesses that a queue context write asks for: look-ups, clearing and writing. -/
def writeAccesses (qidHw : ℕ) (st c2h : Bool) (cmptCtxtType : CmptCtxtType) : List HwAccess :=
  [.globalCsr .ringSz] ++ ((if st && c2h then [.globalCsr .bufSz] else []) ++
    ((if cmptCtxtType.withCmpt then cmptTables else []) ++
      (queueContextAccesses .clear qidHw st c2h cmptCtxtType ++
        queueContextWrites qidHw st c2h cmptCtxtType {} {} {})))

/-- The accesses that a queue context write asks for. -/
def writeRequest (m : MboxMem) : List HwAccess :=
  if m.cmptCtxtType = .ctxtOnly then
    cmptTables ++ [.cmptCtx m.qidHw .clear, .cmptCtx m.qidHw (.write {})]
  else writeAccesses m.qidHw m.st m.c2h m.cmptCtxtType

/-- The operations on each ring of an interrupt context request. -/
def intrCtxtOps (m : MboxMem) : MboxOp → Option (ℕ → List (CtxtOp IndirectIntrCtxt))
  | .intrCtxtWrt => some fun i => [.clear, .write (m.ictxt i)]
  | .intrCtxtRd => some fun _ => [.read]
  | .intrCtxtClr => some fun _ => [.clear]
  | .intrCtxtInv => some fun _ => [.invalidate]
  | _ => none

/-- The accesses that a context request asks for; other messages are no context requests. -/
def requested (m : MboxMem) : Option (List HwAccess) :=
  (MboxOp.fromByte m.op).bind fun
    | .qctxtClr => some (queueRequest .clear m)
    | .qctxtInv => some (queueRequest .invalidate m)
    | .qctxtRd => some (queueRequest .read m)
    | .qctxtWrt => some (writeRequest m)
    | op => (intrCtxtOps m op).map fun ops => (intrCtxtAccesses m ops).map eraseAccess

/-- The queue that a context request names belongs to its sender; interrupt context requests
name none. -/
def QueueOwned (s : ResourceState) (dmaDeviceIndex : ℕ) (m : MboxMem) : Prop :=
  (MboxOp.fromByte m.op).all (fun op => (intrCtxtOps m op).isNone) →
    Assigned s dmaDeviceIndex m.srcFuncId m.qidHw

instance (s : ResourceState) (dmaDeviceIndex : ℕ) (m : MboxMem) :
    Decidable (QueueOwned s dmaDeviceIndex m) := inferInstanceAs (Decidable (_ → _))

/-- The status of the response to a context request is not negative if and only if the queue
is the sender's and all that the request asks for was done and succeeded. -/
def StatusFaithful (env : HwEnv) (dmaDeviceIndex funcId : ℕ) (m : MboxMem) (s : ResourceState)
    (mem : CallocResults) (log : HwLog) : Prop :=
  ∀ as, requested m = some as →
    (0 ≤ (qdmaMboxPfRcvMsgHandler env dmaDeviceIndex funcId m s mem log).resp.status ↔
      QueueOwned s dmaDeviceIndex m ∧
        as.Sublist (succeeded
          ((qdmaMboxPfRcvMsgHandler env dmaDeviceIndex funcId m s mem log).log.drop log.length)))

/-- The requests and hardware results for which the status is right. -/
def StatusTold (env : HwEnv) (dmaDeviceIndex : ℕ) (m : MboxMem) (s : ResourceState)
    (log : HwLog) : Prop :=
  let owned := Assigned s dmaDeviceIndex m.srcFuncId m.qidHw
  let unknown := qdmaGetDevEntry s dmaDeviceIndex m.srcFuncId = none
  let reset (op : ∀ {α : Type}, CtxtOp α) :=
    if m.cmptCtxtType = .ctxtOnly then owned ∨ env.rv log (.cmptCtx m.qidHw op) < 0
    else owned ∨ unknown
  match MboxOp.fromByte m.op with
  | some .qctxtClr => reset .clear
  | some .qctxtInv => reset .invalidate
  | some .qctxtWrt => owned ∨ unknown
  | some .qctxtRd =>
    (owned ∧ m.cmptCtxtType ≠ .ctxtOnly) ∨
      ∃ r ∈ outcomes env (queueContextAccesses .read m.qidHw m.st m.c2h m.cmptCtxtType) log, r < 0
  | some op =>
    ∀ ops, intrCtxtOps m op = some ops →
      (∀ r ∈ outcomes env (intrCtxtAccesses m ops) log, 0 ≤ r) ∨
        ∃ r ∈ (outcomes env (intrCtxtAccesses m ops) log).getLast?, r < 0
  | none => True

/-! ## Results that tell what was done -/

/-- A result that is an error code exactly when not all of `as` was done. After a failure,
fewer than `bound` accesses have succeeded. -/
structure Accounts (bound : ℕ) (as : List HwAccess) (log : HwLog) (r : ℤ × HwLog) : Prop where
  le : r.1 ≤ 0
  ge : -QDMA_ERR_MBOX_ALL_ZERO_MSG ≤ r.1
  done : ∃ new, r.2 = log ++ new ∧ (r.1 = 0 → succeeded new = as) ∧
    (r.1 < 0 → (succeeded new).length < bound)

section

variable {env : HwEnv} {log : HwLog} {as bs : List HwAccess} {n k : ℕ}

theorem largestCode_le : -QDMA_ERR_MBOX_ALL_ZERO_MSG ≤ 0 := by decide

theorem succeeded_append (l l' : HwLog) : succeeded (l ++ l') = succeeded l ++ succeeded l' := by
  simp [succeeded]

theorem succeeded_map_zero (as : List HwAccess) :
    succeeded (as.map (·, 0)) = as.map eraseAccess := by
  simp [succeeded, List.filter_map, Function.comp_def]

theorem succeeded_failed {a : HwAccess} {rv : ℤ} (h : rv < 0) : succeeded [(a, rv)] = [] := by
  simp [succeeded, h]

theorem Accounts.nil : Accounts 1 [] log (QDMA_SUCCESS, log) :=
  ⟨le_rfl, largestCode_le, [], by simp, fun _ => rfl, fun h => absurd h (lt_irrefl 0)⟩

theorem Accounts.mono (h : Accounts n as log r) (hnk : n ≤ k) : Accounts k as log r := by
  obtain ⟨new, hlog, hok, hfail⟩ := h.done
  exact ⟨h.le, h.ge, new, hlog, hok, fun hneg => (hfail hneg).trans_le hnk⟩

/-- One step after the other. -/
theorem Accounts.unlessFailed {r : ℤ × HwLog} {next : HwLog → ℤ × HwLog} (h : Accounts n as log r)
    (hnext : ∀ log', Accounts k bs log' (next log')) (hn : n ≤ as.length + k) :
    Accounts (as.length + k) (as ++ bs) log (unlessFailed r next) := by
  obtain ⟨new, hlog, hok, hfail⟩ := h.done
  unfold Access.unlessFailed
  split
  · rename_i hneg
    exact ⟨h.le, h.ge, new, hlog, fun hz => absurd hz hneg.ne,
      fun _ => (hfail hneg).trans_le hn⟩
  · rename_i hnn
    have hzero : r.1 = 0 := le_antisymm h.le (not_lt.mp hnn)
    obtain ⟨new', hlog', hok', hfail'⟩ := (hnext r.2).done
    refine ⟨(hnext r.2).le, (hnext r.2).ge, new ++ new', by rw [hlog', hlog]; simp, ?_, ?_⟩
    · intro hz
      rw [succeeded_append, hok hzero, hok' hz]
    · intro hneg
      rw [succeeded_append, hok hzero, List.length_append]
      have := hfail' hneg
      omega

/-- Accesses up to the first failure. -/
theorem performAll_accounts (env : HwEnv) (as : List HwAccess) (log : HwLog) :
    Accounts as.length (as.map eraseAccess) log (performAll env as log) := by
  rcases performAll_cases env as log with hall | ⟨before, a, after, rfl, hneg, heq⟩
  · rw [hall]
    exact ⟨le_rfl, largestCode_le, _, rfl, fun _ => succeeded_map_zero as,
      fun h => absurd h (lt_irrefl 0)⟩
  · rw [heq]
    refine ⟨hneg.le, env.le_rv _ _, _, List.append_assoc _ _ _, fun h => absurd h hneg.ne,
      fun _ => ?_⟩
    rw [succeeded_append, succeeded_map_zero, succeeded_failed hneg]
    simp

/-- A look-up may fail though its table could be read. -/
theorem getCsrIdx_accounts {type : CsrType} {notFound : ℤ} {p : ℕ → Bool} (hpos : 0 < notFound)
    (hcode : notFound ≤ QDMA_ERR_MBOX_ALL_ZERO_MSG) (log : HwLog) :
    Accounts 2 [.globalCsr type] log (composed (getCsrIdx env type notFound p log)) := by
  unfold composed getCsrIdx
  dsimp only [perform]
  by_cases hread : env.rv log (.globalCsr type) = 0
  · have hdone : succeeded [((.globalCsr type : HwAccess), (0 : ℤ))] = [.globalCsr type] := rfl
    rw [if_neg (not_not.mpr hread), hread]
    split
    · exact ⟨le_rfl, largestCode_le, _, rfl, fun _ => hdone, fun h => absurd h (lt_irrefl 0)⟩
    · refine ⟨by omega, by omega, _, rfl, fun h => absurd h (by omega), fun _ => ?_⟩
      rw [hdone]
      exact Nat.one_lt_two
  · have hneg : env.rv log (.globalCsr type) < 0 := lt_of_le_of_ne (env.rv_le _ _) hread
    rw [if_pos hread]
    refine ⟨env.rv_le _ _, env.le_rv _ _, _, rfl, fun h => absurd h hread, fun _ => ?_⟩
    rw [succeeded_failed hneg]
    decide

theorem mboxComposeSwContext_accounts {st c2h : Bool} {conf : MboxDescqConf} (log : HwLog) :
    Accounts 2 [.globalCsr .ringSz] log (composed (mboxComposeSwContext env st c2h conf log)) := by
  rw [mboxComposeSwContext_composed]
  exact (getCsrIdx_accounts (by decide) (by decide) log).unlessFailed
    (fun _ => Accounts.nil) le_rfl

theorem mboxComposePrefetchContext_accounts {conf : MboxDescqConf} (log : HwLog) :
    Accounts 2 [.globalCsr .bufSz] log (composed (mboxComposePrefetchContext env conf log)) := by
  rw [mboxComposePrefetchContext_composed]
  exact (getCsrIdx_accounts (by decide) (by decide) log).unlessFailed
    (fun _ => Accounts.nil) le_rfl

theorem mboxComposeCmptContext_accounts {conf : MboxDescqConf} (log : HwLog) :
    Accounts 4 cmptTables log (composed (mboxComposeCmptContext env conf log)) := by
  rw [mboxComposeCmptContext_composed]
  refine (getCsrIdx_accounts (by decide) (by decide) log).unlessFailed (k := 3)
    (fun log₁ => ?_) (by decide)
  refine (getCsrIdx_accounts (by decide) (by decide) log₁).unlessFailed (k := 2)
    (fun log₂ => ?_) (by decide)
  exact (getCsrIdx_accounts (by decide) (by decide) log₂).unlessFailed
    (fun _ => Accounts.nil) le_rfl

/-- An optional composition. -/
theorem Accounts.ite {α : Type} {b : Bool} {x y : ℤ × α × HwLog}
    (h : Accounts (as.length + 1) as log (composed x)) (hy : composed y = (QDMA_SUCCESS, log)) :
    Accounts ((if b then as else []).length + 1) (if b then as else []) log
      (composed (if b then x else y)) := by
  cases b with
  | true => exact h
  | false =>
    simp only [Bool.false_eq_true, if_false, hy]
    exact Accounts.nil

end

/-! ## The queue context functions -/

section

variable {s : ResourceState} {i f qidHw : ℕ} {env : HwEnv} {log : HwLog} {st c2h : Bool}
  {cmptCtxtType : CmptCtxtType}

/-- `qdma_dev_qinfo_get` fails for functions that the resource manager does not know. -/
theorem qdmaDevQinfoGet_neg_iff :
    (qdmaDevQinfoGet s i f).1 < 0 ↔ qdmaGetDevEntry s i f = none := by
  unfold qdmaDevQinfoGet qdmaGetDevEntry
  cases qdmaGetMasterResourceEntry s i with
  | none => simp [QDMA_ERR_RM_RES_NOT_EXISTS]
  | some m =>
    simp only [Option.bind_some]
    cases m.devEntry f with
    | none => simp [QDMA_ERR_RM_DEV_NOT_EXISTS]
    | some d => simp [QDMA_SUCCESS]

theorem qdmaDevQinfoGet_bounds :
    -QDMA_ERR_MBOX_ALL_ZERO_MSG ≤ (qdmaDevQinfoGet s i f).1 ∧ (qdmaDevQinfoGet s i f).1 ≤ 0 := by
  unfold qdmaDevQinfoGet
  cases qdmaGetMasterResourceEntry s i with
  | none => simp [QDMA_ERR_MBOX_ALL_ZERO_MSG, QDMA_ERR_RM_RES_NOT_EXISTS]
  | some m =>
    dsimp only
    cases m.devEntry f with
    | none => simp [QDMA_ERR_MBOX_ALL_ZERO_MSG, QDMA_ERR_RM_DEV_NOT_EXISTS]
    | some d => exact ⟨largestCode_le, le_rfl⟩

/-- A queue that is assigned to a function is assigned to a known one. -/
theorem Assigned.known (h : Assigned s i f qidHw) : ¬ (qdmaDevQinfoGet s i f).1 < 0 := by
  rw [qdmaDevQinfoGet_neg_iff]
  intro hnone
  simp [Assigned, qdmaDevIsQueueInRange, hnone] at h

theorem mboxResetQueueContexts_only {op : ∀ {α : Type}, CtxtOp α} (h : cmptCtxtType = .ctxtOnly) :
    mboxResetQueueContexts env op s i f qidHw st c2h cmptCtxtType log =
      performAll env [.cmptCtx qidHw op] log := by
  unfold mboxResetQueueContexts
  rw [if_pos h]

theorem mboxResetQueueContexts_assigned {op : ∀ {α : Type}, CtxtOp α}
    (h : cmptCtxtType ≠ .ctxtOnly) (hin : Assigned s i f qidHw) :
    mboxResetQueueContexts env op s i f qidHw st c2h cmptCtxtType log =
      performAll env (queueContextAccesses op qidHw st c2h cmptCtxtType) log := by
  unfold mboxResetQueueContexts
  dsimp only
  rw [if_neg h, if_neg hin.known]
  exact if_neg (not_not.mpr hin)

theorem mboxResetQueueContexts_refused {op : ∀ {α : Type}, CtxtOp α}
    (h : cmptCtxtType ≠ .ctxtOnly) (hout : ¬ Assigned s i f qidHw) :
    mboxResetQueueContexts env op s i f qidHw st c2h cmptCtxtType log =
      ((qdmaDevQinfoGet s i f).1, log) := by
  unfold mboxResetQueueContexts
  dsimp only
  rw [if_neg h]
  split
  · rfl
  · exact if_pos hout

theorem mboxWriteQueueContexts_refused {conf : MboxDescqConf} (hout : ¬ Assigned s i f qidHw) :
    mboxWriteQueueContexts env s i f qidHw st c2h cmptCtxtType conf log =
      ((qdmaDevQinfoGet s i f).1, log) := by
  unfold mboxWriteQueueContexts
  dsimp only
  split
  · rfl
  · exact if_pos hout

/-- Accesses that write nothing are requested as they are made. -/
theorem queueContextAccesses_erase (op : ∀ {α : Type}, CtxtOp α)
    (hop : ∀ {α : Type} (blank : α), eraseOp blank op = op) :
    (queueContextAccesses op qidHw st c2h cmptCtxtType).map eraseAccess =
      queueContextAccesses op qidHw st c2h cmptCtxtType := by
  cases hst : st && c2h <;> cases hcmpt : cmptCtxtType.withCmpt <;>
    simp [queueContextAccesses, hst, hcmpt, eraseAccess, hop]

/-- Clearing the contexts of an assigned queue. -/
theorem mboxClearQueueContexts_accounts (h : cmptCtxtType ≠ .ctxtOnly)
    (hin : Assigned s i f qidHw) (log : HwLog) :
    Accounts (queueContextAccesses .clear qidHw st c2h cmptCtxtType).length
      (queueContextAccesses .clear qidHw st c2h cmptCtxtType) log
      (mboxClearQueueContexts env s i f qidHw st c2h cmptCtxtType log) := by
  unfold mboxClearQueueContexts
  rw [mboxResetQueueContexts_assigned h hin]
  simpa only [queueContextAccesses_erase .clear fun _ => rfl] using
    performAll_accounts env (queueContextAccesses .clear qidHw st c2h cmptCtxtType) log

theorem queueContextWrites_accounts {sw : DescqSwCtxt} {pfetch : DescqPrefetchCtxt}
    {cmpt : DescqCmptCtxt} (log : HwLog) :
    Accounts (queueContextWrites qidHw st c2h cmptCtxtType {} {} {}).length
      (queueContextWrites qidHw st c2h cmptCtxtType {} {} {}) log
      (performAll env (queueContextWrites qidHw st c2h cmptCtxtType sw pfetch cmpt) log) := by
  have hall := performAll_accounts env
    (queueContextWrites qidHw st c2h cmptCtxtType sw pfetch cmpt) log
  have herase : (queueContextWrites qidHw st c2h cmptCtxtType sw pfetch cmpt).map eraseAccess =
      queueContextWrites qidHw st c2h cmptCtxtType {} {} {} := by
    cases hst : st && c2h <;> cases hcmpt : cmptCtxtType.withCmpt <;>
      simp [queueContextWrites, hst, hcmpt, eraseAccess, eraseOp]
  rwa [herase, ← List.length_map eraseAccess, herase] at hall

/-- Writing the contexts of an assigned queue. -/
theorem mboxWriteQueueContexts_accounts {conf : MboxDescqConf} (h : cmptCtxtType ≠ .ctxtOnly)
    (hin : Assigned s i f qidHw) (log : HwLog) :
    Accounts (writeAccesses qidHw st c2h cmptCtxtType).length
      (writeAccesses qidHw st c2h cmptCtxtType) log
      (mboxWriteQueueContexts env s i f qidHw st c2h cmptCtxtType conf log) := by
  have hinRange : ¬ qdmaDevIsQueueInRange s i f qidHw ≠ .inRange := not_not.mpr hin
  have hwrites : 1 ≤ (queueContextWrites qidHw st c2h cmptCtxtType {} {} {}).length := by
    simp [queueContextWrites]
  have hbound : (writeAccesses qidHw st c2h cmptCtxtType).length = 1 +
      ((if st && c2h then [HwAccess.globalCsr .bufSz] else []).length +
        ((if cmptCtxtType.withCmpt then cmptTables else []).length +
          ((queueContextAccesses .clear qidHw st c2h cmptCtxtType).length +
            (queueContextWrites qidHw st c2h cmptCtxtType {} {} {}).length))) := by
    simp only [writeAccesses, List.length_append, List.length_singleton]
  unfold mboxWriteQueueContexts
  dsimp only
  rw [if_neg hin.known, if_neg hinRange, if_neg h, hbound]
  refine (mboxComposeSwContext_accounts log).unlessFailed (fun log₁ => ?_) (by simp; omega)
  refine Accounts.unlessFailed (Accounts.ite (mboxComposePrefetchContext_accounts log₁) rfl)
    (fun log₂ => ?_) (by omega)
  refine Accounts.unlessFailed (Accounts.ite (mboxComposeCmptContext_accounts log₂) rfl)
    (fun log₃ => ?_) (by omega)
  exact (mboxClearQueueContexts_accounts h hin log₃).unlessFailed
    (fun log₄ => queueContextWrites_accounts log₄) (by omega)

/-- Writing the completion context alone of an assigned queue. -/
theorem mboxWriteQueueContexts_only_accounts {conf : MboxDescqConf} (h : cmptCtxtType = .ctxtOnly)
    (hin : Assigned s i f qidHw) (log : HwLog) :
    Accounts 5 (cmptTables ++ [.cmptCtx qidHw .clear, .cmptCtx qidHw (.write {})]) log
      (mboxWriteQueueContexts env s i f qidHw st c2h cmptCtxtType conf log) := by
  have hinRange : ¬ qdmaDevIsQueueInRange s i f qidHw ≠ .inRange := not_not.mpr hin
  unfold mboxWriteQueueContexts
  dsimp only
  rw [if_neg hin.known, if_neg hinRange, if_pos h]
  exact (mboxComposeCmptContext_accounts log).unlessFailed (k := 2)
    (fun log₁ => performAll_accounts env [.cmptCtx qidHw .clear,
      .cmptCtx qidHw (.write (mboxComposeCmptContext env conf log).2.1)] log₁) (by decide)

end

/-! ## The status -/

section

variable {env : HwEnv} {s : ResourceState} {i g : ℕ} {m : MboxMem} {mem : CallocResults}
  {log : HwLog} {as : List HwAccess}

/-- A status keeps the sign of a result. -/
theorem s8_nonneg_iff {rv : ℤ} (hge : -QDMA_ERR_MBOX_ALL_ZERO_MSG ≤ rv) (hle : rv ≤ 0) :
    0 ≤ s8 rv ↔ 0 ≤ rv := by
  simp only [QDMA_ERR_MBOX_ALL_ZERO_MSG] at hge
  have hs8 : s8 rv = rv := by
    unfold s8
    rw [Int.bmod_def]
    split <;> omega
  rw [hs8]

/-- A result that accounts for what was done tells whether it was done. -/
theorem Accounts.nonneg_iff {r : ℤ × HwLog} (h : Accounts as.length as log r) :
    0 ≤ r.1 ↔ as.Sublist (succeeded (r.2.drop log.length)) := by
  obtain ⟨new, hlog, hok, hfail⟩ := h.done
  rw [hlog, List.drop_left]
  constructor
  · intro hnn
    rw [hok (le_antisymm h.le hnn)]
  · intro hsub
    by_contra hneg
    exact absurd hsub.length_le (not_le.mpr (hfail (not_le.mp hneg)))

/-- The status in terms of the result `r` behind it. -/
theorem statusFaithful_iff {r : ℤ × HwLog} {body : RespBody}
    (hhandler : qdmaMboxPfRcvMsgHandler env i g m s mem log = exitFunc g m 0 r.1 body s r.2)
    (hreq : requested m = some as) (hge : -QDMA_ERR_MBOX_ALL_ZERO_MSG ≤ r.1) (hle : r.1 ≤ 0) :
    StatusFaithful env i g m s mem log ↔
      (0 ≤ r.1 ↔ QueueOwned s i m ∧ as.Sublist (succeeded (r.2.drop log.length))) := by
  unfold StatusFaithful
  rw [hhandler, hreq]
  simp only [Option.some.injEq, forall_eq', exitFunc, s8_nonneg_iff hge hle]

/-- The status is right for the owner of a queue if the result accounts for the request. -/
theorem statusFaithful_of_accounts {r : ℤ × HwLog} {body : RespBody}
    (hhandler : qdmaMboxPfRcvMsgHandler env i g m s mem log = exitFunc g m 0 r.1 body s r.2)
    (hreq : requested m = some as) (hacc : Accounts as.length as log r)
    (howned : QueueOwned s i m) : StatusFaithful env i g m s mem log := by
  rw [statusFaithful_iff hhandler hreq hacc.ge hacc.le, and_iff_right howned]
  exact hacc.nonneg_iff

/-- Where the request was not met, only an error is right. -/
theorem statusFaithful_iff_neg {r : ℤ × HwLog} {body : RespBody}
    (hhandler : qdmaMboxPfRcvMsgHandler env i g m s mem log = exitFunc g m 0 r.1 body s r.2)
    (hreq : requested m = some as) (hge : -QDMA_ERR_MBOX_ALL_ZERO_MSG ≤ r.1) (hle : r.1 ≤ 0)
    (hnot : QueueOwned s i m → ¬ as.Sublist (succeeded (r.2.drop log.length))) :
    StatusFaithful env i g m s mem log ↔ r.1 < 0 := by
  have hfalse : ¬ (QueueOwned s i m ∧ as.Sublist (succeeded (r.2.drop log.length))) :=
    fun h => hnot h.1 h.2
  rw [statusFaithful_iff hhandler hreq hge hle, iff_false_right hfalse, not_le]

/-- Queue context requests name a queue. -/
theorem queueOwned_iff {op : MboxOp} (hop : MboxOp.fromByte m.op = some op)
    (hqueue : intrCtxtOps m op = none) :
    QueueOwned s i m ↔ Assigned s i m.srcFuncId m.qidHw := by
  simp [QueueOwned, hop, hqueue]

/-! ## The branches -/

/-- The accesses of a request on the contexts of a queue, made up to the first failure. -/
theorem queueRequest_accounts (env : HwEnv) (log : HwLog) (m : MboxMem)
    (op : ∀ {α : Type}, CtxtOp α)
    (hop : ∀ {α : Type} (blank : α), eraseOp blank op = op) :
    Accounts (queueRequest op m).length (queueRequest op m) log
      (performAll env (queueRequest op m) log) := by
  have herase : (queueRequest op m).map eraseAccess = queueRequest op m := by
    unfold queueRequest
    split
    · simp [eraseAccess, hop]
    · exact queueContextAccesses_erase op hop
  simpa only [herase] using performAll_accounts env (queueRequest op m) log

/-- `MBOX_OP_QCTXT_CLR` and `MBOX_OP_QCTXT_INV`. -/
theorem statusFaithful_reset (op : ∀ {α : Type}, CtxtOp α) {o : MboxOp}
    (ho : MboxOp.fromByte m.op = some o) (hqueue : intrCtxtOps m o = none)
    (hop : ∀ {α : Type} (blank : α), eraseOp blank op = op)
    (hreq : requested m = some (queueRequest op m))
    (hhandler : qdmaMboxPfRcvMsgHandler env i g m s mem log =
      exitFunc g m 0 (mboxResetQueueContexts env op s i m.srcFuncId m.qidHw m.st m.c2h
        m.cmptCtxtType log).1 .empty s (mboxResetQueueContexts env op s i m.srcFuncId m.qidHw m.st
        m.c2h m.cmptCtxtType log).2) :
    StatusFaithful env i g m s mem log ↔
      if m.cmptCtxtType = .ctxtOnly then
        Assigned s i m.srcFuncId m.qidHw ∨ env.rv log (.cmptCtx m.qidHw op) < 0
      else Assigned s i m.srcFuncId m.qidHw ∨ qdmaGetDevEntry s i m.srcFuncId = none := by
  have howned : QueueOwned s i m ↔ Assigned s i m.srcFuncId m.qidHw := queueOwned_iff ho hqueue
  have hacc := queueRequest_accounts env log m op hop
  by_cases hin : Assigned s i m.srcFuncId m.qidHw
  · have hreset : mboxResetQueueContexts env op s i m.srcFuncId m.qidHw m.st m.c2h
        m.cmptCtxtType log = performAll env (queueRequest op m) log := by
      unfold queueRequest
      split
      · rename_i honly
        exact mboxResetQueueContexts_only honly
      · rename_i honly
        exact mboxResetQueueContexts_assigned honly hin
    rw [hreset] at hhandler
    have hfaithful := statusFaithful_of_accounts hhandler hreq hacc (howned.mpr hin)
    simp [hfaithful, hin]
  · have hnot (l : HwLog) : QueueOwned s i m → ¬ (queueRequest op m).Sublist (succeeded l) :=
      fun h => absurd (howned.mp h) hin
    by_cases honly : m.cmptCtxtType = .ctxtOnly
    · rw [mboxResetQueueContexts_only honly] at hhandler
      have hall := performAll_accounts env [.cmptCtx m.qidHw op] log
      rw [statusFaithful_iff_neg hhandler hreq hall.ge hall.le (hnot _), performAll_neg_iff]
      simp [honly, hin, outcomes]
    · rw [mboxResetQueueContexts_refused honly hin] at hhandler
      rw [statusFaithful_iff_neg hhandler hreq qdmaDevQinfoGet_bounds.1 qdmaDevQinfoGet_bounds.2
        (hnot _), qdmaDevQinfoGet_neg_iff]
      simp [honly, hin]

/-- `MBOX_OP_QCTXT_WRT`. -/
theorem statusFaithful_write (ho : MboxOp.fromByte m.op = some .qctxtWrt) :
    StatusFaithful env i g m s mem log ↔
      Assigned s i m.srcFuncId m.qidHw ∨ qdmaGetDevEntry s i m.srcFuncId = none := by
  have howned : QueueOwned s i m ↔ Assigned s i m.srcFuncId m.qidHw := queueOwned_iff ho rfl
  have hreq : requested m = some (writeRequest m) := by simp [requested, ho]
  have hhandler : qdmaMboxPfRcvMsgHandler env i g m s mem log = exitFunc g m 0
      (mboxWriteQueueContexts env s i m.srcFuncId m.qidHw m.st m.c2h m.cmptCtxtType
        { m.descqConf with funcId := m.srcFuncId } log).1 .empty s
      (mboxWriteQueueContexts env s i m.srcFuncId m.qidHw m.st m.c2h m.cmptCtxtType
        { m.descqConf with funcId := m.srcFuncId } log).2 := by
    simp only [qdmaMboxPfRcvMsgHandler, ho]
  by_cases hin : Assigned s i m.srcFuncId m.qidHw
  · have hacc : Accounts (writeRequest m).length (writeRequest m) log
        (mboxWriteQueueContexts env s i m.srcFuncId m.qidHw m.st m.c2h m.cmptCtxtType
          { m.descqConf with funcId := m.srcFuncId } log) := by
      unfold writeRequest
      split
      · rename_i honly
        exact mboxWriteQueueContexts_only_accounts honly hin log
      · rename_i honly
        exact mboxWriteQueueContexts_accounts honly hin log
    have hfaithful := statusFaithful_of_accounts hhandler hreq hacc (howned.mpr hin)
    simp [hfaithful, hin]
  · rw [mboxWriteQueueContexts_refused hin] at hhandler
    rw [statusFaithful_iff_neg hhandler hreq qdmaDevQinfoGet_bounds.1 qdmaDevQinfoGet_bounds.2
      (fun h => absurd (howned.mp h) hin), qdmaDevQinfoGet_neg_iff]
    simp [hin]

/-- No read of the completion context alone is ever made. -/
theorem cmptRead_not_mem {new : HwLog} {qidHw : ℕ} {st c2h : Bool}
    (hnew : ∀ x ∈ new, x.1 ∈ queueContextAccesses .read qidHw st c2h .ctxtOnly) :
    ¬ [HwAccess.cmptCtx qidHw .read].Sublist (succeeded new) := by
  intro hsub
  have hmem := hsub.subset List.mem_cons_self
  simp only [succeeded, List.mem_map, List.mem_filter] at hmem
  obtain ⟨x, ⟨hx, -⟩, herase⟩ := hmem
  have haccess := hnew x hx
  simp only [queueContextAccesses, CmptCtxtType.withCmpt, List.mem_append, List.mem_cons,
    List.not_mem_nil, or_false, List.mem_ite_nil_right] at haccess
  rcases haccess with ((h | h | h) | ⟨-, h⟩) | ⟨honly, -⟩
  · simp [h, eraseAccess] at herase
  · simp [h, eraseAccess] at herase
  · simp [h, eraseAccess] at herase
  · simp [h, eraseAccess] at herase

/-- `MBOX_OP_QCTXT_RD`. -/
theorem statusFaithful_read (ho : MboxOp.fromByte m.op = some .qctxtRd) :
    StatusFaithful env i g m s mem log ↔
      (Assigned s i m.srcFuncId m.qidHw ∧ m.cmptCtxtType ≠ .ctxtOnly) ∨
        ∃ r ∈ outcomes env (queueContextAccesses .read m.qidHw m.st m.c2h m.cmptCtxtType) log,
          r < 0 := by
  have howned : QueueOwned s i m ↔ Assigned s i m.srcFuncId m.qidHw := queueOwned_iff ho rfl
  have hreq : requested m = some (queueRequest .read m) := by simp [requested, ho]
  have hhandler : qdmaMboxPfRcvMsgHandler env i g m s mem log = exitFunc g m 0
      (performAll env (queueContextAccesses .read m.qidHw m.st m.c2h m.cmptCtxtType) log).1
      (.qctxt (mboxReadQueueContexts env m.qidHw m.st m.c2h m.cmptCtxtType log).2.1) s
      (performAll env (queueContextAccesses .read m.qidHw m.st m.c2h m.cmptCtxtType) log).2 := by
    simp only [qdmaMboxPfRcvMsgHandler, ho]
    rfl
  have hall := performAll_accounts env
    (queueContextAccesses .read m.qidHw m.st m.c2h m.cmptCtxtType) log
  by_cases hgood : Assigned s i m.srcFuncId m.qidHw ∧ m.cmptCtxtType ≠ .ctxtOnly
  · have heq : queueRequest .read m =
        queueContextAccesses .read m.qidHw m.st m.c2h m.cmptCtxtType := by
      rw [queueRequest, if_neg hgood.2]
    have hacc := queueRequest_accounts env log m .read fun _ => rfl
    rw [← heq] at hhandler
    have hfaithful := statusFaithful_of_accounts hhandler hreq hacc (howned.mpr hgood.1)
    simp [hfaithful, hgood]
  · rw [statusFaithful_iff_neg hhandler hreq hall.ge hall.le, performAll_neg_iff,
      or_iff_right hgood]
    intro h
    have honly : m.cmptCtxtType = .ctxtOnly := by
      by_contra hne
      exact hgood ⟨howned.mp h, hne⟩
    obtain ⟨new, hlog, hnew⟩ := performAll_continues
      (P := (· ∈ queueContextAccesses .read m.qidHw m.st m.c2h m.cmptCtxtType)) fun a ha => ha
    rw [hlog, List.drop_left, queueRequest, if_pos honly]
    exact cmptRead_not_mem (honly ▸ hnew)

/-- Results that are all right log every access as made. -/
theorem succeeded_zip {rvs : List ℤ} (hlen : rvs.length = as.length) (hrvs : ∀ r ∈ rvs, 0 ≤ r) :
    succeeded (as.zip rvs) = as.map eraseAccess := by
  have hfilter : (as.zip rvs).filter (fun x => decide (0 ≤ x.2)) = as.zip rvs := by
    refine List.filter_eq_self.mpr fun x hx => ?_
    simpa using hrvs x.2 (List.of_mem_zip hx).2
  have hfst : (as.zip rvs).map Prod.fst = as := List.map_fst_zip hlen.ge
  rw [succeeded, hfilter, ← hfst, List.map_map, hfst]
  rfl

/-- A result that is an error is not logged as made. -/
theorem succeeded_zip_length_lt {rvs : List ℤ} (hlen : rvs.length = as.length) {r : ℤ}
    (hr : r ∈ rvs) (hneg : r < 0) : (succeeded (as.zip rvs)).length < as.length := by
  have hlen' : (as.zip rvs).length = as.length := by simp [hlen]
  obtain ⟨j, hj, rfl⟩ := List.mem_iff_getElem.mp hr
  rw [succeeded, List.length_map, ← hlen']
  refine List.length_filter_lt_length_iff_exists.mpr ⟨(as.zip rvs).get ⟨j, by omega⟩, ?_, ?_⟩
  · exact List.get_mem ..
  · simpa using hneg

theorem outcomes_length (env : HwEnv) (as : List HwAccess) (log : HwLog) :
    (outcomes env as log).length = as.length := by
  induction as generalizing log with
  | nil => rfl
  | cons a as ih => simp [outcomes, ih]

theorem outcomes_bounds {as : List HwAccess} {log : HwLog} {r : ℤ} (h : r ∈ outcomes env as log) :
    -QDMA_ERR_MBOX_ALL_ZERO_MSG ≤ r ∧ r ≤ 0 := by
  induction as generalizing log with
  | nil => simp [outcomes] at h
  | cons a as ih =>
    rcases List.mem_cons.mp h with rfl | h
    · exact ⟨env.le_rv _ _, env.rv_le _ _⟩
    · exact ih h

/-- The interrupt context requests. -/
theorem statusFaithful_intrCtxt {o : MboxOp} {ops : ℕ → List (CtxtOp IndirectIntrCtxt)}
    {body : RespBody} (ho : MboxOp.fromByte m.op = some o) (hops : intrCtxtOps m o = some ops)
    (hreq : requested m = some ((intrCtxtAccesses m ops).map eraseAccess))
    (hhandler : qdmaMboxPfRcvMsgHandler env i g m s mem log =
      handleIntrCtxt env g m ops body s log) :
    StatusFaithful env i g m s mem log ↔
      (∀ r ∈ outcomes env (intrCtxtAccesses m ops) log, 0 ≤ r) ∨
        ∃ r ∈ (outcomes env (intrCtxtAccesses m ops) log).getLast?, r < 0 := by
  have howned : QueueOwned s i m := by simp [QueueOwned, ho, hops]
  have hlen := outcomes_length env (intrCtxtAccesses m ops) log
  have heach := performEach_eq env 0 (intrCtxtAccesses m ops) log
  have hbounds : ∀ r, r = (outcomes env (intrCtxtAccesses m ops) log).getLast?.getD 0 →
      -QDMA_ERR_MBOX_ALL_ZERO_MSG ≤ r ∧ r ≤ 0 := by
    rintro r rfl
    cases hlast : (outcomes env (intrCtxtAccesses m ops) log).getLast? with
    | none => exact ⟨largestCode_le, le_rfl⟩
    | some r => exact outcomes_bounds (List.mem_of_getLast? hlast)
  have hstatus :=
    statusFaithful_iff (r := performEach env 0 (intrCtxtAccesses m ops) log) hhandler hreq
  rw [heach] at hstatus
  rw [hstatus (hbounds _ rfl).1 (hbounds _ rfl).2, and_iff_right howned, List.drop_left]
  by_cases hall : ∀ r ∈ outcomes env (intrCtxtAccesses m ops) log, 0 ≤ r
  · rw [succeeded_zip hlen hall]
    have hnn : 0 ≤ (outcomes env (intrCtxtAccesses m ops) log).getLast?.getD 0 := by
      cases hlast : (outcomes env (intrCtxtAccesses m ops) log).getLast? with
      | none => exact le_rfl
      | some r => exact hall r (List.mem_of_getLast? hlast)
    exact iff_of_true (iff_of_true hnn (List.Sublist.refl _)) (Or.inl hall)
  · have hexists : ∃ r ∈ outcomes env (intrCtxtAccesses m ops) log, r < 0 := by
      simpa only [not_forall, not_le, exists_prop] using hall
    obtain ⟨r, hr, hneg⟩ := hexists
    have hnot : ¬ ((intrCtxtAccesses m ops).map eraseAccess).Sublist
        (succeeded ((intrCtxtAccesses m ops).zip (outcomes env (intrCtxtAccesses m ops) log))) := by
      intro hsub
      have hlt := succeeded_zip_length_lt hlen hr hneg
      have hle := hsub.length_le
      rw [List.length_map] at hle
      omega
    rw [iff_false_right hnot, not_le, or_iff_right hall]
    cases (outcomes env (intrCtxtAccesses m ops) log).getLast? <;> simp

/-- The status of a response is right in exactly these cases. -/
theorem mailbox_status_iff (env : HwEnv) (dmaDeviceIndex funcId : ℕ) (m : MboxMem)
    (s : ResourceState) (mem : CallocResults) (log : HwLog) :
    StatusFaithful env dmaDeviceIndex funcId m s mem log ↔
      StatusTold env dmaDeviceIndex m s log := by
  unfold StatusTold
  cases ho : MboxOp.fromByte m.op with
  | none => simp [StatusFaithful, requested, ho]
  | some op =>
    cases op with
    | vfBye | pfResetVfBye | hello | fmap | csr | qreq | qnotifyAdd | qnotifyDel | getQactiveCnt
    | resetPrepare | resetDone | pfBye | regListRead =>
      simp [StatusFaithful, requested, ho, intrCtxtOps]
    | qctxtWrt => exact statusFaithful_write ho
    | qctxtRd => exact statusFaithful_read ho
    | qctxtClr =>
      exact statusFaithful_reset .clear ho rfl (fun _ => rfl) (by simp [requested, ho])
        (by simp only [qdmaMboxPfRcvMsgHandler, ho, mboxClearQueueContexts])
    | qctxtInv =>
      exact statusFaithful_reset .invalidate ho rfl (fun _ => rfl) (by simp [requested, ho])
        (by simp only [qdmaMboxPfRcvMsgHandler, ho, mboxInvalidateQueueContexts])
    | intrCtxtWrt | intrCtxtRd | intrCtxtClr | intrCtxtInv =>
      rw [statusFaithful_intrCtxt ho rfl (by simp only [requested, ho]; rfl)
        (by simp only [qdmaMboxPfRcvMsgHandler, ho]; rfl)]
      simp [intrCtxtOps]

/-- Function 1 without queues asks for queue 7 to be cleared. Nothing is done, and the status
says it was. -/
theorem qctxt_clear_refused_silently :
    ¬ StatusFaithful HwEnv.zero 0 0 (MboxMem.ofWords [10 + 2 ^ 16, 7 * 2 ^ 16, 12])
      (run handleEvent {} [.call (.masterResourceCreate 0 0 0 8 []),
        .message HwEnv.zero 0 0 (MboxMem.ofWords [1 + 2 ^ 16]) [] []]) [] [] := by
  intro hfaithful
  obtain ⟨howned, -⟩ := (hfaithful _ rfl).mp (by decide +kernel)
  revert howned
  decide +kernel

end

end OnicDriver.Mailbox
