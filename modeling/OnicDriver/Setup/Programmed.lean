import OnicDriver.Mailbox.ContextWrite
import OnicDriver.Setup.Context

/-!
# Programmed contexts

The contexts that a queue gets on a working device when its function is the PF,
and those that it gets when its function is a VF, whose message the PF turns
into contexts.
-/

namespace OnicDriver.Setup

open Lib Access Mailbox Resource Queue

/-! ## Working devices -/

/-- Every access succeeds. -/
def Working (env : HwEnv) : Prop := ∀ log a, env.rv log a = 0

variable {env : HwEnv}

theorem Working.perform (h : Working env) (a : HwAccess) (log : HwLog) :
    perform env a log = (0, log ++ [(a, 0)]) := by
  rw [Access.perform, h log a]

theorem Working.performAll (h : Working env) (as : List HwAccess) (log : HwLog) :
    performAll env as log = (0, log ++ as.map (·, 0)) := by
  induction as generalizing log with
  | nil => simp [Access.performAll]
  | cons a as ih =>
    rw [Access.performAll, h log a, if_neg (lt_irrefl 0), h.perform, ih]
    simp

theorem unlessFailed_zero (log : HwLog) (next : HwLog → ℤ × HwLog) :
    unlessFailed (0, log) next = next log := if_neg (lt_irrefl 0)

/-- A value looked up in a table of the device. -/
def lookup (env : HwEnv) (type : CsrType) (p : ℕ → Bool) : Option ℕ :=
  (List.range QDMA_GLOBAL_CSR_ARRAY_SZ).find? fun i => p (env.csr type i)

theorem programmed_append (log new : HwLog) :
    programmed (log ++ new) = programmed log ++ programmed new := by
  simp [programmed]

theorem programmed_map (as : List HwAccess) :
    programmed (as.map (·, 0)) = as.filter isContextWrite := by
  simp [programmed, Function.comp_def]

/-! ## Contexts of the PF -/

/-- The contexts that the PF writes for a queue of its own. -/
def pfContexts (xdev : XlnxDmaDev) (descq : Descq) : List HwAccess :=
  (if descq.conf.qType = .cmpt then []
    else [.swCtx (descq.conf.qType == .c2h) descq.qidxHw (.write (makeSwContext xdev descq))]) ++
    (if descq.conf.stC2h then [.pfetchCtx descq.qidxHw (.write (makePrefetchContext descq))]
      else []) ++
    if descq.conf.withCmpt then [.cmptCtx descq.qidxHw (.write (makeCmptContext xdev descq))]
    else []

theorem filter_contextClears (conf : QdmaQueueConf) (qidHw : ℕ) :
    (contextClears conf qidHw).filter isContextWrite = [] := by
  unfold contextClears
  split <;> split <;> (try split) <;> rfl

/-- On a working device the PF programs these contexts. -/
theorem Working.pfDescqContextSetup (h : Working env) (xdev : XlnxDmaDev) (descq : Descq)
    (log : HwLog) :
    ∃ new, (pfDescqContextSetup xdev descq env log).2 = log ++ new ∧
      programmed new = pfContexts xdev descq := by
  have hlast : ∀ (b b' : Bool) (pfetch : DescqPrefetchCtxt) (cmpt : DescqCmptCtxt) (qidHw : ℕ),
      ((if b then [HwAccess.pfetchCtx qidHw (.write pfetch)] else []) ++
        if b' then [HwAccess.cmptCtx qidHw (.write cmpt)] else []).filter isContextWrite =
      (if b then [HwAccess.pfetchCtx qidHw (.write pfetch)] else []) ++
        if b' then [HwAccess.cmptCtx qidHw (.write cmpt)] else [] := by
    intro b b' pfetch cmpt qidHw
    cases b <;> cases b' <;> rfl
  simp only [Setup.pfDescqContextSetup, h.performAll, unlessFailed_zero]
  by_cases hq : descq.conf.qType = .cmpt
  · rw [if_pos hq, show (QDMA_SUCCESS : ℤ) = 0 from rfl, unlessFailed_zero,
      if_neg fun hq' => hq'.1 hq]
    refine ⟨_, List.append_assoc _ _ _, ?_⟩
    rw [programmed_append, programmed_map, programmed_map, filter_contextClears, hlast,
      pfContexts, if_pos hq]
    rfl
  · rw [if_neg hq, h.perform, unlessFailed_zero]
    split
    · rw [h.perform]
      refine ⟨_, by simp only [List.append_assoc]; rfl, ?_⟩
      rw [programmed_append, programmed_append, programmed_append, programmed_map, programmed_map,
        filter_contextClears, hlast, pfContexts, if_neg hq]
      rfl
    · refine ⟨_, by simp only [List.append_assoc]; rfl, ?_⟩
      rw [programmed_append, programmed_append, programmed_map, programmed_map,
        filter_contextClears, hlast, pfContexts, if_neg hq]
      rfl

/-! ## Contexts of a VF -/

section

variable (env) (conf : MboxDescqConf)

/-- The ring of the size of a message. -/
def ringIdx (ringsz : ℕ) : Option ℕ := lookup env .ringSz fun v => ringsz = u32 ((v : ℤ) - 1)

/-- The software context for a ring found in the table. -/
def vfSwContextOf (st c2h : Bool) (rngIdx : ℕ) : DescqSwCtxt :=
  let sw : DescqSwCtxt :=
    { vec := conf.intrId, intrAggr := conf.intrAggr, ringBsAddr := conf.ringBsAddr
      wbiChk := conf.wbiChk, wbiIntvlEn := conf.wbiIntvlEn, rngszIdx := rngIdx
      bypass := conf.enBypass, wbkEn := conf.wbkEn, irqEn := conf.irqEn
      isMm := notByte st, mmChn := 0, qen := 1, frcdEn := conf.forcedEn
      descSz := conf.descSz, fncId := conf.funcId % 2 ^ 8, irqArm := conf.irqArm }
  if st && c2h then { sw with irqEn := 0, irqArm := 0, wbkEn := 0, wbiChk := 0 } else sw

/-- The software context that the PF composes for a queue of a VF. -/
def vfSwContext (st c2h : Bool) : Option DescqSwCtxt :=
  (ringIdx env conf.ringsz).map (vfSwContextOf conf st c2h)

/-- The prefetch context for a buffer size found in the table. -/
def vfPrefetchContextOf (bufIdx : ℕ) : DescqPrefetchCtxt :=
  { valid := 1, bypass := conf.enBypassPrefetch, bufszIdx := bufIdx, pfchEn := conf.pfchEn }

/-- The prefetch context that the PF composes. -/
def vfPrefetchContext : Option DescqPrefetchCtxt :=
  (lookup env .bufSz fun v => v = conf.bufsz).map (vfPrefetchContextOf conf)

/-- The completion context from the values found in the tables. -/
def vfCmptContextOf (cntrIdx tmrIdx rngIdx : ℕ) : DescqCmptCtxt :=
  { bsAddr := conf.cmptRingBsAddr, enStatDesc := conf.cmplStatEn
    enInt := conf.cmptIntEn, trigMode := conf.triggermode, fncId := conf.funcId % 2 ^ 8
    timerIdx := tmrIdx, counterIdx := cntrIdx, color := 1, ringszIdx := rngIdx
    descSz := conf.cmptDescSz, valid := 1, ovfChkDis := conf.disOverflowCheck
    vec := conf.intrId, intAggr := conf.intrAggr }

/-- The completion context that the PF composes. -/
def vfCmptContext : Option DescqCmptCtxt :=
  (lookup env .cntTh fun v => v = conf.cntThres).bind fun cntrIdx =>
    (lookup env .timerCnt fun v => v = conf.timerThres).bind fun tmrIdx =>
      (ringIdx env conf.cmptRingsz).map (vfCmptContextOf conf cntrIdx tmrIdx)

/-- The contexts that the PF writes for a queue of a VF, if it can compose them all. -/
def vfContexts (qidHw : ℕ) (st c2h : Bool) (t : CmptCtxtType) : Option (List HwAccess) :=
  if t = .ctxtOnly then (vfCmptContext env conf).map fun cmpt => [.cmptCtx qidHw (.write cmpt)]
  else
    (vfSwContext env conf st c2h).bind fun sw =>
      (if st && c2h then vfPrefetchContext env conf else some {}).bind fun pfetch =>
        (if t.withCmpt then vfCmptContext env conf else some {}).map fun cmpt =>
          [.swCtx c2h qidHw (.write sw)] ++
            (if st && c2h then [.pfetchCtx qidHw (.write pfetch)] else []) ++
            if t.withCmpt then [.cmptCtx qidHw (.write cmpt)] else []

end

/-- A composition after `log` with its outcome. -/
def Composes {α : Type} (r : ℤ × α × HwLog) (log : HwLog) : Option α → Prop
  | some c => ∃ reads, programmed reads = [] ∧ r = (QDMA_SUCCESS, c, log ++ reads)
  | none => ∃ reads, programmed reads = [] ∧ r.1 < 0 ∧ r.2.2 = log ++ reads

/-- A composition that is not needed. -/
theorem Composes.skip {α : Type} (c : α) (log : HwLog) :
    Composes (QDMA_SUCCESS, c, log) log (some c) := ⟨[], rfl, by rw [List.append_nil]⟩

/-- One composition after another. -/
theorem Composes.bind {α β : Type} {r : ℤ × α × HwLog} {log : HwLog} {o : Option α}
    (h : Composes r log o) (c : β) {next : α → HwLog → ℤ × β × HwLog} {f : α → Option β}
    (hnext : ∀ a log', Composes (next a log') log' (f a)) :
    Composes (if r.1 < 0 then (r.1, c, r.2.2) else next r.2.1 r.2.2) log (o.bind f) := by
  cases o with
  | none =>
    obtain ⟨reads, hreads, hneg, hlog⟩ := h
    rw [if_pos hneg]
    exact ⟨reads, hreads, hneg, hlog⟩
  | some a =>
    obtain ⟨reads, hreads, rfl⟩ := h
    have hnn : ¬ (QDMA_SUCCESS : ℤ) < 0 := lt_irrefl _
    dsimp only
    rw [if_neg hnn]
    have hafter := hnext a (log ++ reads)
    rw [Option.bind_some]
    cases hf : f a with
    | none =>
      rw [hf] at hafter
      obtain ⟨reads', hreads', hneg, hlog⟩ := hafter
      refine ⟨reads ++ reads', ?_, hneg, by rw [hlog, List.append_assoc]⟩
      rw [programmed_append, hreads, hreads', List.append_nil]
    | some b =>
      rw [hf] at hafter
      obtain ⟨reads', hreads', heq⟩ := hafter
      refine ⟨reads ++ reads', ?_, by rw [heq, List.append_assoc]⟩
      rw [programmed_append, hreads, hreads', List.append_nil]

/-- A composition from one value. -/
theorem Composes.map {α β : Type} {r : ℤ × α × HwLog} {log : HwLog} {o : Option α}
    (h : Composes r log o) (c : β) (g : α → β) :
    Composes (if r.1 < 0 then (r.1, c, r.2.2) else (QDMA_SUCCESS, g r.2.1, r.2.2)) log
      (o.map g) := by
  rw [Option.map_eq_bind]
  exact h.bind c fun a log' => Composes.skip (g a) log'

variable {conf : MboxDescqConf}

theorem Working.getCsrIdx (h : Working env) (type : CsrType) {notFound : ℤ} (hneg : -notFound < 0)
    (p : ℕ → Bool) (log : HwLog) :
    Composes (getCsrIdx env type notFound p log) log (lookup env type p) := by
  unfold Mailbox.getCsrIdx lookup
  rw [h.perform]
  dsimp only
  rw [if_neg (by decide)]
  cases (List.range QDMA_GLOBAL_CSR_ARRAY_SZ).find? fun i => p (env.csr type i) with
  | none => exact ⟨[(.globalCsr type, 0)], rfl, hneg, rfl⟩
  | some i => exact ⟨[(.globalCsr type, 0)], rfl, rfl⟩

theorem Working.getRingIdx (h : Working env) (ringsz : ℕ) (log : HwLog) :
    Composes (getRingIdx env ringsz log) log (ringIdx env ringsz) :=
  h.getCsrIdx _ (by decide) _ _

theorem Working.getBufIdx (h : Working env) (bufsz : ℕ) (log : HwLog) :
    Composes (getBufIdx env bufsz log) log (lookup env .bufSz fun v => v = bufsz) :=
  h.getCsrIdx _ (by decide) _ _

theorem Working.getCntrIdx (h : Working env) (cntrVal : ℕ) (log : HwLog) :
    Composes (getCntrIdx env cntrVal log) log (lookup env .cntTh fun v => v = cntrVal) :=
  h.getCsrIdx _ (by decide) _ _

theorem Working.getTmrIdx (h : Working env) (tmrVal : ℕ) (log : HwLog) :
    Composes (getTmrIdx env tmrVal log) log (lookup env .timerCnt fun v => v = tmrVal) :=
  h.getCsrIdx _ (by decide) _ _

theorem Working.mboxComposeSwContext (h : Working env) (st c2h : Bool) (log : HwLog) :
    Composes (mboxComposeSwContext env st c2h conf log) log (vfSwContext env conf st c2h) :=
  (h.getRingIdx conf.ringsz log).map _ _

theorem Working.mboxComposePrefetchContext (h : Working env) (log : HwLog) :
    Composes (mboxComposePrefetchContext env conf log) log (vfPrefetchContext env conf) :=
  (h.getBufIdx conf.bufsz log).map _ _

theorem Working.mboxComposeCmptContext (h : Working env) (log : HwLog) :
    Composes (mboxComposeCmptContext env conf log) log (vfCmptContext env conf) :=
  (h.getCntrIdx conf.cntThres log).bind ({} : DescqCmptCtxt) fun cntrIdx log' =>
    (h.getTmrIdx conf.timerThres log').bind ({} : DescqCmptCtxt) fun tmrIdx log' =>
      (h.getRingIdx conf.cmptRingsz log').map ({} : DescqCmptCtxt)
        (vfCmptContextOf conf cntrIdx tmrIdx)

/-! ## Contexts programmed for a VF -/

/-- Accesses after `log` that program the contexts `o`, or none. -/
def Programs (r : ℤ × HwLog) (log : HwLog) (o : Option (List HwAccess)) : Prop :=
  ∃ new, r.2 = log ++ new ∧ programmed new = o.getD []

/-- Contexts programmed after a composition. -/
theorem Composes.programs {α : Type} {r : ℤ × α × HwLog} {log : HwLog} {o : Option α}
    (h : Composes r log o) {next : HwLog → ℤ × HwLog} {f : α → Option (List HwAccess)}
    (hnext : ∀ a log', r = (QDMA_SUCCESS, a, log') → Programs (next log') log' (f a)) :
    Programs (unlessFailed (composed r) next) log (o.bind f) := by
  cases o with
  | none =>
    obtain ⟨reads, hreads, hneg, hlog⟩ := h
    rw [unlessFailed, composed, if_pos hneg]
    exact ⟨reads, hlog, hreads⟩
  | some a =>
    obtain ⟨reads, hreads, rfl⟩ := h
    obtain ⟨new, hlog, hnew⟩ := hnext a (log ++ reads) rfl
    refine ⟨reads ++ new, ?_, ?_⟩
    · rw [← List.append_assoc, ← hlog]
      exact congrArg Prod.snd (unlessFailed_zero _ _)
    · rw [programmed_append, hreads, hnew]
      rfl

theorem filter_queueContextAccesses (qidHw : ℕ) (st c2h : Bool) (t : CmptCtxtType) :
    (queueContextAccesses .clear qidHw st c2h t).filter isContextWrite = [] := by
  unfold queueContextAccesses
  split <;> split <;> rfl

/-- On a working device the PF programs these contexts for a queue in the range of the VF. -/
theorem Working.mboxWriteQueueContexts (h : Working env) {s : ResourceState}
    {dmaDeviceIndex funcId qidHw : ℕ} (hget : ¬ (qdmaDevQinfoGet s dmaDeviceIndex funcId).1 < 0)
    (hin : qdmaDevIsQueueInRange s dmaDeviceIndex funcId qidHw = .inRange) (st c2h : Bool)
    (t : CmptCtxtType) (log : HwLog) :
    Programs (mboxWriteQueueContexts env s dmaDeviceIndex funcId qidHw st c2h t conf log) log
      (vfContexts env conf qidHw st c2h t) := by
  unfold Mailbox.mboxWriteQueueContexts vfContexts
  simp only [if_neg hget, hin, ne_eq, not_true, if_false]
  by_cases ht : t = .ctxtOnly
  · rw [if_pos ht, if_pos ht, Option.map_eq_bind]
    apply (h.mboxComposeCmptContext log).programs
    intro cmpt log' hcmpt
    rw [hcmpt]
    exact ⟨_, congrArg Prod.snd (h.performAll _ _), rfl⟩
  · rw [if_neg ht, if_neg ht]
    have hclear : ∀ log', mboxClearQueueContexts env s dmaDeviceIndex funcId qidHw st c2h t log' =
        (0, log' ++ (queueContextAccesses .clear qidHw st c2h t).map (·, 0)) := by
      intro log'
      unfold mboxClearQueueContexts mboxResetQueueContexts
      simp only [if_neg hget, hin, ne_eq, not_true, if_false, if_neg ht]
      exact h.performAll _ _
    apply (h.mboxComposeSwContext st c2h log).programs
    intro sw log₁ hsw
    rw [hsw]
    apply Composes.programs
    · split
      · exact h.mboxComposePrefetchContext log₁
      · exact Composes.skip _ _
    intro pfetch log₂ hpfetch
    rw [hpfetch, Option.map_eq_bind]
    apply Composes.programs
    · split
      · exact h.mboxComposeCmptContext log₂
      · exact Composes.skip _ _
    intro cmpt log₃ hcmpt
    rw [hcmpt, hclear, unlessFailed_zero, h.performAll]
    refine ⟨_, List.append_assoc _ _ _, ?_⟩
    rw [programmed_append, programmed_map, programmed_map, filter_queueContextAccesses]
    cases st <;> cases c2h <;> cases t.withCmpt <;> rfl

theorem mboxDescqConfOf_fits (xdev : XlnxDmaDev) {descq : Descq} (hbus : descq.descBus < 2 ^ 64)
    (hcmptBus : descq.descCmptBus < 2 ^ 64) : (mboxDescqConfOf xdev descq).Fits where
  ringBsAddr := hbus
  cmptRingBsAddr := hcmptBus
  flags := by
    simp only [AllFit, MboxDescqConf.flagFields, List.forall_mem_cons, mboxDescqConfOf, Mask.Fits,
      Mask.width]
    simp [Bool.toNat_lt, Bool.toNat_le]
    have hcredit := Bool.toNat_lt descq.conf.fetchCredit
    split_ifs <;> simp [DESC_SZ_32B, DESC_SZ_8B, DESC_SZ_16B, hcredit, Bool.toNat_le]
  func := by
    simp [AllFit, MboxDescqConf.funcFields, mboxDescqConfOf, Mask.Fits, Mask.width, Nat.mod_lt]
  intr := by
    have hvec := Int.emod_lt_of_pos (intrVec xdev descq) (show (0 : ℤ) < 2048 by norm_num)
    simp [AllFit, MboxDescqConf.intrFields, mboxDescqConfOf, Mask.Fits, Mask.width, Bool.toNat_lt,
      Bool.toNat_le, hvec]
  ringsz := Nat.mod_lt _ (by norm_num)
  bufsz := Nat.mod_lt _ (by norm_num)
  cmptRingsz := Nat.mod_lt _ (by norm_num)

/-- The contexts that the message of the VF makes the PF program. -/
theorem Working.vfDescqContextSetup (h : Working env) (xdev : XlnxDmaDev) (descq : Descq)
    (hbus : descq.descBus < 2 ^ 64) (hcmptBus : descq.descCmptBus < 2 ^ 64)
    (hqid : descq.qidxHw < 2 ^ 16) {dmaDeviceIndex : ℕ} (pfFuncId : ℕ) {s : ResourceState}
    (hget : ¬ (qdmaDevQinfoGet s dmaDeviceIndex xdev.funcId).1 < 0)
    (hin : qdmaDevIsQueueInRange s dmaDeviceIndex xdev.funcId descq.qidxHw = .inRange)
    (mem : CallocResults) (raw rx : ByteMem) (log : HwLog) :
    ∃ new, (vfDescqContextSetup xdev descq env dmaDeviceIndex pfFuncId s mem raw rx log).log =
        log ++ new ∧
      programmed new = (vfContexts env (mboxDescqConfOf xdev descq) descq.qidxHw descq.conf.st
        (descq.conf.qType == .c2h) (cmptCtxtTypeOf descq.conf)).getD [] := by
  have hfunc : xdev.funcId < 2 ^ 16 := xdev.funcId_lt.trans (by norm_num)
  obtain ⟨hreq, hconf⟩ :
      Requests (pfReceives xdev.funcId (vfSetupRequest xdev descq raw) rx) .qctxtWrt xdev.funcId
          descq.qidxHw descq.conf.st.toNat (qTypeNum descq.conf.qType)
          (cmptCtxtTypeOf descq.conf) ∧
        (pfReceives xdev.funcId (vfSetupRequest xdev descq raw) rx).descqConf =
          mboxDescqConfOf xdev descq :=
    pfReceives_write (mboxDescqConfOf_fits xdev hbus hcmptBus) hfunc hqid rx
  have hst : decide (descq.conf.st.toNat % 2 = 1) = descq.conf.st := by
    cases descq.conf.st <;> rfl
  have hc2h : decide (qTypeNum descq.conf.qType % 2 = 1) = (descq.conf.qType == .c2h) := by
    cases descq.conf.qType <;> rfl
  have hfuncId : { mboxDescqConfOf xdev descq with funcId := xdev.funcId } =
      mboxDescqConfOf xdev descq := by
    have hmod : xdev.funcId % 2 ^ 16 = xdev.funcId := Nat.mod_eq_of_lt hfunc
    unfold mboxDescqConfOf
    rw [hmod]
  unfold Setup.vfDescqContextSetup qdmaMboxPfRcvMsgHandler
  rw [hreq.op]
  dsimp only [exitFunc]
  rw [hconf, hreq.srcFuncId, hreq.qidHw, hreq.st, hreq.c2h, hreq.cmptCtxtType, hst, hc2h, hfuncId]
  exact h.mboxWriteQueueContexts hget hin _ _ _ log

end OnicDriver.Setup
