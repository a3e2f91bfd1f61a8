import OnicDriver.Setup.Programmed

/-!
# Agreement of the contexts of the PF and of a VF

Whether a queue gets the same contexts when its function is a VF as when it
belongs to the PF itself.
-/

namespace OnicDriver.Setup

open Lib Access Mailbox Resource Queue

/-! ## Started queues -/

section

variable (drvMode : DrvMode) (ipType : IpType) (conf : QdmaQueueConf)

/-- The queue after `qdma_queue_add` and calls of `qdma_queue_config`. -/
def configured (reconfigs : List QdmaQueueConf) (res : QueueResources) : Descq :=
  reconfigs.foldl (fun descq conf => qdmaDescqReconfig drvMode ipType conf descq)
    (qdmaDescqConfig conf res)

theorem foldl_reconfig (reconfigs : List QdmaQueueConf) (channel : ℕ) :
    ∃ final channel', final.st = conf.st ∧ final.qType = conf.qType ∧
      ∀ res, reconfigs.foldl (fun descq conf => qdmaDescqReconfig drvMode ipType conf descq)
          { qdmaDescqConfig conf res with channel := channel } =
        { qdmaDescqConfig final res with channel := channel' } := by
  induction reconfigs generalizing conf channel with
  | nil => exact ⟨conf, channel, rfl, rfl, fun _ => rfl⟩
  | cons reconf rest ih =>
    obtain ⟨final, channel', hst, hqType, hfinal⟩ := ih { reconf with
      st := conf.st, qType := conf.qType, at_ := conf.at_, mmChannel := conf.mmChannel
      irqEn := drvMode != .poll, cmplEnIntr := drvMode != .poll }
      (if ipType = .versalHardIp then reconf.mmChannel.toNat else channel)
    exact ⟨final, channel', hst, hqType, hfinal⟩

/-- What a configured queue has besides its resources, and what it keeps from the configuration
with which it was added. -/
theorem configured_eq (reconfigs : List QdmaQueueConf) :
    ∃ final channel, final.st = conf.st ∧ final.qType = conf.qType ∧
      ∀ res, configured drvMode ipType conf reconfigs res =
        { qdmaDescqConfig final res with channel := channel } :=
  foldl_reconfig drvMode ipType conf reconfigs 0

end

/-! ## Tables of a VF -/

/-- The tables of the device as a VF has them. -/
structure VfTables (env : HwEnv) (csr : GlobalCsrConf) (withCmpt stEn : Bool) : Prop where
  ringSz : ∀ i : Fin 16, csr.ringSz i = env.csr .ringSz i % 2 ^ 16
  c2hTimerCnt : withCmpt → ∀ i : Fin 16, csr.c2hTimerCnt i = env.csr .timerCnt i % 2 ^ 8
  c2hCntTh : withCmpt → ∀ i : Fin 16, csr.c2hCntTh i = env.csr .cntTh i % 2 ^ 8
  c2hBufSz : stEn → ∀ i : Fin 16, csr.c2hBufSz i = env.csr .bufSz i % 2 ^ 16

variable {env : HwEnv}

theorem Working.readCsrs (h : Working env) (tables : List CsrType) (log : HwLog) :
    readCsrs env tables 0 log = (0, log ++ tables.map (HwAccess.globalCsr ·, 0), true) := by
  induction tables generalizing log with
  | nil => simp [Mailbox.readCsrs]
  | cons t ts ih =>
    unfold Mailbox.readCsrs
    rw [h.perform]
    dsimp only
    rw [if_neg (by simp), ih]
    simp

theorem getD_csrTable (reads : HwLog) {type : CsrType} (n : ℕ)
    (hread : (HwAccess.globalCsr type, 0) ∈ reads) (i : Fin 16) :
    (csrTable env reads type n).getD i 0 = env.csr type i % 2 ^ n := by
  have hi : (i : ℕ) < QDMA_GLOBAL_CSR_ARRAY_SZ := i.isLt
  unfold csrTable
  rw [List.getD_eq_getElem?_getD, List.getElem?_map, List.getElem?_range hi, Option.map_some,
    if_pos hread]
  rfl

/-- What the VF gets in response to its request for the tables. -/
theorem Working.vfTables (h : Working env) (funcId : ℕ) (m : MboxMem) (s : ResourceState)
    (log : HwLog) :
    VfTables env (vfCsrInfo (handleCsr env funcId m s log).resp.body)
      (env.attributes.stEn || env.attributes.mmCmptEn) env.attributes.stEn := by
  have hbody : (handleCsr env funcId m s log).resp.body =
      let reads := (HwAccess.globalCsr .ringSz, 0) :: (csrTables env).map (HwAccess.globalCsr ·, 0)
      .csr (csrTable env reads .ringSz 16) (some (csrTable env reads .bufSz 16,
        csrTable env reads .timerCnt 8, csrTable env reads .cntTh 8)) := by
    unfold handleCsr
    rw [h.perform]
    dsimp only
    rw [if_neg (lt_irrefl _), h.readCsrs]
    simp [exitFunc]
  rw [hbody]
  refine ⟨fun i => ?_, fun hen i => ?_, fun hen i => ?_, fun hen i => ?_⟩
  · exact getD_csrTable _ 16 (by simp) i
  · exact getD_csrTable _ 8 (by simp [csrTables, hen]) i
  · exact getD_csrTable _ 8 (by simp [csrTables, hen]) i
  · exact getD_csrTable _ 16 (by simp [csrTables, hen]) i

/-! ## Lookups -/

/-- No entry before `i` has the value of entry `i`. -/
def First (T : ℕ → ℕ) (i : ℕ) : Prop := ∀ j < i, T j ≠ T i

/-- The value of entry `i` fits in `n` bits and no entry before has it. -/
def FirstFits (T : ℕ → ℕ) (n i : ℕ) : Prop := T i < 2 ^ n ∧ First T i

/-- The size of ring `i` less one fits in 16 bits, and no ring before has this size. -/
def RingFits (T : ℕ → ℕ) (i : ℕ) : Prop := 1 ≤ T i ∧ T i ≤ 2 ^ 16 ∧ First T i

/-- The entry found by its value of `n` bits is the entry itself if the value fits and is not
found before. -/
theorem lookup_eq_some_iff (type : CsrType) (n : ℕ) (i : Fin 16) :
    lookup env type (fun v => v = env.csr type i % 2 ^ n) = some ↑i ↔
      FirstFits (env.csr type) n i := by
  have hself : env.csr type i = env.csr type i % 2 ^ n ↔ env.csr type i < 2 ^ n := by
    rw [eq_comm, Nat.mod_eq_iff_lt (by positivity)]
  unfold lookup FirstFits First
  rw [List.find?_range_eq_some]
  simp only [decide_eq_true_eq, Bool.not_eq_true', decide_eq_false_iff_not, List.mem_range, hself]
  constructor
  · rintro ⟨hfit, -, hfirst⟩
    refine ⟨hfit, fun j hj => ?_⟩
    have hne := hfirst j hj
    rwa [Nat.mod_eq_of_lt hfit] at hne
  · rintro ⟨hfit, hfirst⟩
    refine ⟨hfit, i.isLt, fun j hj => ?_⟩
    rw [Nat.mod_eq_of_lt hfit]
    exact hfirst j hj

/-- The size of a ring less one, cut to 16 bits. -/
theorem u32_pred_eq_iff {t v : ℕ} (ht : t < 2 ^ 32) (hv : v < 2 ^ 16) :
    u32 ((v : ℤ) - 1) % 2 ^ 16 = u32 ((t : ℤ) - 1) ↔ 1 ≤ t ∧ t ≤ 2 ^ 16 ∧ t % 2 ^ 16 = v := by
  unfold u32
  omega

/-- The ring found by its size less one. -/
theorem ringIdx_eq_some_iff (hcsr : ∀ i, env.csr .ringSz i < 2 ^ 32) {v : ℕ} (hv : v < 2 ^ 16)
    (i : Fin 16) :
    ringIdx env (u32 ((v : ℤ) - 1) % 2 ^ 16) = some ↑i ↔
      RingFits (env.csr .ringSz) i ∧ env.csr .ringSz i % 2 ^ 16 = v := by
  unfold ringIdx lookup RingFits First
  rw [List.find?_range_eq_some]
  simp only [decide_eq_true_eq, Bool.not_eq_true', decide_eq_false_iff_not, List.mem_range,
    u32_pred_eq_iff (hcsr _) hv]
  constructor
  · rintro ⟨⟨hpos, hle, hmod⟩, -, hfirst⟩
    refine ⟨⟨hpos, hle, fun j hj heq => hfirst j hj ?_⟩, hmod⟩
    rw [heq]
    exact ⟨hpos, hle, hmod⟩
  · rintro ⟨⟨hpos, hle, hfirst⟩, hmod⟩
    refine ⟨⟨hpos, hle, hmod⟩, i.isLt, fun j hj hj' => hfirst j hj ?_⟩
    omega

/-! ## Contexts apart from their function -/

section

variable (xdev : XlnxDmaDev)

/-- A vector, or an interrupt ring counted from the first one of the function. -/
def relVec (vec : ℕ) : ℕ :=
  if xdev.aggregates then u16 (vec - xdev.funcId * QDMA_NUM_DATA_VEC_FOR_INTR_CXT) else vec

/-- A software context apart from its function. -/
def eraseSw (sw : DescqSwCtxt) : DescqSwCtxt := { sw with fncId := 0, vec := relVec xdev sw.vec }

/-- A completion context apart from its function. -/
def eraseCmpt (cmpt : DescqCmptCtxt) : DescqCmptCtxt :=
  { cmpt with fncId := 0, vec := relVec xdev cmpt.vec }

/-- The write of a context apart from the function and its first queue. -/
def eraseIds : HwAccess → HwAccess
  | .swCtx c2h _ (.write sw) => .swCtx c2h 0 (.write (eraseSw xdev sw))
  | .pfetchCtx _ op => .pfetchCtx 0 op
  | .cmptCtx _ (.write cmpt) => .cmptCtx 0 (.write (eraseCmpt xdev cmpt))
  | a => a

end

variable {pf vf : XlnxDmaDev} {dp dv : Descq}

/-- The vectors of a queue agree, where a VF has 11 bits for its own. -/
def VecsAgree (pf vf : XlnxDmaDev) (pfIntr vfIntr : ℕ) : Prop :=
  if pf.aggregates then
    u16 (pfIntr - pf.dvecStartIdx) =
      u16 ((vfIntr - vf.dvecStartIdx + vf.funcId * QDMA_NUM_DATA_VEC_FOR_INTR_CXT) % 2 ^ 11 -
        vf.funcId * QDMA_NUM_DATA_VEC_FOR_INTR_CXT)
  else pfIntr % 2 ^ 16 = vfIntr % 2 ^ 11

instance (pf vf : XlnxDmaDev) (pfIntr vfIntr : ℕ) : Decidable (VecsAgree pf vf pfIntr vfIntr) :=
  inferInstanceAs (Decidable (if pf.aggregates then (_ : ℕ) = _ else (_ : ℕ) = _))

theorem relVec_eq_iff (hmode : pf.drvMode = vf.drvMode) :
    relVec vf (intrVec vf dv % 2 ^ 11).toNat = relVec pf (u16 (intrVec pf dp)) ↔
      VecsAgree pf vf dp.intrId dv.intrId := by
  have haggr : vf.aggregates = pf.aggregates := by unfold XlnxDmaDev.aggregates; rw [hmode]
  have hcut : ∀ (x : ℤ) (n : ℕ), n ≤ 32 → s32 x % 2 ^ n = x % 2 ^ n := by
    intro x n hn
    have hdvd : (2 : ℤ) ^ n ∣ 2 ^ 32 := pow_dvd_pow 2 hn
    rw [← Int.emod_emod_of_dvd (s32 x) hdvd, ← Int.emod_emod_of_dvd x hdvd]
    congr 1
    exact Int.bmod_emod
  unfold relVec VecsAgree intrVec getIntrRingIndex
  rw [haggr]
  cases pf.aggregates
  · simp only [Bool.false_eq_true, if_false, u16]
    omega
  · simp only [if_true, u16, hcut _ 11 (by norm_num), hcut _ 16 (by norm_num)]
    omega

/-- The software contexts agree up to the size of the ring. -/
def SwAgrees (conf : QdmaQueueConf) (channel : ℕ) : Prop :=
  (conf.descBypass ∨ conf.stC2h) ∧
    (conf.bypass64 ∨ conf.stC2h ∨ if conf.st then conf.fetchCredit = false else channel = 0)

instance (conf : QdmaQueueConf) (channel : ℕ) : Decidable (SwAgrees conf channel) :=
  inferInstanceAs (Decidable ((_ ∨ _) ∧
    (_ ∨ _ ∨ if conf.st then conf.fetchCredit = false else channel = 0)))

/-- The software context of a queue that is no completion queue, field by field. -/
theorem makeSwContext_eq (hq : dp.conf.qType ≠ .cmpt) :
    makeSwContext pf dp =
      { vec := u16 (intrVec pf dp), intrAggr := pf.aggregates.toNat
        ringBsAddr := dp.descBus
        wbiChk := if dp.conf.stC2h then 0 else dp.conf.cmplStatusPendChk.toNat
        wbiIntvlEn := dp.conf.cmplStatusAccEn.toNat, rngszIdx := dp.conf.descRngSzIdx
        bypass := dp.conf.descBypass.toNat
        wbkEn := if dp.conf.stC2h then 0 else dp.conf.wbStatusEn.toNat
        irqEn := if dp.conf.stC2h then 0 else dp.conf.irqEn.toNat, isMm := notByte dp.conf.st
        qen := 1
        descSz := if dp.conf.bypass64 then dp.conf.swDescSz.val else
          if !dp.conf.st then DESC_SZ_32B.val else
            if dp.conf.qType = .c2h then DESC_SZ_8B.val else DESC_SZ_16B.val
        mmChn := if dp.conf.bypass64 || dp.conf.st then 0 else dp.channel
        frcdEn := if dp.conf.bypass64 || !dp.conf.st then 0 else dp.conf.fetchCredit.toNat
        fncId := pf.funcId % 2 ^ 8
        irqArm := if dp.conf.stC2h then 0 else dp.conf.irqEn.toNat
        mrkrDis := (!dp.conf.descBypass && !dp.conf.stC2h).toNat } := by
  unfold makeSwContext QdmaQueueConf.stC2h
  extract_lets conf sw₀ sw₁ sw₂ sw₃
  have hconf : dp.conf = conf := rfl
  have hsw₁ : sw₁ = { sw₀ with
      descSz := if conf.bypass64 then conf.swDescSz.val else
          if !conf.st then DESC_SZ_32B.val else
            if conf.qType = .c2h then DESC_SZ_8B.val else DESC_SZ_16B.val
      mmChn := if conf.bypass64 || conf.st then 0 else dp.channel
      frcdEn := if conf.bypass64 || !conf.st then 0 else conf.fetchCredit.toNat } := by
    simp only [sw₁]
    cases conf.bypass64 <;> cases conf.st <;> cases hqt : conf.qType <;>
      first | exact absurd hqt hq | rfl
  have hsw₃ : sw₃ = { sw₂ with
      irqEn := if conf.st && conf.qType == .c2h then 0 else sw₂.irqEn
      irqArm := if conf.st && conf.qType == .c2h then 0 else sw₂.irqArm
      wbkEn := if conf.st && conf.qType == .c2h then 0 else sw₂.wbkEn
      wbiChk := if conf.st && conf.qType == .c2h then 0 else sw₂.wbiChk } := by
    simp only [sw₃]
    split <;> rfl
  have hlast : (if !conf.descBypass && (!conf.st || conf.qType == .h2c) then
      { sw₃ with mrkrDis := 1 } else sw₃) =
      { sw₃ with
        mrkrDis := if !conf.descBypass && !(conf.st && conf.qType == .c2h) then 1
          else sw₃.mrkrDis } := by
    cases conf.descBypass <;> cases conf.st <;> cases hqt : conf.qType <;>
      first | exact absurd hqt hq | rfl
  rw [hlast, hsw₃]
  dsimp only [sw₂]
  rw [hsw₁]
  cases !conf.descBypass && !(conf.st && conf.qType == .c2h) <;> rfl

/-- The software context that the PF composes for such a queue of a VF, field by field. -/
theorem vfSwContextOf_eq (hq : dv.conf.qType ≠ .cmpt) (i : ℕ) :
    vfSwContextOf (mboxDescqConfOf vf dv) dv.conf.st (dv.conf.qType == .c2h) i =
      { vec := (intrVec vf dv % 2 ^ 11).toNat, intrAggr := vf.aggregates.toNat
        ringBsAddr := dv.descBus
        wbiChk := if dv.conf.stC2h then 0 else dv.conf.cmplStatusPendChk.toNat
        wbiIntvlEn := dv.conf.cmplStatusAccEn.toNat, rngszIdx := i
        bypass := dv.conf.descBypass.toNat
        wbkEn := if dv.conf.stC2h then 0 else dv.conf.wbStatusEn.toNat
        irqEn := if dv.conf.stC2h then 0 else dv.conf.irqEn.toNat, isMm := notByte dv.conf.st
        qen := 1
        descSz := if dv.conf.bypass64 then dv.conf.swDescSz.val else
          if !dv.conf.st then DESC_SZ_32B.val else
            if dv.conf.qType = .c2h then DESC_SZ_8B.val else DESC_SZ_16B.val
        frcdEn := if dv.conf.bypass64 || !dv.conf.stC2h then 0 else dv.conf.fetchCredit.toNat
        fncId := vf.funcId % 2 ^ 8
        irqArm := if dv.conf.stC2h then 0 else dv.conf.irqEn.toNat } := by
  have hfunc : vf.funcId % 2 ^ 16 % 2 ^ 8 = vf.funcId % 2 ^ 8 :=
    Nat.mod_mod_of_dvd _ (by norm_num)
  unfold vfSwContextOf mboxDescqConfOf QdmaQueueConf.stC2h
  extract_lets conf descSz sw
  have hconf : dv.conf = conf := rfl
  have hdesc : descSz =
      (if conf.bypass64 then conf.swDescSz.val else
          if !conf.st then DESC_SZ_32B.val else
            if conf.qType = .c2h then DESC_SZ_8B.val else DESC_SZ_16B.val,
        if conf.bypass64 || !(conf.st && conf.qType == .c2h) then 0
          else conf.fetchCredit.toNat) := by
    simp only [descSz]
    cases conf.bypass64 <;> cases conf.st <;> cases hqt : conf.qType <;>
      first | exact absurd hqt hq | rfl
  have hsw : (if conf.st && conf.qType == .c2h then
      { sw with irqEn := 0, irqArm := 0, wbkEn := 0, wbiChk := 0 } else sw) =
      { sw with
        irqEn := if conf.st && conf.qType == .c2h then 0 else sw.irqEn
        irqArm := if conf.st && conf.qType == .c2h then 0 else sw.irqArm
        wbkEn := if conf.st && conf.qType == .c2h then 0 else sw.wbkEn
        wbiChk := if conf.st && conf.qType == .c2h then 0 else sw.wbiChk } := by
    split <;> rfl
  rw [hconf, hsw]
  dsimp only [sw]
  rw [hdesc, hfunc]

/-- The software contexts agree if the configuration leads to the same fields. -/
theorem eraseSw_eq_iff (hmode : pf.drvMode = vf.drvMode) {k : Fin 16}
    (hconf : dv.conf = { dp.conf with cmplRngSzIdx := k }) (hbus : dv.descBus = dp.descBus)
    (hq : dp.conf.qType ≠ .cmpt) (i : ℕ) :
    eraseSw vf (vfSwContextOf (mboxDescqConfOf vf dv) dv.conf.st (dv.conf.qType == .c2h) i) =
        eraseSw pf (makeSwContext pf dp) ↔
      i = dp.conf.descRngSzIdx ∧ VecsAgree pf vf dp.intrId dv.intrId ∧
        SwAgrees dp.conf dp.channel := by
  have haggr : vf.aggregates = pf.aggregates := by unfold XlnxDmaDev.aggregates; rw [hmode]
  have hqv : dv.conf.qType ≠ .cmpt := by
    rw [hconf]
    exact hq
  have hstC2h : ({ dp.conf with cmplRngSzIdx := k } : QdmaQueueConf).stC2h = dp.conf.stC2h := rfl
  have hbypass : ({ dp.conf with cmplRngSzIdx := k } : QdmaQueueConf).bypass64 =
      dp.conf.bypass64 := rfl
  have hfields : ((if dp.conf.bypass64 || !dp.conf.stC2h then 0 else dp.conf.fetchCredit.toNat) =
        (if dp.conf.bypass64 || !dp.conf.st then 0 else dp.conf.fetchCredit.toNat) ∧
      0 = (if dp.conf.bypass64 || dp.conf.st then 0 else dp.channel) ∧
      0 = (!dp.conf.descBypass && !dp.conf.stC2h).toNat) ↔ SwAgrees dp.conf dp.channel := by
    unfold SwAgrees QdmaQueueConf.stC2h
    cases dp.conf.bypass64 <;> cases dp.conf.st <;> cases dp.conf.qType == .c2h <;>
      cases dp.conf.descBypass <;> cases dp.conf.fetchCredit <;> simp [eq_comm]
  rw [← relVec_eq_iff hmode, vfSwContextOf_eq hqv, makeSwContext_eq hq, ← hfields]
  unfold eraseSw
  simp only [DescqSwCtxt.mk.injEq, hconf, hbus, haggr, hstC2h, hbypass, true_and, and_true]
  tauto

/-- The prefetch contexts agree if the buffer size is found. -/
theorem vfPrefetchContextOf_eq_iff {k : Fin 16}
    (hconf : dv.conf = { dp.conf with cmplRngSzIdx := k }) (i : ℕ) :
    vfPrefetchContextOf (mboxDescqConfOf vf dv) i = makePrefetchContext dp ↔
      i = dp.conf.c2hBufSzIdx := by
  unfold vfPrefetchContextOf mboxDescqConfOf makePrefetchContext
  simp only [DescqPrefetchCtxt.mk.injEq, hconf, true_and, and_true]

/-- The completion contexts agree if the table entries are found and the full update that a
message does not carry is not wanted. -/
theorem eraseCmpt_eq_iff (hmode : pf.drvMode = vf.drvMode) {k : Fin 16}
    (hconf : dv.conf = { dp.conf with cmplRngSzIdx := k }) (hbus : dv.descCmptBus = dp.descCmptBus)
    (cntrIdx tmrIdx rngIdx : ℕ) :
    eraseCmpt vf (vfCmptContextOf (mboxDescqConfOf vf dv) cntrIdx tmrIdx rngIdx) =
        eraseCmpt pf (makeCmptContext pf dp) ↔
      cntrIdx = dp.conf.cmplCntThIdx ∧ tmrIdx = dp.conf.cmplTimerIdx ∧
        rngIdx = dp.conf.cmplRngSzIdx ∧ VecsAgree pf vf dp.intrId dv.intrId ∧
          dp.conf.adaptiveRx = false := by
  have haggr : vf.aggregates = pf.aggregates := by unfold XlnxDmaDev.aggregates; rw [hmode]
  have hupd : 0 = dp.conf.adaptiveRx.toNat ↔ dp.conf.adaptiveRx = false := by
    cases dp.conf.adaptiveRx <;> simp
  rw [← relVec_eq_iff hmode, ← hupd]
  unfold eraseCmpt vfCmptContextOf mboxDescqConfOf makeCmptContext
  simp only [DescqCmptCtxt.mk.injEq, hconf, hbus, haggr, true_and, and_true]
  tauto

/-! ## Agreement of all contexts -/

theorem map_getD_eq_iff {α β : Type} {o : Option (List α)} {f : α → β} {l : List β} (hl : l ≠ []) :
    l = (o.getD []).map f ↔ ∃ a, o = some a ∧ a.map f = l := by
  cases o with
  | none => simp [hl]
  | some a => simp [eq_comm]

variable (env)

/-- The software context that the PF composes agrees with that of its own queue. -/
theorem vfSwContext_eq_iff (hmode : pf.drvMode = vf.drvMode) {k : Fin 16}
    (hconf : dv.conf = { dp.conf with cmplRngSzIdx := k }) (hbus : dv.descBus = dp.descBus)
    (hq : dp.conf.qType ≠ .cmpt) :
    (∃ sw, vfSwContext env (mboxDescqConfOf vf dv) dv.conf.st (dv.conf.qType == .c2h) = some sw ∧
        eraseSw vf sw = eraseSw pf (makeSwContext pf dp)) ↔
      ringIdx env (mboxDescqConfOf vf dv).ringsz = some ↑dp.conf.descRngSzIdx ∧
        VecsAgree pf vf dp.intrId dv.intrId ∧ SwAgrees dp.conf dp.channel := by
  unfold vfSwContext
  simp only [Option.map_eq_some_iff, exists_exists_and_eq_and, eraseSw_eq_iff hmode hconf hbus hq]
  simp only [and_left_comm, exists_eq_left]

/-- The prefetch context that the PF composes is that of its own queue. -/
theorem vfPrefetchContext_eq_some_iff (vf : XlnxDmaDev) {k : Fin 16}
    (hconf : dv.conf = { dp.conf with cmplRngSzIdx := k }) :
    vfPrefetchContext env (mboxDescqConfOf vf dv) = some (makePrefetchContext dp) ↔
      lookup env .bufSz (fun v => v = (mboxDescqConfOf vf dv).bufsz) =
        some ↑dp.conf.c2hBufSzIdx := by
  unfold vfPrefetchContext
  simp only [Option.map_eq_some_iff, vfPrefetchContextOf_eq_iff hconf, exists_eq_right]

/-- The completion context that the PF composes agrees with that of its own queue. -/
theorem vfCmptContext_eq_iff (hmode : pf.drvMode = vf.drvMode) {k : Fin 16}
    (hconf : dv.conf = { dp.conf with cmplRngSzIdx := k })
    (hbus : dv.descCmptBus = dp.descCmptBus) :
    (∃ c, vfCmptContext env (mboxDescqConfOf vf dv) = some c ∧
        eraseCmpt vf c = eraseCmpt pf (makeCmptContext pf dp)) ↔
      lookup env .cntTh (fun v => v = (mboxDescqConfOf vf dv).cntThres) =
          some ↑dp.conf.cmplCntThIdx ∧
        lookup env .timerCnt (fun v => v = (mboxDescqConfOf vf dv).timerThres) =
          some ↑dp.conf.cmplTimerIdx ∧
        ringIdx env (mboxDescqConfOf vf dv).cmptRingsz = some ↑dp.conf.cmplRngSzIdx ∧
        VecsAgree pf vf dp.intrId dv.intrId ∧ dp.conf.adaptiveRx = false := by
  unfold vfCmptContext
  simp only [Option.bind_eq_some_iff, Option.map_eq_some_iff]
  constructor
  · rintro ⟨c, ⟨cntrIdx, hcntr, tmrIdx, htmr, rngIdx, hrng, rfl⟩, heq⟩
    obtain ⟨rfl, rfl, rfl, hvec, hupd⟩ := (eraseCmpt_eq_iff hmode hconf hbus _ _ _).mp heq
    exact ⟨hcntr, htmr, hrng, hvec, hupd⟩
  · rintro ⟨hcntr, htmr, hrng, hvec, hupd⟩
    exact ⟨_, ⟨_, hcntr, _, htmr, _, hrng, rfl⟩,
      (eraseCmpt_eq_iff hmode hconf hbus _ _ _).mpr ⟨rfl, rfl, rfl, hvec, hupd⟩⟩

/-- The contexts of a queue of the PF agree with those of a queue of a VF if what the message
says is found in the tables and the rest agrees. -/
theorem contexts_eq_iff (hmode : pf.drvMode = vf.drvMode) {k : Fin 16}
    (hconf : dv.conf = { dp.conf with cmplRngSzIdx := k }) (hbus : dv.descBus = dp.descBus)
    (hcmptBus : dv.descCmptBus = dp.descCmptBus)
    (hcmpt : dp.conf.qType = .cmpt → dp.conf.st = false) :
    (pfContexts pf dp).map (eraseIds pf) =
        ((vfContexts env (mboxDescqConfOf vf dv) dv.qidxHw dv.conf.st (dv.conf.qType == .c2h)
          (cmptCtxtTypeOf dv.conf)).getD []).map (eraseIds vf) ↔
      VecsAgree pf vf dp.intrId dv.intrId ∧
        (dp.conf.qType ≠ .cmpt →
          ringIdx env (mboxDescqConfOf vf dv).ringsz = some ↑dp.conf.descRngSzIdx ∧
            SwAgrees dp.conf dp.channel) ∧
        (dp.conf.stC2h →
          lookup env .bufSz (fun v => v = (mboxDescqConfOf vf dv).bufsz) =
            some ↑dp.conf.c2hBufSzIdx) ∧
        (dp.conf.withCmpt →
          lookup env .cntTh (fun v => v = (mboxDescqConfOf vf dv).cntThres) =
              some ↑dp.conf.cmplCntThIdx ∧
            lookup env .timerCnt (fun v => v = (mboxDescqConfOf vf dv).timerThres) =
              some ↑dp.conf.cmplTimerIdx ∧
            ringIdx env (mboxDescqConfOf vf dv).cmptRingsz = some ↑dp.conf.cmplRngSzIdx ∧
            dp.conf.adaptiveRx = false) := by
  have hcmptIff := vfCmptContext_eq_iff env hmode hconf hcmptBus
  by_cases hq : dp.conf.qType = .cmpt
  · have hst := hcmpt hq
    have hstC2h : dp.conf.stC2h = false := by simp [QdmaQueueConf.stC2h, hst]
    have hwith : dp.conf.withCmpt = true := by simp [QdmaQueueConf.withCmpt, hst, hq]
    have hpf : (pfContexts pf dp).map (eraseIds pf) =
        [.cmptCtx 0 (.write (eraseCmpt pf (makeCmptContext pf dp)))] := by
      unfold pfContexts
      rw [if_pos hq, hstC2h, hwith]
      rfl
    have hvf : cmptCtxtTypeOf dv.conf = .ctxtOnly := by simp [cmptCtxtTypeOf, hconf, hst, hq]
    have hwrites : ∀ c, [HwAccess.cmptCtx dv.qidxHw (.write c)].map (eraseIds vf) =
        [.cmptCtx 0 (.write (eraseCmpt pf (makeCmptContext pf dp)))] ↔
          eraseCmpt vf c = eraseCmpt pf (makeCmptContext pf dp) := by
      intro c
      simp [eraseIds]
    rw [hpf, hvf, map_getD_eq_iff (by simp), vfContexts, if_pos rfl]
    simp only [Option.map_eq_some_iff, exists_exists_and_eq_and, hwrites, hcmptIff, hq, hstC2h,
      hwith]
    tauto
  · have hwith : dp.conf.withCmpt = dp.conf.stC2h := by
      simp [QdmaQueueConf.withCmpt, hq]
    have hvfC2h : (dv.conf.st && dv.conf.qType == .c2h) = dp.conf.stC2h := by rw [hconf]; rfl
    have hc2h : (dv.conf.qType == .c2h) = (dp.conf.qType == .c2h) := by rw [hconf]
    have htype : cmptCtxtTypeOf dv.conf ≠ .ctxtOnly ∧
        (cmptCtxtTypeOf dv.conf).withCmpt = dp.conf.stC2h := by
      unfold cmptCtxtTypeOf QdmaQueueConf.stC2h
      rw [hconf]
      cases dp.conf.st <;> cases hqt : dp.conf.qType <;> first | exact absurd hqt hq | decide
    unfold pfContexts vfContexts
    rw [if_neg hq, if_neg htype.1, htype.2, hvfC2h, hwith, map_getD_eq_iff (by simp)]
    have hsw := vfSwContext_eq_iff env hmode hconf hbus hq
    cases hstC2h : dp.conf.stC2h
    · have hwrites : ∀ sw, [HwAccess.swCtx (dv.conf.qType == .c2h) dv.qidxHw (.write sw)].map
          (eraseIds vf) = [HwAccess.swCtx (dp.conf.qType == .c2h) dp.qidxHw
            (.write (makeSwContext pf dp))].map (eraseIds pf) ↔
          eraseSw vf sw = eraseSw pf (makeSwContext pf dp) := by
        intro sw
        simp [eraseIds, hc2h]
      simp only [Bool.false_eq_true, if_false, Option.bind_eq_some_iff, Option.bind_some,
        Option.map_some, Option.some.injEq, List.append_nil, exists_exists_and_eq_and, hwrites,
        hsw, false_imp_iff, and_true, ne_eq, hq, not_false_eq_true, true_imp_iff]
      tauto
    · have hwrites : ∀ sw pfetch cmpt,
          [HwAccess.swCtx (dv.conf.qType == .c2h) dv.qidxHw (.write sw),
          .pfetchCtx dv.qidxHw (.write pfetch), .cmptCtx dv.qidxHw (.write cmpt)].map
            (eraseIds vf) = [HwAccess.swCtx (dp.conf.qType == .c2h) dp.qidxHw
              (.write (makeSwContext pf dp)),
              .pfetchCtx dp.qidxHw (.write (makePrefetchContext dp)),
              .cmptCtx dp.qidxHw (.write (makeCmptContext pf dp))].map (eraseIds pf) ↔
          eraseSw vf sw = eraseSw pf (makeSwContext pf dp) ∧ pfetch = makePrefetchContext dp ∧
            eraseCmpt vf cmpt = eraseCmpt pf (makeCmptContext pf dp) := by
        intro sw pfetch cmpt
        simp [eraseIds, hc2h]
      have hpfetch := vfPrefetchContext_eq_some_iff env vf hconf
      simp only [if_true, Option.bind_eq_some_iff, Option.map_eq_some_iff, List.cons_append,
        List.nil_append]
      constructor
      · rintro ⟨a, ⟨sw, hswSome, pfetch, hpfetchSome, cmpt, hcmptSome, rfl⟩, heq⟩
        obtain ⟨hswEq, rfl, hcmptEq⟩ := (hwrites sw pfetch cmpt).mp heq
        obtain ⟨hring, hvec, hagree⟩ := hsw.mp ⟨sw, hswSome, hswEq⟩
        obtain ⟨hcntr, htmr, hcmptRing, -, hupd⟩ := hcmptIff.mp ⟨cmpt, hcmptSome, hcmptEq⟩
        exact ⟨hvec, fun _ => ⟨hring, hagree⟩, fun _ => hpfetch.mp hpfetchSome,
          fun _ => ⟨hcntr, htmr, hcmptRing, hupd⟩⟩
      · rintro ⟨hvec, hswAgree, hpfetchSome, hcmptAgree⟩
        obtain ⟨hring, hagree⟩ := hswAgree hq
        obtain ⟨hcntr, htmr, hcmptRing, hupd⟩ := hcmptAgree trivial
        obtain ⟨sw, hswSome, hswEq⟩ := hsw.mpr ⟨hring, hvec, hagree⟩
        obtain ⟨cmpt, hcmptSome, hcmptEq⟩ := hcmptIff.mpr ⟨hcntr, htmr, hcmptRing, hvec, hupd⟩
        exact ⟨_, ⟨sw, hswSome, _, hpfetch.mpr (hpfetchSome trivial), cmpt, hcmptSome, rfl⟩,
          (hwrites _ _ _).mpr ⟨hswEq, rfl, hcmptEq⟩⟩

variable {env}

/-! ## Agreement after configuration -/

/-- A VF has read the tables of the device with a request to the PF. -/
def ReadsTables (env : HwEnv) (vf : XlnxDmaDev) : Prop :=
  ∃ (dmaDeviceIndex pfFuncId : ℕ) (m : MboxMem) (s : ResourceState) (mem : CallocResults)
    (log : HwLog), MboxOp.fromByte m.op = some .csr ∧
      vf.csrInfo =
        vfCsrInfo (qdmaMboxPfRcvMsgHandler env dmaDeviceIndex pfFuncId m s mem log).resp.body

/-- The PF and a VF of a working device that have read its tables and take interrupts alike. -/
structure SameDevice (env : HwEnv) (pf vf : XlnxDmaDev) : Prop where
  working : Working env
  csr_lt : ∀ i, env.csr .ringSz i < 2 ^ 32
  drvMode : pf.drvMode = vf.drvMode
  pfTables : pf.csrInfo = pfCsrInfo env
  vfTables : ReadsTables env vf

/-- The completion ring of the PF is found by the size of that which the VF takes. -/
def CmplRingFits (ringSz : ℕ → ℕ) (conf : QdmaQueueConf) : Prop :=
  RingFits ringSz (cmplRngIdx ringSz conf) ∧
    ringSz (cmplRngIdx ringSz conf) % 2 ^ 16 =
      ringSz (cmplRngIdx (fun i => ringSz i % 2 ^ 16) conf) % 2 ^ 16

/-- The configured queue `descq` of the PF has the contexts that it has as a queue of the VF with
the vector `vfIntr` there. -/
structure ContextsAgree (csr : CsrType → ℕ → ℕ) (pf vf : XlnxDmaDev) (descq : Descq)
    (vfIntr : ℕ) : Prop where
  vecs : VecsAgree pf vf descq.intrId vfIntr
  sw : descq.conf.qType ≠ .cmpt →
    RingFits (csr .ringSz) descq.conf.descRngSzIdx ∧ SwAgrees descq.conf descq.channel
  pfetch : descq.conf.stC2h → FirstFits (csr .bufSz) 16 descq.conf.c2hBufSzIdx
  cmpt : descq.conf.withCmpt →
    FirstFits (csr .cntTh) 8 descq.conf.cmplCntThIdx ∧
      FirstFits (csr .timerCnt) 8 descq.conf.cmplTimerIdx ∧
      CmplRingFits (csr .ringSz) descq.conf ∧ descq.conf.adaptiveRx = false

theorem cmplRngIdx_congr {T T' : ℕ → ℕ} (h : ∀ i : Fin 16, T i = T' i) (conf : QdmaQueueConf) :
    cmplRngIdx T conf = cmplRngIdx T' conf := by
  unfold cmplRngIdx bestFitIdx
  simp only [h]

/-- What the completed configuration of a queue consists of. -/
theorem qdmaDescqConfigComplete_eq (csr : GlobalCsrConf) (descq : Descq) :
    qdmaDescqConfigComplete csr descq =
      { descq with
        conf := { descq.conf with
          cmplRngSzIdx := if descq.conf.withCmpt then cmplRngIdx csr.ringSz descq.conf
            else descq.conf.cmplRngSzIdx }
        rngsz := u32 (csr.ringSz descq.conf.descRngSzIdx - 1)
        rngszCmpt := if descq.conf.withCmpt then
            u32 (csr.ringSz (cmplRngIdx csr.ringSz descq.conf) - 1)
          else descq.rngszCmpt
        c2hBufsz := if descq.conf.withCmpt then csr.c2hBufSz descq.conf.c2hBufSzIdx
          else descq.c2hBufsz } := by
  unfold qdmaDescqConfigComplete
  dsimp only
  split <;> rfl

/-- What a VF knows of the tables. -/
theorem SameDevice.tables (hdev : SameDevice env pf vf) :
    VfTables env vf.csrInfo (env.attributes.stEn || env.attributes.mmCmptEn)
      env.attributes.stEn := by
  obtain ⟨dmaDeviceIndex, pfFuncId, m, s, mem, log, hop, hcsr⟩ := hdev.vfTables
  have htables := hdev.working.vfTables pfFuncId m s log
  have hhandler : (qdmaMboxPfRcvMsgHandler env dmaDeviceIndex pfFuncId m s mem log).resp.body =
      (handleCsr env pfFuncId m s log).resp.body := by
    unfold qdmaMboxPfRcvMsgHandler
    rw [hop]
  rwa [← hhandler, ← hcsr] at htables

section

variable (hdev : SameDevice env pf vf) (descq : Descq)
include hdev

/-- The ring named by the configuration is found by the size in the message. -/
theorem ringIdx_ringsz_iff :
    ringIdx env (mboxDescqConfOf vf (qdmaDescqConfigComplete vf.csrInfo descq)).ringsz =
        some ↑descq.conf.descRngSzIdx ↔
      RingFits (env.csr .ringSz) descq.conf.descRngSzIdx := by
  have hsize := hdev.tables.ringSz descq.conf.descRngSzIdx
  have hlt : vf.csrInfo.ringSz descq.conf.descRngSzIdx < 2 ^ 16 := by
    rw [hsize]
    exact Nat.mod_lt _ (by norm_num)
  rw [qdmaDescqConfigComplete_eq]
  exact (ringIdx_eq_some_iff hdev.csr_lt hlt _).trans (and_iff_left hsize.symm)

/-- The completion ring of the PF is found by the size in the message. -/
theorem ringIdx_cmptRingsz_iff (hwith : descq.conf.withCmpt) :
    ringIdx env (mboxDescqConfOf vf (qdmaDescqConfigComplete vf.csrInfo descq)).cmptRingsz =
        some ↑(cmplRngIdx (env.csr .ringSz) descq.conf) ↔
      CmplRingFits (env.csr .ringSz) descq.conf := by
  have hidx : cmplRngIdx vf.csrInfo.ringSz descq.conf =
      cmplRngIdx (fun i => env.csr .ringSz i % 2 ^ 16) descq.conf :=
    cmplRngIdx_congr hdev.tables.ringSz descq.conf
  have hsize := hdev.tables.ringSz (cmplRngIdx vf.csrInfo.ringSz descq.conf)
  have hlt : vf.csrInfo.ringSz (cmplRngIdx vf.csrInfo.ringSz descq.conf) < 2 ^ 16 := by
    rw [hsize]
    exact Nat.mod_lt _ (by norm_num)
  have hmessage : (mboxDescqConfOf vf (qdmaDescqConfigComplete vf.csrInfo descq)).cmptRingsz =
      u32 (vf.csrInfo.ringSz (cmplRngIdx vf.csrInfo.ringSz descq.conf) - 1) % 2 ^ 16 := by
    rw [qdmaDescqConfigComplete_eq, if_pos hwith, if_pos hwith]
    rfl
  rw [hmessage, ringIdx_eq_some_iff hdev.csr_lt hlt, hsize, hidx]
  rfl

/-- The buffer size named by the configuration is found by the size in the message. -/
theorem lookup_bufsz_iff (hstC2h : descq.conf.stC2h) (hen : env.attributes.stEn) :
    lookup env .bufSz (fun v =>
        v = (mboxDescqConfOf vf (qdmaDescqConfigComplete vf.csrInfo descq)).bufsz) =
      some ↑descq.conf.c2hBufSzIdx ↔ FirstFits (env.csr .bufSz) 16 descq.conf.c2hBufSzIdx := by
  have hwith : descq.conf.withCmpt = true := by simp [QdmaQueueConf.withCmpt, hstC2h]
  have hmessage : (mboxDescqConfOf vf (qdmaDescqConfigComplete vf.csrInfo descq)).bufsz =
      env.csr .bufSz descq.conf.c2hBufSzIdx % 2 ^ 16 := by
    rw [qdmaDescqConfigComplete_eq]
    dsimp only [mboxDescqConfOf]
    rw [if_pos hwith, hdev.tables.c2hBufSz hen, Nat.mod_mod]
  rw [hmessage, lookup_eq_some_iff]

variable (hen : env.attributes.stEn || env.attributes.mmCmptEn)
include hen

/-- The counter threshold named by the configuration is found by its value in the message. -/
theorem lookup_cntThres_iff :
    lookup env .cntTh (fun v =>
        v = (mboxDescqConfOf vf (qdmaDescqConfigComplete vf.csrInfo descq)).cntThres) =
      some ↑descq.conf.cmplCntThIdx ↔ FirstFits (env.csr .cntTh) 8 descq.conf.cmplCntThIdx := by
  have hmessage : (mboxDescqConfOf vf (qdmaDescqConfigComplete vf.csrInfo descq)).cntThres =
      env.csr .cntTh descq.conf.cmplCntThIdx % 2 ^ 8 := by
    rw [qdmaDescqConfigComplete_eq]
    dsimp only [mboxDescqConfOf]
    rw [hdev.tables.c2hCntTh hen, Nat.mod_mod]
  rw [hmessage, lookup_eq_some_iff]

/-- The timer threshold named by the configuration is found by its value in the message. -/
theorem lookup_timerThres_iff :
    lookup env .timerCnt (fun v =>
        v = (mboxDescqConfOf vf (qdmaDescqConfigComplete vf.csrInfo descq)).timerThres) =
      some ↑descq.conf.cmplTimerIdx ↔ FirstFits (env.csr .timerCnt) 8 descq.conf.cmplTimerIdx := by
  have hmessage : (mboxDescqConfOf vf (qdmaDescqConfigComplete vf.csrInfo descq)).timerThres =
      env.csr .timerCnt descq.conf.cmplTimerIdx % 2 ^ 8 := by
    rw [qdmaDescqConfigComplete_eq]
    dsimp only [mboxDescqConfOf]
    rw [hdev.tables.c2hTimerCnt hen, Nat.mod_mod]
  rw [hmessage, lookup_eq_some_iff]

end

theorem cmptCtxtTypeOf_congr {conf conf' : QdmaQueueConf} (hst : conf.st = conf'.st)
    (hqType : conf.qType = conf'.qType) : cmptCtxtTypeOf conf = cmptCtxtTypeOf conf' := by
  unfold cmptCtxtTypeOf
  rw [hst, hqType]

/-- The contexts that a queue gets as a queue of the PF and of a VF agree under these
conditions. -/
theorem completed_contexts_eq_iff (hdev : SameDevice env pf vf) (hsame : dv.conf = dp.conf)
    (hbus : dv.descBus = dp.descBus) (hcmptBus : dv.descCmptBus = dp.descCmptBus)
    (hcmpt : dp.conf.qType = .cmpt → dp.conf.st = false)
    (hst : dp.conf.stC2h → env.attributes.stEn)
    (hen : dp.conf.withCmpt → env.attributes.stEn || env.attributes.mmCmptEn) :
    (pfContexts pf (qdmaDescqConfigComplete pf.csrInfo dp)).map (eraseIds pf) =
        ((vfContexts env (mboxDescqConfOf vf (qdmaDescqConfigComplete vf.csrInfo dv)) dv.qidxHw
          dv.conf.st (dv.conf.qType == .c2h) (cmptCtxtTypeOf dv.conf)).getD []).map (eraseIds vf) ↔
      ContextsAgree env.csr pf vf dp dv.intrId := by
  have hpf := qdmaDescqConfigComplete_eq pf.csrInfo dp
  have hvf := qdmaDescqConfigComplete_eq vf.csrInfo dv
  have hconf : (qdmaDescqConfigComplete vf.csrInfo dv).conf =
      { (qdmaDescqConfigComplete pf.csrInfo dp).conf with
        cmplRngSzIdx := (qdmaDescqConfigComplete vf.csrInfo dv).conf.cmplRngSzIdx } := by
    rw [hpf, hvf, hsame]
  have hall := contexts_eq_iff env hdev.drvMode hconf (by rw [hpf, hvf]; exact hbus)
    (by rw [hpf, hvf]; exact hcmptBus) (by rw [hpf]; exact hcmpt)
  have hqid : (qdmaDescqConfigComplete vf.csrInfo dv).qidxHw = dv.qidxHw := by rw [hvf]
  have hintr : (qdmaDescqConfigComplete vf.csrInfo dv).intrId = dv.intrId := by rw [hvf]
  have hconfSt : (qdmaDescqConfigComplete vf.csrInfo dv).conf.st = dv.conf.st := by rw [hvf]
  have hconfType : (qdmaDescqConfigComplete vf.csrInfo dv).conf.qType = dv.conf.qType := by rw [hvf]
  have htype := cmptCtxtTypeOf_congr hconfSt hconfType
  rw [hqid, hconfSt, hconfType, htype] at hall
  rw [hall, hintr, hpf]
  have hring := ringIdx_ringsz_iff hdev dv
  have hcmptRing := ringIdx_cmptRingsz_iff hdev dv
  have hbufsz := lookup_bufsz_iff hdev dv
  have hcnt := lookup_cntThres_iff hdev dv
  have htimer := lookup_timerThres_iff hdev dv
  rw [hsame] at hring hcmptRing hbufsz hcnt htimer
  have hsizes : pf.csrInfo.ringSz = env.csr .ringSz := by
    rw [hdev.pfTables]
    rfl
  dsimp only
  rw [hring, hsizes]
  constructor
  · rintro ⟨hvecs, hsw, hpfetch, hcmptFound⟩
    refine ⟨hvecs, hsw, fun hc2h => (hbufsz hc2h (hst hc2h)).mp (hpfetch hc2h), fun hwith => ?_⟩
    obtain ⟨hcntFound, htimerFound, hringFound, hupd⟩ := hcmptFound hwith
    rw [if_pos hwith] at hringFound
    exact ⟨(hcnt (hen hwith)).mp hcntFound, (htimer (hen hwith)).mp htimerFound,
      (hcmptRing hwith).mp hringFound, hupd⟩
  · rintro ⟨hvecs, hsw, hpfetch, hcmptFits⟩
    refine ⟨hvecs, hsw, fun hc2h => (hbufsz hc2h (hst hc2h)).mpr (hpfetch hc2h),
      fun (hwith : dp.conf.withCmpt) => ?_⟩
    obtain ⟨hcntFits, htimerFits, hringFits, hupd⟩ := hcmptFits hwith
    rw [if_pos hwith]
    exact ⟨(hcnt (hen hwith)).mpr hcntFits, (htimer (hen hwith)).mpr htimerFits,
      (hcmptRing hwith).mpr hringFits, hupd⟩

/-- A configuration that is accepted needs the features of its contexts. -/
theorem features_of_accepts {attributes : DevAttributes} {ipType : IpType} {conf : QdmaQueueConf}
    (h : qdmaQueueAddAccepts attributes ipType conf) :
    (conf.qType = .cmpt → conf.st = false) ∧ (conf.stC2h → attributes.stEn) ∧
      (conf.withCmpt → attributes.stEn || attributes.mmCmptEn) := by
  unfold qdmaQueueAddAccepts at h
  simp only [Bool.and_eq_true] at h
  obtain ⟨⟨⟨hcmptSt, hcmptEn⟩, hmode⟩, -⟩ := h
  unfold QdmaQueueConf.withCmpt QdmaQueueConf.stC2h
  cases hst : conf.st <;> cases hq : conf.qType <;> simp_all

/-- The contexts that the PF programs for a queue of its own when it starts it, apart from their
function. -/
def pfPrograms (xdev : XlnxDmaDev) (descq : Descq) (env : HwEnv) (log : HwLog) : List HwAccess :=
  (programmed ((pfDescqContextSetup xdev descq env log).2.drop log.length)).map (eraseIds xdev)

/-- The contexts that the PF programs for a queue of a VF when this starts it, apart from their
function. -/
def vfPrograms (xdev : XlnxDmaDev) (descq : Descq) (env : HwEnv) (dmaDeviceIndex pfFuncId : ℕ)
    (s : ResourceState) (mem : CallocResults) (raw rx : ByteMem) (log : HwLog) : List HwAccess :=
  (programmed ((vfDescqContextSetup xdev descq env dmaDeviceIndex pfFuncId s mem raw rx
    log).log.drop log.length)).map (eraseIds xdev)

theorem pfPrograms_eq (h : Working env) (descq : Descq) (log : HwLog) :
    pfPrograms pf descq env log = (pfContexts pf descq).map (eraseIds pf) := by
  obtain ⟨new, hlog, hnew⟩ := h.pfDescqContextSetup pf descq log
  rw [pfPrograms, hlog, List.drop_left, hnew]

theorem vfPrograms_eq (h : Working env) (hbus : dv.descBus < 2 ^ 64)
    (hcmptBus : dv.descCmptBus < 2 ^ 64) (hqid : dv.qidxHw < 2 ^ 16) {dmaDeviceIndex : ℕ}
    (pfFuncId : ℕ) {s : ResourceState}
    (hget : ¬ (qdmaDevQinfoGet s dmaDeviceIndex vf.funcId).1 < 0)
    (hin : qdmaDevIsQueueInRange s dmaDeviceIndex vf.funcId dv.qidxHw = .inRange)
    (mem : CallocResults) (raw rx : ByteMem) (log : HwLog) :
    vfPrograms vf (qdmaDescqConfigComplete vf.csrInfo dv) env dmaDeviceIndex pfFuncId s mem raw rx
        log =
      ((vfContexts env (mboxDescqConfOf vf (qdmaDescqConfigComplete vf.csrInfo dv)) dv.qidxHw
        dv.conf.st (dv.conf.qType == .c2h) (cmptCtxtTypeOf dv.conf)).getD []).map
          (eraseIds vf) := by
  have hcomplete := qdmaDescqConfigComplete_eq vf.csrInfo dv
  obtain ⟨new, hlog, hnew⟩ := h.vfDescqContextSetup vf (qdmaDescqConfigComplete vf.csrInfo dv)
    (by rw [hcomplete]; exact hbus) (by rw [hcomplete]; exact hcmptBus)
    (by rw [hcomplete]; exact hqid) pfFuncId hget (by rw [hcomplete]; exact hin) mem raw rx log
  have hqidxHw : (qdmaDescqConfigComplete vf.csrInfo dv).qidxHw = dv.qidxHw := by rw [hcomplete]
  have hst : (qdmaDescqConfigComplete vf.csrInfo dv).conf.st = dv.conf.st := by rw [hcomplete]
  have hqType : (qdmaDescqConfigComplete vf.csrInfo dv).conf.qType = dv.conf.qType := by
    rw [hcomplete]
  rw [vfPrograms, hlog, List.drop_left, hnew, hqidxHw, hst, hqType,
    cmptCtxtTypeOf_congr hst hqType]

/-- A queue of the PF and a queue of a VF that are added with one configuration and configured
alike get the same contexts if and only if the configuration and the tables of the device meet
these conditions. -/
theorem pfPrograms_eq_vfPrograms_iff (hdev : SameDevice env pf vf) {ipType : IpType}
    {conf : QdmaQueueConf} (haccepts : qdmaQueueAddAccepts env.attributes ipType conf)
    (reconfigs : List QdmaQueueConf) (pfRes vfRes : QueueResources)
    (hbus : vfRes.descBus = pfRes.descBus) (hcmptBus : vfRes.descCmptBus = pfRes.descCmptBus)
    {dmaDeviceIndex : ℕ} {s : ResourceState}
    (hget : ¬ (qdmaDevQinfoGet s dmaDeviceIndex vf.funcId).1 < 0)
    (hin : qdmaDevIsQueueInRange s dmaDeviceIndex vf.funcId vfRes.qidxHw = .inRange)
    (mem : CallocResults) (raw rx : ByteMem) (pfLog vfLog : HwLog) :
    pfPrograms pf (qdmaDescqConfigComplete pf.csrInfo
          (configured pf.drvMode ipType conf reconfigs pfRes)) env pfLog =
        vfPrograms vf (qdmaDescqConfigComplete vf.csrInfo
          (configured vf.drvMode ipType conf reconfigs vfRes)) env dmaDeviceIndex pf.funcId s mem
          raw rx vfLog ↔
      ContextsAgree env.csr pf vf (configured pf.drvMode ipType conf reconfigs pfRes)
        vfRes.intrId := by
  obtain ⟨final, channel, hst, hqType, hfinal⟩ := configured_eq pf.drvMode ipType conf reconfigs
  rw [← hdev.drvMode, hfinal, hfinal]
  set dp : Descq := { qdmaDescqConfig final pfRes with channel := channel } with hdp
  set dv : Descq := { qdmaDescqConfig final vfRes with channel := channel } with hdv
  obtain ⟨hcmpt, hstEn, hcmptEn⟩ := features_of_accepts haccepts
  have hc2h : final.stC2h = conf.stC2h := by unfold QdmaQueueConf.stC2h; rw [hst, hqType]
  have hwith : final.withCmpt = conf.withCmpt := by
    unfold QdmaQueueConf.withCmpt
    rw [hc2h, hst, hqType]
  rw [← hst, ← hqType] at hcmpt
  rw [← hc2h] at hstEn
  rw [← hwith] at hcmptEn
  have hagree : _ ↔ ContextsAgree env.csr pf vf dp dv.intrId :=
    completed_contexts_eq_iff hdev (show dv.conf = dp.conf from rfl) hbus hcmptBus hcmpt hstEn
      hcmptEn
  rw [pfPrograms_eq hdev.working, vfPrograms_eq hdev.working vfRes.descBus_lt
    vfRes.descCmptBus_lt vfRes.qidxHw_lt pf.funcId hget hin mem raw rx vfLog]
  exact hagree

/-- A working device with different values in each table. -/
def tablesEnv : HwEnv := { HwEnv.zero with csr := fun _ i => i % 16 + 1 }

def tablesPf : XlnxDmaDev where
  drvMode := .poll
  funcId := 0
  dvecStartIdx := 0
  csrInfo := pfCsrInfo tablesEnv
  funcId_lt := by norm_num

/-- A VF of that device. -/
def tablesVf : XlnxDmaDev where
  drvMode := .poll
  funcId := 1
  dvecStartIdx := 0
  csrInfo :=
    vfCsrInfo
      (qdmaMboxPfRcvMsgHandler tablesEnv 0 0 (MboxMem.ofWords [3 + 2 ^ 16]) {} [] []).resp.body
  funcId_lt := by norm_num

theorem tables_sameDevice : SameDevice tablesEnv tablesPf tablesVf where
  working _ _ := rfl
  csr_lt i := by
    have hlt := Nat.mod_lt i (show 0 < 16 by norm_num)
    exact (Nat.add_lt_add_right hlt 1).trans (by norm_num)
  drvMode := rfl
  pfTables := rfl
  vfTables := ⟨0, 0, MboxMem.ofWords [3 + 2 ^ 16], {}, [], [], by decide, rfl⟩

/-- The resources of queue `qidxHw`. -/
def tablesRes (qidxHw : Fin 16) : QueueResources where
  qidxHw := qidxHw
  intrId := 2
  descBus := 4096
  descCmptBus := 8192
  qidxHw_lt := qidxHw.isLt.trans (by norm_num)
  descBus_lt := by norm_num
  descCmptBus_lt := by norm_num

/-- The VF has queues 4 to 7 of 16. -/
def tablesState : ResourceState where
  masterResourceList :=
    [{ dmaDeviceIndex := 0, pciBusStart := 0, pciBusEnd := 0, totalQ := 16, qbase := 0
       devList := [{ funcId := 1, entry := ⟨4, 4⟩ }], freeList := [⟨0, 4⟩, ⟨8, 8⟩] }]
  index := 1

/-- A streaming queue in C2H direction gets the same contexts. -/
theorem pfPrograms_eq_vfPrograms_c2h :
    pfPrograms tablesPf (qdmaDescqConfigComplete tablesPf.csrInfo
        (configured .poll .softIp { st := true, qType := .c2h } [] (tablesRes 0))) tablesEnv [] =
      vfPrograms tablesVf (qdmaDescqConfigComplete tablesVf.csrInfo
        (configured .poll .softIp { st := true, qType := .c2h } [] (tablesRes 5))) tablesEnv 0 0
        tablesState [] (fun _ => 0) (fun _ => 0) [] := by
  refine (pfPrograms_eq_vfPrograms_iff tables_sameDevice (by decide) [] (tablesRes 0) (tablesRes 5)
    rfl rfl (by decide) (by decide) [] (fun _ => 0) (fun _ => 0) [] []).mpr ?_
  have hfirst : ∀ i : Fin 16, First (fun i => i % 16 + 1) i := by
    intro i j hj
    have hi := i.isLt
    show j % 16 + 1 ≠ i % 16 + 1
    omega
  refine ⟨by decide, fun _ => ⟨⟨by decide, by decide, hfirst _⟩, by decide⟩,
    fun _ => ⟨by decide, hfirst _⟩,
    fun _ => ⟨⟨by decide, hfirst _⟩, ⟨by decide, hfirst _⟩,
      ⟨⟨by decide, by decide, hfirst _⟩, by decide⟩, by decide⟩⟩

/-- A queue for memory transfers gets the marker response disabled on the PF only. -/
theorem pfPrograms_ne_vfPrograms_mm :
    qdmaQueueAddAccepts tablesEnv.attributes .softIp {} ∧
      pfPrograms tablesPf (qdmaDescqConfigComplete tablesPf.csrInfo
          (configured .poll .softIp {} [] (tablesRes 0))) tablesEnv [] ≠
        vfPrograms tablesVf (qdmaDescqConfigComplete tablesVf.csrInfo
          (configured .poll .softIp {} [] (tablesRes 5))) tablesEnv 0 0 tablesState []
          (fun _ => 0) (fun _ => 0) [] := by
  refine ⟨by decide, fun heq => ?_⟩
  rw [pfPrograms_eq tables_sameDevice.working, vfPrograms_eq tables_sameDevice.working
    (tablesRes 5).descBus_lt (tablesRes 5).descCmptBus_lt (tablesRes 5).qidxHw_lt 0 (by decide)
    (by decide)] at heq
  revert heq
  decide +kernel

end OnicDriver.Setup
