import OnicDriver.Mailbox.Wire

/-!
# Reading queue contexts through the mailbox

What the PF stores to the response of a context read, and what of it the VF
finds in its message: the tail of the completion context lies behind the 32
words that are transferred.
-/

namespace OnicDriver.Mailbox

open Lib Access Resource

/-- The device reads contexts that fit their structures. -/
structure ContextsFit (env : HwEnv) : Prop where
  swCtxt : ∀ log, CStruct.Fits (env.swCtxt log)
  hwCtxt : ∀ log, CStruct.Fits (env.hwCtxt log)
  crCtxt : ∀ log, CStruct.Fits (env.crCtxt log)
  pfetchCtxt : ∀ log, CStruct.Fits (env.pfetchCtxt log)
  cmptCtxt : ∀ log, CStruct.Fits (env.cmptCtxt log)

section

variable (env : HwEnv)

/-- The stores of `mbox_read_queue_contexts` to the context at `base`: what the accesses logged
after `log` have read. -/
def storeContexts (base : ℕ) (log : HwLog) : HwLog → ByteMem → ByteMem
  | [], raw => raw
  | (a, rv) :: rest, raw =>
    let raw :=
      if rv < 0 then raw
      else match a with
        | .swCtx _ _ _ => CStruct.store (base + DescqContext.offset 2) (env.swCtxt log) raw
        | .hwCtx _ _ _ => CStruct.store (base + DescqContext.offset 3) (env.hwCtxt log) raw
        | .creditCtx _ _ _ => CStruct.store (base + DescqContext.offset 4) (env.crCtxt log) raw
        | .pfetchCtx _ _ => CStruct.store (base + DescqContext.offset 5) (env.pfetchCtxt log) raw
        | .cmptCtx _ _ => CStruct.store (base + DescqContext.offset 6) (env.cmptCtxt log) raw
        | _ => raw
    storeContexts base (log ++ [(a, rv)]) rest raw

/-- The accesses of a context read with their results. -/
def qctxtReads (req : MboxMem) (log : HwLog) : ℤ × HwLog :=
  match performAll env (queueContextAccesses .read req.qidHw req.st req.c2h req.cmptCtxtType) log
    with
  | (rv, log') => (rv, log'.drop log.length)

/-- The message of the response after the branch of `MBOX_OP_QCTXT_RD`. -/
def qctxtReadResponse (funcId : ℕ) (req : MboxMem) (log : HwLog) (raw : ByteMem) : ByteMem :=
  setMember hdrStatus ((qctxtReads env req log).1 % 2 ^ 8).toNat <|
    setMember hdrSrcFuncId funcId <| setMember hdrDstFuncId req.srcFuncId <|
      setMember hdrOp ((req.op + MBOX_MSG_OP_RSP_OFFSET) % 2 ^ 8) <|
        storeContexts env qctxtUnion.offset log (qctxtReads env req log).2 raw

end

/-- What the VF gets from the response: the words sent by the PF are received into the message
buffer `rx`, copied to the message `m` that waits for them, and read from there. -/
def vfObtains (resp rx m : ByteMem) : ℤ × DescqContext :=
  let words := loadAll 0 rawFields resp
  qdmaMboxVfContextGet (copyRaw (qdmaMboxRcv true (some ⟨0, words⟩) rx).2 m)

variable {env : HwEnv}

/-- The context in memory is the context that was read. -/
theorem load_storeContexts (henv : ContextsFit env) (base : ℕ) (log rest : HwLog)
    (raw : ByteMem) :
    DescqContext.load base (storeContexts env base log rest raw) =
      readContexts env log rest (DescqContext.load base raw) := by
  induction rest generalizing log raw with
  | nil => rfl
  | cons x rest ih =>
    obtain ⟨a, rv⟩ := x
    simp only [storeContexts, readContexts]
    rw [ih]
    congr 1
    split
    · rfl
    · cases a with
      | swCtx => exact DescqContext.load_store_swCtxt (henv.swCtxt log)
      | hwCtx => exact DescqContext.load_store_hwCtxt (henv.hwCtxt log)
      | creditCtx => exact DescqContext.load_store_crCtxt (henv.crCtxt log)
      | pfetchCtx => exact DescqContext.load_store_pfetchCtxt (henv.pfetchCtxt log)
      | cmptCtx => exact DescqContext.load_store_cmptCtxt (henv.cmptCtxt log)
      | _ => rfl

/-- The stores do not depend on what was there before. -/
theorem storeContexts_congr {raw raw' : ByteMem} {i : ℕ} (h : raw i = raw' i) (base : ℕ)
    (log rest : HwLog) :
    storeContexts env base log rest raw i = storeContexts env base log rest raw' i := by
  induction rest generalizing log raw raw' with
  | nil => exact h
  | cons x rest ih =>
    obtain ⟨a, rv⟩ := x
    simp only [storeContexts]
    refine ih ?_ _
    split
    · exact h
    · cases a with
      | swCtx => exact CStruct.store_congr h
      | hwCtx => exact CStruct.store_congr h
      | creditCtx => exact CStruct.store_congr h
      | pfetchCtx => exact CStruct.store_congr h
      | cmptCtx => exact CStruct.store_congr h
      | _ => exact h

/-! ## What the VF obtains -/

/-- Where the completion context lies in a message. -/
def cmptOffset : ℕ := qctxtUnion.offset + DescqContext.offset 6

/-- The members of a completion context that lie behind the words of a message are those found
there. -/
def FoundBehind (c : DescqCmptCtxt) (m : ByteMem) : Prop :=
  ∀ p ∈ (CStruct.fields DescqCmptCtxt).zip (CStruct.values c),
    rawSize < cmptOffset + p.1.offset + p.1.size →
      m.load (cmptOffset + p.1.offset) p.1.size = p.2

/-- The layout of the messages: the header lies before the union of the contexts, and the parts of
a context follow each other, the completion context as the last one. -/
theorem context_layout :
    (∀ f ∈ [hdrOp, hdrStatus, hdrSrcFuncId, hdrDstFuncId],
      f.offset + f.size ≤ qctxtUnion.offset) ∧
    (∀ f ∈ [qctxtQidHw, qctxtFlags], f.offset + f.size ≤ rawSize) ∧
    qctxtUnion.offset ≤ cmptOffset ∧ cmptOffset ≤ rawSize ∧
    (∀ f ∈ CStruct.fields DescqCmptCtxt,
      rawSize < cmptOffset + f.offset + f.size → rawSize ≤ cmptOffset + f.offset) ∧
    (∃ f ∈ CStruct.fields DescqCmptCtxt,
      cmptOffset + f.offset ≤ rawSize ∧ rawSize < cmptOffset + f.offset + f.size) ∧
    DescqContext.offset 2 + CStruct.size DescqSwCtxt ≤ DescqContext.offset 6 ∧
    DescqContext.offset 3 + CStruct.size DescqHwCtxt ≤ DescqContext.offset 6 ∧
    DescqContext.offset 4 + CStruct.size DescqCreditCtxt ≤ DescqContext.offset 6 ∧
    DescqContext.offset 5 + CStruct.size DescqPrefetchCtxt ≤ DescqContext.offset 6 := by
  decide +kernel

variable {funcId : ℕ} {req : MboxMem} {log : HwLog} {raw rx m : ByteMem}

/-- The header lies before the context. -/
theorem qctxtReadResponse_of_le {a : ℕ} (ha : qctxtUnion.offset ≤ a) :
    qctxtReadResponse env funcId req log raw a =
      storeContexts env qctxtUnion.offset log (qctxtReads env req log).2 raw a := by
  obtain ⟨hend, -⟩ := context_layout
  unfold qctxtReadResponse
  rw [setMember_of_outside (Or.inr ((hend hdrStatus (by simp)).trans ha)),
    setMember_of_outside (Or.inr ((hend hdrSrcFuncId (by simp)).trans ha)),
    setMember_of_outside (Or.inr ((hend hdrDstFuncId (by simp)).trans ha)),
    setMember_of_outside (Or.inr ((hend hdrOp (by simp)).trans ha))]

theorem qctxtReadResponse_congr {raw' : ByteMem} {a : ℕ} (h : raw a = raw' a) :
    qctxtReadResponse env funcId req log raw a = qctxtReadResponse env funcId req log raw' a := by
  unfold qctxtReadResponse setMember ByteMem.store
  rw [storeContexts_congr h]

/-- The response to a context read holds the context that was read. -/
theorem load_qctxtReadResponse (funcId : ℕ) (henv : ContextsFit env) :
    DescqContext.load qctxtUnion.offset
        (qctxtReadResponse env funcId req log fun _ => 0) =
      (mboxReadQueueContexts env req.qidHw req.st req.c2h req.cmptCtxtType log).2.1 := by
  have hload := load_storeContexts henv qctxtUnion.offset log (qctxtReads env req log).2
    fun _ => 0
  rw [DescqContext.load_zero] at hload
  rw [DescqContext.load_congr fun i hi => qctxtReadResponse_of_le hi, hload]
  rfl

/-- The message of the VF after the transfer: the words of the response, and what was behind
them. -/
theorem vfObtains_eq (rx m resp : ByteMem) : ∃ got : ByteMem,
    (vfObtains resp rx m).2 = DescqContext.load qctxtUnion.offset got ∧
      (∀ a < rawSize, got a = resp a) ∧ ∀ a, rawSize ≤ a → got a = m a := by
  refine ⟨_, rfl, fun a ha => ?_, fun a ha => if_neg (not_lt.mpr ha)⟩
  rw [copyRaw, if_pos ha, qdmaMboxRcv_vf]
  exact storeAll_rawFields ha

/-- The members behind the words of a message start there. -/
theorem cmptOffset_le {f : Field} (hf : f ∈ CStruct.fields DescqCmptCtxt)
    (h : rawSize < cmptOffset + f.offset + f.size) : rawSize ≤ cmptOffset + f.offset := by
  obtain ⟨-, -, -, -, hbehind, -⟩ := context_layout
  exact hbehind f hf h

/-- The VF obtains the context that the PF read if the tail of the completion context happens to
be behind its message. -/
theorem vfObtains_eq_iff (henv : ContextsFit env) (hraw : ∀ a < rawSize, raw a = 0) :
    (vfObtains (qctxtReadResponse env funcId req log raw) rx m).2 =
        (mboxReadQueueContexts env req.qidHw req.st req.c2h req.cmptCtxtType log).2.1 ↔
      FoundBehind
        (mboxReadQueueContexts env req.qidHw req.st req.c2h req.cmptCtxtType log).2.1.cmptCtxt
        m := by
  obtain ⟨got, hgot, hin, hbehind⟩ := vfObtains_eq rx m (qctxtReadResponse env funcId req log raw)
  have hagree : ∀ a < rawSize,
      got a = qctxtReadResponse env funcId req log (fun _ => 0) a := fun a ha =>
    (hin a ha).trans (qctxtReadResponse_congr (hraw a ha))
  obtain ⟨-, -, -, hle, -⟩ := context_layout
  rw [hgot, ← load_qctxtReadResponse funcId henv,
    DescqContext.load_eq_iff fun i hi => hagree i (hi.trans_le hle),
    CStruct.load_eq_iff_of_agree rfl hagree]
  refine forall₂_congr fun p hp => imp_congr_right fun hlimit => ?_
  have hstart := cmptOffset_le (List.of_mem_zip hp).1 hlimit
  have hload : got.load (cmptOffset + p.1.offset) p.1.size =
      m.load (cmptOffset + p.1.offset) p.1.size :=
    ByteMem.load_congr fun a ha _ => hbehind a (hstart.trans ha)
  exact ⟨hload.symm.trans, hload.trans⟩

/-- The VF obtains the status that the handler returns. -/
theorem vfObtains_status {dmaDeviceIndex : ℕ} {s : ResourceState} {mem : CallocResults}
    (hop : MboxOp.fromByte req.op = some .qctxtRd) :
    (vfObtains (qctxtReadResponse env funcId req log raw) rx m).1 =
      (qdmaMboxPfRcvMsgHandler env dmaDeviceIndex funcId req s mem log).resp.status := by
  have hstatus : (qdmaMboxPfRcvMsgHandler env dmaDeviceIndex funcId req s mem log).resp.status =
      s8 (qctxtReads env req log).1 := by
    unfold qdmaMboxPfRcvMsgHandler
    rw [hop]
    rfl
  obtain ⟨hhdr, -, hunion, hcmpt, -⟩ := context_layout
  have hend : hdrStatus.offset + hdrStatus.size ≤ rawSize :=
    (hhdr hdrStatus (by simp)).trans (hunion.trans hcmpt)
  have hmember : getMember hdrStatus (copyRaw (qdmaMboxRcv true (some ⟨0, loadAll 0 rawFields
      (qctxtReadResponse env funcId req log raw)⟩) rx).2 m) =
      getMember hdrStatus (qctxtReadResponse env funcId req log raw) := by
    refine ByteMem.load_congr fun a _ ha => ?_
    have ha := ha.trans_le hend
    rw [copyRaw, if_pos ha, qdmaMboxRcv_vf, storeAll_rawFields ha]
  have hlast : getMember hdrStatus (qctxtReadResponse env funcId req log raw) =
      ((qctxtReads env req log).1 % 2 ^ 8).toNat % 256 :=
    getMember_setMember _ _ _
  simp only [vfObtains, qdmaMboxVfContextGet, qdmaMboxVfResponseStatus]
  rw [hstatus, hmember, hlast]
  have hbyte : ((((qctxtReads env req log).1 % 2 ^ 8).toNat % 256 : ℕ) : ℤ) =
      (qctxtReads env req log).1 % (2 ^ 8 : ℕ) := by omega
  rw [s8, s8, hbyte, Int.emod_bmod]

/-! ## Stores behind the message -/

/-- No byte behind the words of a message is changed. -/
def StaysWithin (f : ByteMem → ByteMem) : Prop := ∀ raw a, rawSize ≤ a → f raw a = raw a

/-- A composition clears the whole union, which is longer than the message. -/
theorem composeVfQctxt_overruns (op : MboxOp) (funcId qidHw st c2h : ℕ)
    (cmptCtxtType : CmptCtxtType) :
    ¬ StaysWithin (composeVfQctxt op funcId qidHw st c2h cmptCtxtType) := by
  intro h
  obtain ⟨hhdr, hend, hunion, hcmpt, -⟩ := context_layout
  have hstart : qctxtUnion.offset ≤ rawSize := hunion.trans hcmpt
  have hbyte := h (fun _ => 1) rawSize le_rfl
  unfold composeVfQctxt at hbyte
  rw [setMember_of_outside (Or.inr (hend qctxtFlags (by simp))),
    setMember_of_outside (Or.inr (hend qctxtQidHw (by simp))),
    setMember_of_outside (Or.inr ((hhdr hdrSrcFuncId (by simp)).trans hstart)),
    setMember_of_outside (Or.inr ((hhdr hdrOp (by simp)).trans hstart)), qdmaMboxMemset,
    if_pos (by rw [size_qdmaMboxTxrx]; decide)] at hbyte
  exact absurd hbyte (by decide)

/-- The logged access has read a completion context. -/
def readsCmptCtxt : HwAccess × ℤ → Bool
  | (.cmptCtx _ _, rv) => 0 ≤ rv
  | _ => false

/-- Without a completion context no store reaches beyond the parts before it. -/
theorem storeContexts_of_noCmpt {base a : ℕ} (ha : base + DescqContext.offset 6 ≤ a)
    (log rest : HwLog) (hrest : ∀ x ∈ rest, readsCmptCtxt x = false) (raw : ByteMem) :
    storeContexts env base log rest raw a = raw a := by
  have hpart : ∀ {α : Type} [CStruct α] (i : ℕ) (c : α) (raw : ByteMem),
      DescqContext.offset i + CStruct.size α ≤ DescqContext.offset 6 →
        CStruct.store (base + DescqContext.offset i) c raw a = raw a :=
    fun i c raw hle => CStruct.store_of_outside (by omega)
  obtain ⟨-, -, -, -, -, -, hsw, hhw, hcr, hpfetch⟩ := context_layout
  induction rest generalizing log raw with
  | nil => rfl
  | cons x rest ih =>
    obtain ⟨b, rv⟩ := x
    have hfirst := hrest _ List.mem_cons_self
    simp only [storeContexts]
    rw [ih _ fun x hx => hrest x (List.mem_cons_of_mem _ hx)]
    split
    · rfl
    · rename_i hrv
      cases b with
      | swCtx => exact hpart 2 _ _ hsw
      | hwCtx => exact hpart 3 _ _ hhw
      | creditCtx => exact hpart 4 _ _ hcr
      | pfetchCtx => exact hpart 5 _ _ hpfetch
      | cmptCtx => exact absurd hfirst (by simpa [readsCmptCtxt] using hrv)
      | _ => rfl

/-- A completion context that was read overwrites its members. -/
theorem storeContexts_of_cmpt (base : ℕ) {a : ℕ} {f : Field} (hf : f ∈ CStruct.fields DescqCmptCtxt)
    (hle : base + DescqContext.offset 6 + f.offset ≤ a)
    (hlt : a < base + DescqContext.offset 6 + f.offset + f.size) (log rest : HwLog)
    {x : HwAccess × ℤ} (hx : x ∈ rest) (hcmpt : readsCmptCtxt x = true) (raw raw' : ByteMem) :
    storeContexts env base log rest raw a = storeContexts env base log rest raw' a := by
  induction rest generalizing log raw raw' with
  | nil => simp at hx
  | cons y rest ih =>
    obtain ⟨b, rv⟩ := y
    simp only [storeContexts]
    rcases List.mem_cons.mp hx with rfl | hx
    · cases b with
      | cmptCtx =>
        have hrv : ¬ rv < 0 := by simpa [readsCmptCtxt] using hcmpt
        rw [if_neg hrv, if_neg hrv]
        exact storeContexts_congr (CStruct.store_inside hf hle hlt) _ _ _
      | _ => simp [readsCmptCtxt] at hcmpt
    · exact ih _ hx _ _

/-- Handling a context read stays within the response unless it reads a completion context. -/
theorem qctxtReadResponse_staysWithin_iff :
    StaysWithin (qctxtReadResponse env funcId req log) ↔
      ∀ x ∈ (qctxtReads env req log).2, readsCmptCtxt x = false := by
  obtain ⟨-, -, hunion, hle, -, hvalid, -⟩ := context_layout
  have hstart : qctxtUnion.offset ≤ rawSize := hunion.trans hle
  constructor
  · intro h x hx
    by_contra hcmpt
    -- the member `valid` is the first one behind the message
    obtain ⟨f, hf, hfirst, hlast⟩ := hvalid
    unfold cmptOffset at hfirst hlast
    have hzero := h (fun _ => 0) rawSize le_rfl
    have hone := h (fun _ => 1) rawSize le_rfl
    rw [qctxtReadResponse_of_le hstart] at hzero hone
    have hsame :
        storeContexts env qctxtUnion.offset log (qctxtReads env req log).2 (fun _ => 0) rawSize =
          storeContexts env qctxtUnion.offset log (qctxtReads env req log).2 (fun _ => 1)
            rawSize :=
      storeContexts_of_cmpt _ hf hfirst hlast log _ hx (Bool.eq_true_of_not_eq_false hcmpt) _ _
    rw [hzero, hone] at hsame
    exact absurd hsame (by decide)
  · intro h raw a ha
    rw [qctxtReadResponse_of_le (hstart.trans ha)]
    exact storeContexts_of_noCmpt (hle.trans ha) log _ h raw

/-! ## Context reads -/

/-- A context read as it should be: the VF obtains what the PF read, and neither the request
nor the response is written beyond the words of the message. -/
structure ContextReadSound (env : HwEnv) (funcId : ℕ) (req : MboxMem) (log : HwLog)
    (vfFuncId qidHw st c2h : ℕ) (cmptCtxtType : CmptCtxtType) (resp rx m : ByteMem) : Prop where
  obtains : (vfObtains (qctxtReadResponse env funcId req log resp) rx m).2 =
    (mboxReadQueueContexts env req.qidHw req.st req.c2h req.cmptCtxtType log).2.1
  composes : StaysWithin (qdmaMboxComposeVfQctxtRead vfFuncId qidHw st c2h cmptCtxtType)
  handles : StaysWithin (qctxtReadResponse env funcId req log)

/-- No context read is sound, since the composition of its request clears the whole union. The
VF obtains the context in the response if the tail of the completion context happens to lie
behind its message, and the response is overrun if a completion context was read. -/
theorem contextRead_not_sound (env : HwEnv) (henv : ContextsFit env)
    (dmaDeviceIndex funcId : ℕ) (req : MboxMem) (hop : MboxOp.fromByte req.op = some .qctxtRd)
    (s : ResourceState) (mem : CallocResults) (log : HwLog) (vfFuncId qidHw st c2h : ℕ)
    (cmptCtxtType : CmptCtxtType) (resp rx m : ByteMem) (hresp : ∀ a < rawSize, resp a = 0) :
    ∃ ctxt,
      (qdmaMboxPfRcvMsgHandler env dmaDeviceIndex funcId req s mem log).resp.body = .qctxt ctxt ∧
        ¬ ContextReadSound env funcId req log vfFuncId qidHw st c2h cmptCtxtType resp rx m ∧
        ((vfObtains (qctxtReadResponse env funcId req log resp) rx m).2 = ctxt ↔
          FoundBehind ctxt.cmptCtxt m) ∧
        (StaysWithin (qctxtReadResponse env funcId req log) ↔
          ∀ x ∈ (qctxtReads env req log).2, readsCmptCtxt x = false) := by
  refine ⟨_, ?_, ?_, vfObtains_eq_iff henv hresp, qctxtReadResponse_staysWithin_iff⟩
  · unfold qdmaMboxPfRcvMsgHandler
    rw [hop]
    rfl
  · intro hsound
    exact composeVfQctxt_overruns _ _ _ _ _ _ hsound.composes

/-- A device with a completion context in use. -/
def ringEnv : HwEnv := { HwEnv.zero with cmptCtxt := fun _ => { bsAddr := 4096, valid := 1 } }

theorem ringEnv_contextsFit : ContextsFit ringEnv where
  swCtxt _ := (by decide +kernel : CStruct.Fits ({} : DescqSwCtxt))
  hwCtxt _ := (by decide +kernel : CStruct.Fits ({} : DescqHwCtxt))
  crCtxt _ := (by decide +kernel : CStruct.Fits ({} : DescqCreditCtxt))
  pfetchCtxt _ := (by decide +kernel : CStruct.Fits ({} : DescqPrefetchCtxt))
  cmptCtxt _ :=
    (by decide +kernel : CStruct.Fits ({ bsAddr := 4096, valid := 1 } : DescqCmptCtxt))

/-- A request of function 4 to read the contexts of its C2H queue 7 in streaming mode. -/
def readRequest : MboxMem := MboxMem.ofWords [0x40009, 0x70000, 0xB]

theorem contextRead_not_sound_streaming : ∃ ctxt,
    (qdmaMboxPfRcvMsgHandler ringEnv 0 0 readRequest {} [] []).resp.body =
        .qctxt ctxt ∧
      ¬ ContextReadSound ringEnv 0 readRequest [] 4 7 1 1 .withSt (fun _ => 0) (fun _ => 0)
        (fun _ => 0) ∧
      ((vfObtains (qctxtReadResponse ringEnv 0 readRequest [] fun _ => 0) (fun _ => 0)
          fun _ => 0).2 = ctxt ↔ FoundBehind ctxt.cmptCtxt fun _ => 0) ∧
      (StaysWithin (qctxtReadResponse ringEnv 0 readRequest []) ↔
        ∀ x ∈ (qctxtReads ringEnv readRequest []).2, readsCmptCtxt x = false) :=
  contextRead_not_sound ringEnv ringEnv_contextsFit 0 0 readRequest (by decide) {} [] []
    4 7 1 1 .withSt (fun _ => 0) (fun _ => 0) (fun _ => 0) fun _ _ => rfl

/-- The VF finds the completion context of that queue invalid, and both messages are overrun. -/
theorem contextRead_loses_valid :
    (vfObtains (qctxtReadResponse ringEnv 0 readRequest [] fun _ => 0) (fun _ => 0)
        fun _ => 0).2 ≠
        (mboxReadQueueContexts ringEnv readRequest.qidHw readRequest.st readRequest.c2h
          readRequest.cmptCtxtType []).2.1 ∧
      ¬ StaysWithin (qdmaMboxComposeVfQctxtRead 4 7 1 1 .withSt) ∧
      ¬ StaysWithin (qctxtReadResponse ringEnv 0 readRequest []) := by
  refine ⟨?_, composeVfQctxt_overruns _ _ _ _ _ _, ?_⟩
  · rw [Ne, vfObtains_eq_iff ringEnv_contextsFit fun _ _ => rfl]
    intro h
    have hvalid := h (⟨24, 1⟩, 1) (by decide +kernel) (by decide +kernel)
    exact absurd hvalid (by decide +kernel)
  · rw [qctxtReadResponse_staysWithin_iff]
    decide +kernel

end OnicDriver.Mailbox
