import OnicDriver.Mailbox.Wire

/-!
# The request to write queue contexts

What the PF reads in a request that a VF has composed: the header, the queue,
and the configuration, field for field.
-/

namespace OnicDriver.Mailbox

open Lib Access

variable {raw : ByteMem} {c : MboxDescqConf}

theorem word_rawWords (raw : ByteMem) (i : ℕ) : (rawWords raw).word i = raw.load (4 * i) 4 := by
  have hlt : raw.load (4 * i) 4 < 2 ^ 32 := raw.load_lt _ 4
  exact UInt32.toNat_ofNat_of_lt hlt

theorem MboxDescqConf.flagFields_laidOut (c : MboxDescqConf) : LaidOut c.flagFields := by
  unfold LaidOut flagFields
  simp only [List.map_cons, List.map_nil]
  decide

theorem MboxDescqConf.funcFields_laidOut (c : MboxDescqConf) : LaidOut c.funcFields := by
  unfold LaidOut funcFields
  simp only [List.map_cons, List.map_nil]
  decide

theorem MboxDescqConf.intrFields_laidOut (c : MboxDescqConf) : LaidOut c.intrFields := by
  unfold LaidOut intrFields
  simp only [List.map_cons, List.map_nil]
  decide

/-- Where the members of a configuration lie in a message. -/
theorem place_mboxDescqConf : qctxtUnion.offset = 16 ∧
    place 0 mboxDescqConf =
      [⟨0, 8⟩, ⟨8, 8⟩, ⟨16, 4⟩, ⟨20, 4⟩, ⟨24, 2⟩, ⟨26, 2⟩, ⟨28, 2⟩, ⟨30, 2⟩] := by
  decide +kernel

/-- The members of a configuration fit. -/
theorem MboxDescqConf.Fits.values (hc : c.Fits) : ValuesFit (place 0 mboxDescqConf) c.values := by
  have hflags : pack c.flagFields < 2 ^ 32 := pack_lt (by simp [flagFields])
  have hfunc : pack c.funcFields < 2 ^ 32 := pack_lt (by simp [funcFields])
  have hintr : pack c.intrFields < 2 ^ 16 := pack_lt (by simp [intrFields])
  have hring := hc.ringBsAddr
  have hcmpt := hc.cmptRingBsAddr
  have hringsz := hc.ringsz
  have hbufsz := hc.bufsz
  have hcmptsz := hc.cmptRingsz
  rw [place_mboxDescqConf.2]
  unfold ValuesFit MboxDescqConf.values
  simp only [List.forall₂_cons, List.Forall₂.nil, and_true]
  omega

/-- The PF reads the configuration that was stored. -/
theorem descqConf_rawWords (hc : c.Fits)
    (h : loadAll qctxtUnion.offset (place 0 mboxDescqConf) raw = c.values) :
    (rawWords raw).descqConf = c := by
  rw [place_mboxDescqConf.1, place_mboxDescqConf.2] at h
  simp only [loadAll, List.map_cons, List.map_nil, MboxDescqConf.values, List.cons.injEq,
    and_true, Nat.reduceAdd] at h
  obtain ⟨hring, hcmpt, hflags, hfunc, hintr, hringsz, hbufsz, hcmptsz⟩ := h
  have hring : (rawWords raw).word 4 + 2 ^ 32 * (rawWords raw).word 5 = c.ringBsAddr := by
    rw [word_rawWords, word_rawWords, ← hring]
    exact (raw.load_add 16 4 4).symm
  have hcmpt : (rawWords raw).word 6 + 2 ^ 32 * (rawWords raw).word 7 = c.cmptRingBsAddr := by
    rw [word_rawWords, word_rawWords, ← hcmpt]
    exact (raw.load_add 24 4 4).symm
  have hflags : (rawWords raw).word 8 = pack c.flagFields := (word_rawWords _ _).trans hflags
  have hfunc : (rawWords raw).word 9 = pack c.funcFields := (word_rawWords _ _).trans hfunc
  have hhalf : (rawWords raw).word 10 = pack c.intrFields + 2 ^ 16 * c.ringsz := by
    rw [word_rawWords, ← hintr, ← hringsz]
    exact raw.load_add 40 2 2
  have hlast : (rawWords raw).word 11 = c.bufsz + 2 ^ 16 * c.cmptRingsz := by
    rw [word_rawWords, ← hbufsz, ← hcmptsz]
    exact raw.load_add 44 2 2
  have hflags := gets_pack c.flagFields_laidOut hc.flags hflags
  have hfunc := gets_pack c.funcFields_laidOut hc.func hfunc
  have hintr := gets_pack c.intrFields_laidOut hc.intr rfl
  have hintrlt : pack c.intrFields < 2 ^ 16 := pack_lt (by simp [MboxDescqConf.intrFields])
  generalize pack c.intrFields = half at *
  simp only [MboxDescqConf.flagFields, MboxDescqConf.funcFields, MboxDescqConf.intrFields,
    List.map_cons, List.map_nil, List.cons.injEq, and_true, Mask.get_eq, Mask.width,
    Nat.reduceAdd, Nat.reduceSub] at hflags hfunc hintr
  have hringszlt := hc.ringsz
  have hbufszlt := hc.bufsz
  have hcmptszlt := hc.cmptRingsz
  have hid : bits ((rawWords raw).word 10) 0 11 = c.intrId := by
    unfold bits
    omega
  have haggr : bits ((rawWords raw).word 10) 11 1 = c.intrAggr := by
    unfold bits
    omega
  have hringsz : bits ((rawWords raw).word 10) 16 16 = c.ringsz := by
    unfold bits
    omega
  have hbufsz : bits ((rawWords raw).word 11) 0 16 = c.bufsz := by
    unfold bits
    omega
  have hcmptsz : bits ((rawWords raw).word 11) 16 16 = c.cmptRingsz := by
    unfold bits
    omega
  simp only [MboxMem.descqConf, hring, hcmpt, hid, haggr, hringsz, hbufsz, hcmptsz]
  simp only [bits, hflags, hfunc]

/-! ## The header -/

/-- Where the members of the header of a request lie. -/
theorem qctxtMembers : hdrOp = ⟨0, 1⟩ ∧ hdrSrcFuncId = ⟨2, 2⟩ ∧ qctxtQidHw = ⟨6, 2⟩ ∧
    qctxtFlags = ⟨8, 1⟩ := by
  decide +kernel

theorem CmptCtxtType.fromBits_toBits (t : CmptCtxtType) : fromBits t.toBits = t := by
  cases t <;> rfl

theorem CmptCtxtType.toBits_lt (t : CmptCtxtType) : t.toBits < 4 := by
  cases t <;> decide

theorem MboxOp.fromByte_toByte (op : MboxOp) : fromByte op.toByte = some op := by
  cases op <;> decide

/-- A request that says what it was composed from. -/
structure Requests (m : MboxMem) (op : MboxOp) (funcId qidHw st c2h : ℕ) (t : CmptCtxtType) :
    Prop where
  op : MboxOp.fromByte m.op = some op
  srcFuncId : m.srcFuncId = funcId
  qidHw : m.qidHw = qidHw
  st : m.st = decide (st % 2 = 1)
  c2h : m.c2h = decide (c2h % 2 = 1)
  cmptCtxtType : m.cmptCtxtType = t

variable {op : MboxOp} {funcId qidHw st c2h : ℕ} {t : CmptCtxtType}

/-- The members of a composed header. -/
theorem getMember_composeVfQctxt (op : MboxOp) (st c2h : ℕ) (t : CmptCtxtType) (raw : ByteMem)
    (hfunc : funcId < 2 ^ 16) (hqid : qidHw < 2 ^ 16) :
    getMember hdrOp (composeVfQctxt op funcId qidHw st c2h t raw) = op.toByte ∧
      getMember hdrSrcFuncId (composeVfQctxt op funcId qidHw st c2h t raw) = funcId ∧
      getMember qctxtQidHw (composeVfQctxt op funcId qidHw st c2h t raw) = qidHw ∧
      getMember qctxtFlags (composeVfQctxt op funcId qidHw st c2h t raw) =
        st % 2 + 2 * (c2h % 2) + 4 * t.toBits := by
  obtain ⟨hopAt, hsrcAt, hqidAt, hflagsAt⟩ := qctxtMembers
  have htype := t.toBits_lt
  have hbyte : op.toByte < 256 := by cases op <;> decide
  unfold composeVfQctxt
  rw [hopAt, hsrcAt, hqidAt, hflagsAt]
  refine ⟨?_, ?_, ?_, ?_⟩
  · rw [getMember_setMember_of_disjoint (by decide), getMember_setMember_of_disjoint (by decide),
      getMember_setMember_of_disjoint (by decide), getMember_setMember]
    exact Nat.mod_eq_of_lt hbyte
  · rw [getMember_setMember_of_disjoint (by decide), getMember_setMember_of_disjoint (by decide),
      getMember_setMember]
    exact Nat.mod_eq_of_lt hfunc
  · rw [getMember_setMember_of_disjoint (by decide), getMember_setMember]
    exact Nat.mod_eq_of_lt hqid
  · have hlt : st % 2 + 2 * (c2h % 2) + 4 * t.toBits < 256 := by omega
    rw [getMember_setMember]
    exact Nat.mod_eq_of_lt hlt

/-- The PF reads the header that was composed. -/
theorem requests_of_members (hop : getMember hdrOp raw = op.toByte)
    (hsrc : getMember hdrSrcFuncId raw = funcId) (hqid : getMember qctxtQidHw raw = qidHw)
    (hflags : getMember qctxtFlags raw = st % 2 + 2 * (c2h % 2) + 4 * t.toBits) :
    Requests (rawWords raw) op funcId qidHw st c2h t := by
  obtain ⟨hopAt, hsrcAt, hqidAt, hflagsAt⟩ := qctxtMembers
  rw [hopAt] at hop
  rw [hsrcAt] at hsrc
  rw [hqidAt] at hqid
  rw [hflagsAt] at hflags
  unfold getMember at hop hsrc hqid hflags
  dsimp only at hop hsrc hqid hflags
  have hbyte : op.toByte < 256 := by cases op <;> decide
  have htype := t.toBits_lt
  have hfunclt := raw.load_lt 2 2
  have hqidlt := raw.load_lt 6 2
  have hword0 : (rawWords raw).word 0 = op.toByte + 256 * raw.load 1 3 := by
    rw [word_rawWords, ← hop]
    exact raw.load_add 0 1 3
  have hword0' : (rawWords raw).word 0 = raw.load 0 2 + 256 ^ 2 * funcId := by
    rw [word_rawWords, ← hsrc]
    exact raw.load_add 0 2 2
  have hword1 : (rawWords raw).word 1 = raw.load 4 2 + 256 ^ 2 * qidHw := by
    rw [word_rawWords, ← hqid]
    exact raw.load_add 4 2 2
  have hword2 : (rawWords raw).word 2 =
      st % 2 + 2 * (c2h % 2) + 4 * t.toBits + 256 * raw.load 9 3 := by
    rw [word_rawWords, ← hflags]
    exact raw.load_add 8 1 3
  have hlow := raw.load_lt 0 2
  have hlow' := raw.load_lt 4 2
  constructor
  · have hval : (rawWords raw).op = op.toByte := by
      unfold MboxMem.op bits
      omega
    rw [hval, MboxOp.fromByte_toByte]
  · unfold MboxMem.srcFuncId bits
    omega
  · unfold MboxMem.qidHw bits
    omega
  · unfold MboxMem.st bits
    refine decide_eq_decide.mpr ?_
    omega
  · unfold MboxMem.c2h bits
    refine decide_eq_decide.mpr ?_
    omega
  · have hval : bits ((rawWords raw).word 2) 2 2 = t.toBits := by
      unfold bits
      omega
    rw [MboxMem.cmptCtxtType, hval, CmptCtxtType.fromBits_toBits]

/-! ## What the PF receives -/

/-- The PF receives the bytes of a message that names its sender. -/
theorem qdmaMboxRcv_pf {fromId a : ℕ} {request rx : ByteMem}
    (hsrc : getMember hdrSrcFuncId request = fromId) (ha : a < rawSize) :
    (qdmaMboxRcv false (some ⟨fromId, loadAll 0 rawFields request⟩) rx).2 a = request a := by
  have hlt : hdrSrcFuncId.offset + hdrSrcFuncId.size ≤ rawSize := by decide +kernel
  have hreceived : getMember hdrSrcFuncId (storeAll 0 rawFields (loadAll 0 rawFields request) rx) =
      fromId := by
    rw [← hsrc]
    exact ByteMem.load_congr fun i _ hi => storeAll_rawFields (hi.trans_le hlt)
  have hraw : (qdmaMboxRcv false (some ⟨fromId, loadAll 0 rawFields request⟩) rx).2 =
      storeAll 0 rawFields (loadAll 0 rawFields request) rx := by
    simp only [qdmaMboxRcv, hreceived, ne_eq, not_true_eq_false, decide_false, Bool.and_false,
      Bool.false_eq_true, if_false]
    rw [apply_ite Prod.snd, ite_self]
  rw [hraw, storeAll_rawFields ha]

/-- The PF reads what the VF composed. -/
theorem pfReceives_write (hc : c.Fits) (hfunc : funcId < 2 ^ 16) (hqid : qidHw < 2 ^ 16)
    (rx : ByteMem) :
    Requests (pfReceives funcId (qdmaMboxComposeVfQctxtWrite c funcId qidHw st c2h t raw) rx)
        .qctxtWrt funcId qidHw st c2h t ∧
      (pfReceives funcId (qdmaMboxComposeVfQctxtWrite c funcId qidHw st c2h t raw) rx).descqConf =
        c := by
  obtain ⟨hop, hsrc, hqidHw, hflags⟩ :=
    getMember_composeVfQctxt .qctxtWrt st c2h t raw hfunc hqid
  -- the configuration lies behind the header
  have hheader : ∀ f ∈ [hdrOp, hdrSrcFuncId, qctxtQidHw, qctxtFlags],
      f.offset + f.size ≤ qctxtUnion.offset := by decide +kernel
  have hmember : ∀ f ∈ [hdrOp, hdrSrcFuncId, qctxtQidHw, qctxtFlags],
      getMember f (qdmaMboxComposeVfQctxtWrite c funcId qidHw st c2h t raw) =
        getMember f (composeVfQctxt .qctxtWrt funcId qidHw st c2h t raw) := by
    intro f hf
    have hend := hheader f hf
    refine ByteMem.load_congr fun i _ hi => storeAll_of_outside fun g _ => ?_
    omega
  generalize hreq : qdmaMboxComposeVfQctxtWrite c funcId qidHw st c2h t raw = request at *
  have hsender : getMember hdrSrcFuncId request = funcId := (hmember _ (by simp)).trans hsrc
  have hgot : ∀ f ∈ [hdrOp, hdrSrcFuncId, qctxtQidHw, qctxtFlags],
      getMember f (qdmaMboxRcv false (some ⟨funcId, loadAll 0 rawFields request⟩) rx).2 =
        getMember f request := by
    intro f hf
    have hend := hheader f hf
    have hle : qctxtUnion.offset ≤ rawSize := by decide +kernel
    exact ByteMem.load_congr fun i _ hi => qdmaMboxRcv_pf hsender (by omega)
  refine ⟨requests_of_members ?_ ?_ ?_ ?_, descqConf_rawWords hc ?_⟩
  · rw [hgot _ (by simp), hmember _ (by simp), hop]
  · rw [hgot _ (by simp), hsender]
  · rw [hgot _ (by simp), hmember _ (by simp), hqidHw]
  · rw [hgot _ (by simp), hmember _ (by simp), hflags]
  · have hfields : ∀ f ∈ place 0 mboxDescqConf,
        qctxtUnion.offset + f.offset + f.size ≤ rawSize := by
      decide +kernel
    have hstored : loadAll qctxtUnion.offset (place 0 mboxDescqConf) request = c.values := by
      rw [← hreq]
      exact loadAll_storeAll (place_pairwise 0 _) hc.values
    rw [← hstored]
    refine List.map_congr_left fun f hf => ByteMem.load_congr fun i _ hi => ?_
    exact qdmaMboxRcv_pf hsender (hi.trans_le (hfields f hf))

end OnicDriver.Mailbox
