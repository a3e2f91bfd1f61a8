import OnicDriver.Access.Context
import OnicDriver.Lib.Layout

/-!
# Layout of the hardware contexts

The members of the context structures in the order of their declaration.
-/

namespace OnicDriver.Access

open Lib

/-- `struct qdma_qid2vec` in memory. -/
instance : CStruct Qid2vec where
  members :=
    [.u8, .u8, .u8, .u8]
  values c :=
    [c.c2hVector, c.c2hEnCoal, c.h2cVector, c.h2cEnCoal]
  ofValues v :=
    { c2hVector := v 0, c2hEnCoal := v 1, h2cVector := v 2, h2cEnCoal := v 3 }
  values_ofValues _ := rfl
  ofValues_values _ := rfl

/-- `struct qdma_fmap_cfg` in memory. -/
instance : CStruct FmapCfg where
  members :=
    [.u16, .u16]
  values c :=
    [c.qbase, c.qmax]
  ofValues v :=
    { qbase := v 0, qmax := v 1 }
  values_ofValues _ := rfl
  ofValues_values _ := rfl

/-- `struct qdma_descq_sw_ctxt` in memory. -/
instance : CStruct DescqSwCtxt where
  members :=
    [.u64, .u16, .u16, .u8, .u8, .u8, .u8, .u8, .u8, .u8, .u8, .u8, .u8, .u8, .u8, .u8, .u8, .u8,
     .u8, .u8, .u8, .u8, .u8, .u8, .u8, .u8, .u8, .u8, .u8, .u8, .u8, .u32, .u64]
  values c :=
    [c.ringBsAddr, c.vec, c.pidx, c.irqArm, c.fncId, c.qen, c.frcdEn, c.wbiChk, c.wbiIntvlEn,
     c.at_, c.fetchMax, c.rngszIdx, c.descSz, c.bypass, c.mmChn, c.wbkEn, c.irqEn, c.portId,
     c.irqNoLast, c.err, c.errWbSent, c.irqReq, c.mrkrDis, c.isMm, c.intrAggr, c.pasidEn,
     c.disIntrOnVf, c.virtioEn, c.packBypOut, c.irqByp, c.hostId, c.pasid, c.virtioDscBase]
  ofValues v :=
    { ringBsAddr := v 0, vec := v 1, pidx := v 2, irqArm := v 3, fncId := v 4, qen := v 5,
      frcdEn := v 6, wbiChk := v 7, wbiIntvlEn := v 8, at_ := v 9, fetchMax := v 10,
      rngszIdx := v 11, descSz := v 12, bypass := v 13, mmChn := v 14, wbkEn := v 15,
      irqEn := v 16, portId := v 17, irqNoLast := v 18, err := v 19, errWbSent := v 20,
      irqReq := v 21, mrkrDis := v 22, isMm := v 23, intrAggr := v 24, pasidEn := v 25,
      disIntrOnVf := v 26, virtioEn := v 27, packBypOut := v 28, irqByp := v 29, hostId := v 30,
      pasid := v 31, virtioDscBase := v 32 }
  values_ofValues _ := rfl
  ofValues_values _ := rfl

/-- `struct qdma_descq_hw_ctxt` in memory. -/
instance : CStruct DescqHwCtxt where
  members :=
    [.u16, .u16, .u8, .u8, .u8, .u8]
  values c :=
    [c.cidx, c.crdUse, c.dscPend, c.idlStpB, c.evtPnd, c.fetchPnd]
  ofValues v :=
    { cidx := v 0, crdUse := v 1, dscPend := v 2, idlStpB := v 3, evtPnd := v 4, fetchPnd := v 5 }
  values_ofValues _ := rfl
  ofValues_values _ := rfl

/-- `struct qdma_descq_credit_ctxt` in memory. -/
instance : CStruct DescqCreditCtxt where
  members :=
    [.u32]
  values c :=
    [c.credit]
  ofValues v :=
    { credit := v 0 }
  values_ofValues _ := rfl
  ofValues_values _ := rfl

/-- `struct qdma_descq_prefetch_ctxt` in memory. -/
instance : CStruct DescqPrefetchCtxt where
  members :=
    [.u16, .u8, .u8, .u8, .u8, .u16, .u8, .u8, .u8, .u8]
  values c :=
    [c.swCrdt, c.bypass, c.bufszIdx, c.portId, c.varDesc, c.numPftch, c.err, c.pfchEn, c.pfch,
     c.valid]
  ofValues v :=
    { swCrdt := v 0, bypass := v 1, bufszIdx := v 2, portId := v 3, varDesc := v 4,
      numPftch := v 5, err := v 6, pfchEn := v 7, pfch := v 8, valid := v 9 }
  values_ofValues _ := rfl
  ofValues_values _ := rfl

/-- `struct qdma_descq_cmpt_ctxt` in memory. -/
instance : CStruct DescqCmptCtxt where
  members :=
    [.u64, .u16, .u16, .u16, .u8, .u8, .u8, .u8, .u8, .u8, .u8, .u8, .u8, .u8, .u8, .u8, .u8, .u8,
     .u8, .u8, .u8, .u8, .u8, .u8, .u8, .u8, .u32, .u8, .u8, .u8]
  values c :=
    [c.bsAddr, c.vec, c.pidx, c.cidx, c.enStatDesc, c.enInt, c.trigMode, c.fncId, c.counterIdx,
     c.timerIdx, c.inSt, c.color, c.ringszIdx, c.descSz, c.valid, c.err, c.userTrigPend,
     c.timerRunning, c.fullUpd, c.ovfChkDis, c.at_, c.intAggr, c.disIntrOnVf, c.vio, c.dirC2h,
     c.hostId, c.pasid, c.pasidEn, c.vioEop, c.shCmpt]
  ofValues v :=
    { bsAddr := v 0, vec := v 1, pidx := v 2, cidx := v 3, enStatDesc := v 4, enInt := v 5,
      trigMode := v 6, fncId := v 7, counterIdx := v 8, timerIdx := v 9, inSt := v 10,
      color := v 11, ringszIdx := v 12, descSz := v 13, valid := v 14, err := v 15,
      userTrigPend := v 16, timerRunning := v 17, fullUpd := v 18, ovfChkDis := v 19, at_ := v 20,
      intAggr := v 21, disIntrOnVf := v 22, vio := v 23, dirC2h := v 24, hostId := v 25,
      pasid := v 26, pasidEn := v 27, vioEop := v 28, shCmpt := v 29 }
  values_ofValues _ := rfl
  ofValues_values _ := rfl

/-! ## The context of a queue -/

namespace DescqContext

open CStruct

/-- The parts of `struct qdma_descq_context`. -/
def parts : List CType :=
  [.struct (members Qid2vec), .struct (members FmapCfg), .struct (members DescqSwCtxt),
    .struct (members DescqHwCtxt), .struct (members DescqCreditCtxt),
    .struct (members DescqPrefetchCtxt), .struct (members DescqCmptCtxt)]

/-- Where a part lies. -/
def offset (i : ℕ) : ℕ := ((place 0 parts).map Field.offset).getD i 0

/-- Every number of the context fits its member. -/
structure Fits (c : DescqContext) : Prop where
  qid2vec : CStruct.Fits c.qid2vec
  fmap : CStruct.Fits c.fmap
  swCtxt : CStruct.Fits c.swCtxt
  hwCtxt : CStruct.Fits c.hwCtxt
  crCtxt : CStruct.Fits c.crCtxt
  pfetchCtxt : CStruct.Fits c.pfetchCtxt
  cmptCtxt : CStruct.Fits c.cmptCtxt

/-- The context found at `base`. -/
def load (base : ℕ) (m : ByteMem) : DescqContext where
  qid2vec := CStruct.load _ (base + offset 0) m
  fmap := CStruct.load _ (base + offset 1) m
  swCtxt := CStruct.load _ (base + offset 2) m
  hwCtxt := CStruct.load _ (base + offset 3) m
  crCtxt := CStruct.load _ (base + offset 4) m
  pfetchCtxt := CStruct.load _ (base + offset 5) m
  cmptCtxt := CStruct.load _ (base + offset 6) m

variable {base : ℕ} {m : ByteMem}

/-- An empty memory holds the empty context. -/
theorem load_zero (base : ℕ) : load base (fun _ => 0) = {} := by
  unfold load
  simp only [CStruct.load_zero]
  rfl

theorem load_congr {m' : ByteMem} (h : ∀ i, base ≤ i → m i = m' i) :
    load base m = load base m' := by
  have hpart : ∀ {α : Type} [CStruct α] (i : ℕ),
      CStruct.load α (base + offset i) m = CStruct.load α (base + offset i) m' :=
    fun i => CStruct.load_congr fun j hj _ => h j ((Nat.le_add_right _ _).trans hj)
  unfold load
  rw [hpart 0, hpart 1, hpart 2, hpart 3, hpart 4, hpart 5, hpart 6]

/-- Memories that agree below the completion context differ there only. -/
theorem load_eq_iff {m' : ByteMem} (h : ∀ i < base + offset 6, m i = m' i) :
    load base m = load base m' ↔
      CStruct.load DescqCmptCtxt (base + offset 6) m =
        CStruct.load DescqCmptCtxt (base + offset 6) m' := by
  have hpart : ∀ {α : Type} [CStruct α] {i : ℕ}, offset i + size α ≤ offset 6 →
      CStruct.load α (base + offset i) m = CStruct.load α (base + offset i) m' :=
    fun hle => CStruct.load_congr fun i _ hlt => h i (by omega)
  unfold load
  rw [hpart (by decide +kernel), hpart (by decide +kernel), hpart (by decide +kernel),
    hpart (by decide +kernel), hpart (by decide +kernel), hpart (by decide +kernel)]
  simp

/-- A part is not disturbed by a store to another part. -/
theorem load_part {α β : Type} [CStruct α] [CStruct β] {b : β} {i j : ℕ}
    (h : offset i + size β ≤ offset j ∨ offset j + size α ≤ offset i) :
    CStruct.load α (base + offset j) (CStruct.store (base + offset i) b m) =
      CStruct.load α (base + offset j) m :=
  load_store_of_disjoint (by omega)

theorem load_store_swCtxt {c : DescqSwCtxt} (hc : CStruct.Fits c) :
    load base (CStruct.store (base + offset 2) c m) = { load base m with swCtxt := c } := by
  unfold load
  rw [CStruct.load_store hc, load_part (by decide +kernel), load_part (by decide +kernel),
    load_part (by decide +kernel), load_part (by decide +kernel), load_part (by decide +kernel),
    load_part (by decide +kernel)]

theorem load_store_hwCtxt {c : DescqHwCtxt} (hc : CStruct.Fits c) :
    load base (CStruct.store (base + offset 3) c m) = { load base m with hwCtxt := c } := by
  unfold load
  rw [CStruct.load_store hc, load_part (by decide +kernel), load_part (by decide +kernel),
    load_part (by decide +kernel), load_part (by decide +kernel), load_part (by decide +kernel),
    load_part (by decide +kernel)]

theorem load_store_crCtxt {c : DescqCreditCtxt} (hc : CStruct.Fits c) :
    load base (CStruct.store (base + offset 4) c m) = { load base m with crCtxt := c } := by
  unfold load
  rw [CStruct.load_store hc, load_part (by decide +kernel), load_part (by decide +kernel),
    load_part (by decide +kernel), load_part (by decide +kernel), load_part (by decide +kernel),
    load_part (by decide +kernel)]

theorem load_store_pfetchCtxt {c : DescqPrefetchCtxt} (hc : CStruct.Fits c) :
    load base (CStruct.store (base + offset 5) c m) = { load base m with pfetchCtxt := c } := by
  unfold load
  rw [CStruct.load_store hc, load_part (by decide +kernel), load_part (by decide +kernel),
    load_part (by decide +kernel), load_part (by decide +kernel), load_part (by decide +kernel),
    load_part (by decide +kernel)]

theorem load_store_cmptCtxt {c : DescqCmptCtxt} (hc : CStruct.Fits c) :
    load base (CStruct.store (base + offset 6) c m) = { load base m with cmptCtxt := c } := by
  unfold load
  rw [CStruct.load_store hc, load_part (by decide +kernel), load_part (by decide +kernel),
    load_part (by decide +kernel), load_part (by decide +kernel), load_part (by decide +kernel),
    load_part (by decide +kernel)]

end DescqContext

end OnicDriver.Access
