import Mathlib.Data.Nat.Notation

/-!
# Hardware contexts

The context structures that the access layers of the different devices encode
and that travel through the mailbox. Every field is a number.
-/

namespace OnicDriver.Access

/-- `struct qdma_fmap_cfg`. -/
structure FmapCfg where
  qbase : ℕ := 0
  qmax : ℕ := 0
  deriving DecidableEq, Repr

/-- `struct qdma_qid2vec`. -/
structure Qid2vec where
  c2hVector : ℕ := 0
  c2hEnCoal : ℕ := 0
  h2cVector : ℕ := 0
  h2cEnCoal : ℕ := 0
  deriving DecidableEq, Repr

/-- `struct qdma_descq_sw_ctxt`. -/
structure DescqSwCtxt where
  ringBsAddr : ℕ := 0
  vec : ℕ := 0
  pidx : ℕ := 0
  irqArm : ℕ := 0
  fncId : ℕ := 0
  qen : ℕ := 0
  frcdEn : ℕ := 0
  wbiChk : ℕ := 0
  wbiIntvlEn : ℕ := 0
  at_ : ℕ := 0
  fetchMax : ℕ := 0
  rngszIdx : ℕ := 0
  descSz : ℕ := 0
  bypass : ℕ := 0
  mmChn : ℕ := 0
  wbkEn : ℕ := 0
  irqEn : ℕ := 0
  portId : ℕ := 0
  irqNoLast : ℕ := 0
  err : ℕ := 0
  errWbSent : ℕ := 0
  irqReq : ℕ := 0
  mrkrDis : ℕ := 0
  isMm : ℕ := 0
  intrAggr : ℕ := 0
  pasidEn : ℕ := 0
  disIntrOnVf : ℕ := 0
  virtioEn : ℕ := 0
  packBypOut : ℕ := 0
  irqByp : ℕ := 0
  hostId : ℕ := 0
  pasid : ℕ := 0
  virtioDscBase : ℕ := 0
  deriving DecidableEq, Repr

/-- `struct qdma_descq_hw_ctxt`. -/
structure DescqHwCtxt where
  cidx : ℕ := 0
  crdUse : ℕ := 0
  dscPend : ℕ := 0
  idlStpB : ℕ := 0
  evtPnd : ℕ := 0
  fetchPnd : ℕ := 0
  deriving DecidableEq, Repr

/-- `struct qdma_descq_credit_ctxt`. -/
structure DescqCreditCtxt where
  credit : ℕ := 0
  deriving DecidableEq, Repr

/-- `struct qdma_descq_prefetch_ctxt`. -/
structure DescqPrefetchCtxt where
  swCrdt : ℕ := 0
  bypass : ℕ := 0
  bufszIdx : ℕ := 0
  portId : ℕ := 0
  varDesc : ℕ := 0
  numPftch : ℕ := 0
  err : ℕ := 0
  pfchEn : ℕ := 0
  pfch : ℕ := 0
  valid : ℕ := 0
  deriving DecidableEq, Repr

/-- `struct qdma_descq_cmpt_ctxt`. -/
structure DescqCmptCtxt where
  bsAddr : ℕ := 0
  vec : ℕ := 0
  pidx : ℕ := 0
  cidx : ℕ := 0
  enStatDesc : ℕ := 0
  enInt : ℕ := 0
  trigMode : ℕ := 0
  fncId : ℕ := 0
  counterIdx : ℕ := 0
  timerIdx : ℕ := 0
  inSt : ℕ := 0
  color : ℕ := 0
  ringszIdx : ℕ := 0
  descSz : ℕ := 0
  valid : ℕ := 0
  err : ℕ := 0
  userTrigPend : ℕ := 0
  timerRunning : ℕ := 0
  fullUpd : ℕ := 0
  ovfChkDis : ℕ := 0
  at_ : ℕ := 0
  intAggr : ℕ := 0
  disIntrOnVf : ℕ := 0
  vio : ℕ := 0
  dirC2h : ℕ := 0
  hostId : ℕ := 0
  pasid : ℕ := 0
  pasidEn : ℕ := 0
  vioEop : ℕ := 0
  shCmpt : ℕ := 0
  deriving DecidableEq, Repr

/-- `struct qdma_indirect_intr_ctxt`. -/
structure IndirectIntrCtxt where
  baddr4k : ℕ := 0
  vec : ℕ := 0
  pidx : ℕ := 0
  valid : ℕ := 0
  intSt : ℕ := 0
  color : ℕ := 0
  pageSize : ℕ := 0
  at_ : ℕ := 0
  hostId : ℕ := 0
  pasid : ℕ := 0
  pasidEn : ℕ := 0
  funcId : ℕ := 0
  deriving DecidableEq, Repr

/-- `struct qdma_descq_context`. -/
structure DescqContext where
  qid2vec : Qid2vec := {}
  fmap : FmapCfg := {}
  swCtxt : DescqSwCtxt := {}
  hwCtxt : DescqHwCtxt := {}
  crCtxt : DescqCreditCtxt := {}
  pfetchCtxt : DescqPrefetchCtxt := {}
  cmptCtxt : DescqCmptCtxt := {}
  deriving DecidableEq, Repr

end OnicDriver.Access
