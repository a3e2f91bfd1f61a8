import OnicDriver.Lib.Runs
import OnicDriver.Queue.Descq
import Mathlib.Order.CompletePartialOrder
import Mathlib.Order.Interval.Set.Basic

/-!
# Interrupt vectors

A function sets up its vectors in one pass with a running index: those for
data, for the mailbox, for the user and for errors. A queue that is started is
assigned a data vector, which counts its queues until they are stopped.
-/

namespace OnicDriver.Interrupt

open Lib Queue

namespace Vectors

def EIO : ℤ := 5
def ENOMEM : ℤ := 12
def EINVAL : ℤ := 22

/-- `enum intr_type_list`. -/
inductive IntrType
  | error
  | user
  | data
  | mbox
  deriving DecidableEq, Repr

/-- The handlers that `intr_setup` passes on, one for each type. -/
inductive IntrHandler
  | errorIntrHandler
  | userIntrHandler
  | dataIntrHandler
  | mboxIntrHandler
  deriving DecidableEq, Repr

def IntrType.handler : IntrType → IntrHandler
  | .error => .errorIntrHandler
  | .user => .userIntrHandler
  | .data => .dataIntrHandler
  | .mbox => .mboxIntrHandler

/-- The compile-time options: a driver of virtual functions, no user vectors, no mailbox vector. -/
structure BuildOptions where
  qdmaVf : Bool
  userInterruptDisable : Bool
  mboxInterruptDisable : Bool
  deriving DecidableEq, Repr

/-- The configuration of the device, and whether its mailbox can interrupt: a soft device of
release 2019.1 or later. -/
structure DevConf where
  drvMode : DrvMode
  msixQvecMax : ℕ
  userMsixQvecMax : ℕ
  dataMsixQvecMax : ℕ
  masterPf : Bool
  mboxIntr : Bool
  deriving DecidableEq, Repr

/-- What the kernel answers: the number of vectors of the device, whether the two tables can be
allocated, and the results of `pci_enable_msix_exact` and of `request_irq` for each vector. -/
structure KernelEnv where
  msixVecCount : ℤ
  msixAlloc : Bool := true
  infoAlloc : Bool := true
  enableMsix : ℤ := 0
  requestIrq : ℕ → ℤ := fun _ => 0

/-- `struct intr_info_t`. The queues of the list are given by their positions. -/
structure IntrInfo where
  intrType : IntrType := .error
  intrVecIndex : ℕ := 0
  intrHandler : Option IntrHandler := none
  intrList : List ℕ := []
  intrListCnt : ℤ := 0
  deriving DecidableEq, Repr

/-- `dev_intr_info_list`: NULL, a table, or a table that was freed. -/
inductive InfoList
  | null
  | list (infos : List IntrInfo)
  | freed
  deriving DecidableEq, Repr

/-- The vectors of a function, and the interrupts requested from the kernel: the type and the
vector of each. -/
structure VecDev where
  numVecs : ℤ := 0
  dvecStartIdx : ℕ := 0
  devIntrInfoList : InfoList := .null
  irqs : List (IntrType × ℕ) := []
  flagIrq : Bool := false
  deriving DecidableEq, Repr

/-- Change the entry of a vector. -/
def VecDev.modifyInfo (i : ℕ) (f : IntrInfo → IntrInfo) (dev : VecDev) : VecDev :=
  match dev.devIntrInfoList with
  | .list infos => { dev with devIntrInfoList := .list (infos.modify i f) }
  | _ => dev

/-- `intr_vector_setup`. -/
def intrVectorSetup (build : BuildOptions) (env : KernelEnv) (idx : ℕ) (type : IntrType)
    (dev : VecDev) : ℤ × VecDev :=
  if type = .user ∧ build.userInterruptDisable then (-EINVAL, dev)
  else if type = .mbox ∧ build.mboxInterruptDisable then (-EINVAL, dev)
  else
    let dev := dev.modifyInfo idx fun info =>
      { info with intrType := type, intrVecIndex := idx, intrHandler := some type.handler }
    if env.requestIrq idx ≠ 0 then (env.requestIrq idx, dev)
    else (0, { dev with irqs := dev.irqs ++ [(type, idx)] })

/-- The vectors that `intr_setup` goes through: data, mailbox, user and error. -/
def vectorPlan (build : BuildOptions) (conf : DevConf) : List IntrType :=
  List.replicate conf.dataMsixQvecMax .data ++
    (List.replicate (if ¬ build.mboxInterruptDisable ∧ conf.mboxIntr then 1 else 0) .mbox ++
      (List.replicate (if build.userInterruptDisable then 0 else conf.userMsixQvecMax) .user ++
        List.replicate (if ¬ build.qdmaVf ∧ conf.masterPf then 1 else 0) .error))

/-- The loops of `intr_setup`: the result, the running index and the device. -/
def setupVectors (build : BuildOptions) (env : KernelEnv) :
    List IntrType → ℕ → VecDev → ℤ × ℕ × VecDev
  | [], i, dev => (0, i, dev)
  | type :: rest, i, dev =>
    match intrVectorSetup build env i type dev with
    | (rv, dev) => if rv ≠ 0 then (rv, i, dev) else setupVectors build env rest (i + 1) dev

/-- The number of vectors that `intr_setup` asks for. -/
def numVecsReq (build : BuildOptions) (conf : DevConf) : ℕ :=
  conf.userMsixQvecMax + conf.dataMsixQvecMax + (if conf.masterPf then 1 else 0) +
    (if ¬ build.mboxInterruptDisable ∧ conf.mboxIntr then 1 else 0)

/-- The error path of `intr_setup`: the interrupts before the running index are freed. -/
def cleanupIrq (i : ℕ) (dev : VecDev) : VecDev :=
  { dev with
    irqs := dev.irqs.filter fun v => decide (i ≤ v.2)
    numVecs := 0
    devIntrInfoList := .freed }

/-- `intr_setup`. -/
def intrSetup (build : BuildOptions) (conf : DevConf) (env : KernelEnv) (dev : VecDev) :
    ℤ × VecDev :=
  if conf.drvMode = .poll ∨ conf.drvMode = .legacyIntr then (0, dev)
  else if env.msixVecCount = 0 then (0, dev)
  else if conf.dataMsixQvecMax = 0 then (-EINVAL, dev)
  else
    let dev := { dev with numVecs := min env.msixVecCount conf.msixQvecMax }
    if (numVecsReq build conf : ℤ) > dev.numVecs then (-EINVAL, dev)
    else if env.msixAlloc = false then (-ENOMEM, dev)
    else if env.infoAlloc = false then (-ENOMEM, dev)
    else if env.enableMsix < 0 then (env.enableMsix, { dev with devIntrInfoList := .freed })
    else
      let dev := { dev with
        devIntrInfoList := .list (List.replicate dev.numVecs.toNat {})
        dvecStartIdx := 0 }
      match setupVectors build env (vectorPlan build conf) 0 dev with
      | (rv, i, dev) =>
        if rv ≠ 0 then (rv, cleanupIrq i dev) else (0, { dev with flagIrq := true })

/-! ## Starting and stopping queues -/

/-- A queue: its state and its vector. -/
structure VecQueue where
  qState : QState := .enabled
  intrId : ℕ := 0
  deriving DecidableEq, Repr

/-- The vectors of a function and its queues. -/
structure VecState where
  dev : VecDev
  descqs : List VecQueue
  deriving DecidableEq, Repr

/-- What happens while a queue is started: whether the design and the aperture allow it, and the
results of `qdma_descq_config_complete`, of the allocations of `qdma_descq_alloc_resource` and
of `qdma_descq_prog_hw`. -/
structure StartEnv where
  check : ℤ := 0
  config : ℤ := 0
  alloc : ℤ := 0
  prog : ℤ := 0
  deriving DecidableEq, Repr

/-- The loop of `desc_alloc_irq` over the entries from vector `i` on. -/
def fewestQueues : List IntrInfo → ℕ → ℕ → ℤ → ℕ
  | [], _, idx, _ => idx
  | info :: rest, i, idx, min =>
    if info.intrListCnt = 0 then i
    else
      let min := if min < 0 then info.intrListCnt else min
      if info.intrListCnt < min then fewestQueues rest (i + 1) i info.intrListCnt
      else fewestQueues rest (i + 1) idx min

/-- `desc_alloc_irq`: the vector of the queue afterwards, none if the table cannot be read. -/
def descAllocIrq (conf : DevConf) (dev : VecDev) (intrId : ℕ) : Option ℕ :=
  if dev.numVecs = 0 then some intrId
  else if conf.drvMode = .directIntr then
    match dev.devIntrInfoList with
    | .list infos =>
      if conf.dataMsixQvecMax ≤ infos.length then
        some (fewestQueues ((infos.take conf.dataMsixQvecMax).drop dev.dvecStartIdx)
          dev.dvecStartIdx dev.dvecStartIdx (-1))
      else none
    | _ => none
  else some dev.dvecStartIdx

/-- Change the entry of a vector, which must be there. -/
def VecDev.updateInfo (i : ℕ) (f : IntrInfo → IntrInfo) (dev : VecDev) : Option VecDev :=
  match dev.devIntrInfoList with
  | .list infos =>
    if i < infos.length then some { dev with devIntrInfoList := .list (infos.modify i f) }
    else none
  | _ => none

/-- Put a queue on the list of a vector. -/
def IntrInfo.addQueue (id : ℕ) (info : IntrInfo) : IntrInfo :=
  { info with intrList := info.intrList ++ [id], intrListCnt := info.intrListCnt + 1 }

/-- Take a queue off the list of a vector. -/
def IntrInfo.delQueue (id : ℕ) (info : IntrInfo) : IntrInfo :=
  { info with intrList := info.intrList.erase id, intrListCnt := info.intrListCnt - 1 }

/-- `qdma_queue_start`: the result and the state, none if a table that is not there is used. -/
def qdmaQueueStart (conf : DevConf) (id : ℕ) (env : StartEnv) (st : VecState) :
    Option (ℤ × VecState) :=
  match st.descqs[id]? with
  | none => some (-EINVAL, st)
  | some descq =>
    if descq.qState ≠ .enabled then some (-EINVAL, st)
    else if env.check < 0 then some (env.check, st)
    else if env.config < 0 then some (- EIO, st)
    else if env.alloc < 0 then some (env.alloc, st)
    else match descAllocIrq conf st.dev descq.intrId with
      | none => none
      | some intrId =>
        let descq := { descq with intrId := intrId }
        if env.prog < 0 then some (env.prog, { st with descqs := st.descqs.set id descq })
        else
          let online := st.descqs.set id { descq with qState := .online }
          if st.dev.numVecs ≠ 0 then
            (st.dev.updateInfo intrId (IntrInfo.addQueue id)).map fun dev =>
              (0, { dev := dev, descqs := online })
          else some (0, { st with descqs := online })

/-- `qdma_queue_stop`. -/
def qdmaQueueStop (conf : DevConf) (id : ℕ) (st : VecState) : Option (ℤ × VecState) :=
  match st.descqs[id]? with
  | none => some (-EINVAL, st)
  | some descq =>
    if descq.qState ≠ .online then some (-EINVAL, st)
    else
      let stopped := st.descqs.set id { descq with qState := .enabled }
      if conf.drvMode ≠ .poll ∧ conf.drvMode ≠ .legacyIntr then
        (st.dev.updateInfo descq.intrId (IntrInfo.delQueue id)).map fun dev =>
          (0, { dev := dev, descqs := stopped })
      else some (0, { st with descqs := stopped })

/-- A call for a queue. -/
inductive QueueCall
  | start (id : ℕ) (env : StartEnv)
  | stop (id : ℕ)
  deriving DecidableEq, Repr

/-- The state after a call. -/
def serve (conf : DevConf) (st : Option VecState) : QueueCall → Option VecState
  | .start id env => (st.bind (qdmaQueueStart conf id env)).map Prod.snd
  | .stop id => (st.bind (qdmaQueueStop conf id)).map Prod.snd

/-! ## The ranges of the vectors -/

/-- The vectors set up for a type. -/
def VecDev.vectors (dev : VecDev) (type : IntrType) : Set ℕ := {i | (type, i) ∈ dev.irqs}

/-- The vectors of each type are a range of those granted, and no vector is in two ranges or set
up twice. -/
structure RangesOk (env : KernelEnv) (dev : VecDev) : Prop where
  range : ∀ type, ∃ a b, dev.vectors type = Set.Ico a b
  apart : ∀ type type', type ≠ type' → Disjoint (dev.vectors type) (dev.vectors type')
  inside : ∀ type, ∀ i ∈ dev.vectors type, (i : ℤ) < dev.numVecs ∧ (i : ℤ) < env.msixVecCount
  once : (dev.irqs.map Prod.snd).Nodup

section Setup

variable {build : BuildOptions} {conf : DevConf} {env : KernelEnv}

/-- A table of which no vector has a queue. -/
def InfoList.Unused (n : ℕ) (l : InfoList) : Prop :=
  ∃ infos, l = .list infos ∧ infos.length = n ∧
    ∀ info ∈ infos, info.intrList = [] ∧ info.intrListCnt = 0

theorem modifyInfo_unused {n i : ℕ} {f : IntrInfo → IntrInfo} {dev : VecDev}
    (h : dev.devIntrInfoList.Unused n)
    (hf : ∀ info, (f info).intrList = info.intrList ∧ (f info).intrListCnt = info.intrListCnt) :
    (dev.modifyInfo i f).devIntrInfoList.Unused n := by
  obtain ⟨infos, hlist, hlength, hunused⟩ := h
  refine ⟨infos.modify i f, by simp [VecDev.modifyInfo, hlist], by simpa using hlength, ?_⟩
  intro info hinfo
  obtain ⟨k, hk, rfl⟩ := List.mem_iff_getElem.mp hinfo
  rw [List.getElem_modify]
  split
  · rw [(hf _).1, (hf _).2]
    exact hunused _ (List.getElem_mem _)
  · exact hunused _ (List.getElem_mem _)

/-- The frame of `modifyInfo`. -/
theorem modifyInfo_eq (i : ℕ) (f : IntrInfo → IntrInfo) (dev : VecDev) :
    ∃ l, dev.modifyInfo i f = { dev with devIntrInfoList := l } := by
  unfold VecDev.modifyInfo
  split
  · exact ⟨_, rfl⟩
  · exact ⟨dev.devIntrInfoList, rfl⟩

/-- One vector is set up, or the call fails. -/
theorem intrVectorSetup_ok {idx : ℕ} {type : IntrType} {dev dev' : VecDev} {n : ℕ}
    (h : intrVectorSetup build env idx type dev = (0, dev'))
    (hunused : dev.devIntrInfoList.Unused n) :
    dev'.irqs = dev.irqs ++ [(type, idx)] ∧ dev'.numVecs = dev.numVecs ∧
      dev'.dvecStartIdx = dev.dvecStartIdx ∧ dev'.devIntrInfoList.Unused n := by
  have hinval : (-EINVAL : ℤ) ≠ 0 := by decide
  unfold intrVectorSetup at h
  split at h
  · exact absurd (Prod.mk.inj h).1 hinval
  split at h
  · exact absurd (Prod.mk.inj h).1 hinval
  dsimp only at h
  split at h
  · rename_i hrv
    exact absurd (Prod.mk.inj h).1 hrv
  · obtain rfl := (Prod.mk.inj h).2
    obtain ⟨l, hl⟩ := modifyInfo_eq idx (fun info =>
      { info with intrType := type, intrVecIndex := idx, intrHandler := some type.handler }) dev
    have hkept := modifyInfo_unused (i := idx) hunused (f := fun info =>
      { info with intrType := type, intrVecIndex := idx, intrHandler := some type.handler })
      fun info => ⟨rfl, rfl⟩
    rw [hl] at hkept ⊢
    exact ⟨rfl, rfl, rfl, hkept⟩

/-- The loops number the vectors of the plan. -/
theorem setupVectors_ok {plan : List IntrType} {i k : ℕ} {dev dev' : VecDev} {n : ℕ}
    (h : setupVectors build env plan i dev = (0, k, dev'))
    (hunused : dev.devIntrInfoList.Unused n) :
    dev'.irqs = dev.irqs ++ plan.zipIdx i ∧ dev'.numVecs = dev.numVecs ∧
      dev'.dvecStartIdx = dev.dvecStartIdx ∧ dev'.devIntrInfoList.Unused n := by
  induction plan generalizing i dev with
  | nil =>
    cases h
    exact ⟨by simp, rfl, rfl, hunused⟩
  | cons type rest ih =>
    unfold setupVectors at h
    rcases hstep : intrVectorSetup build env i type dev with ⟨rv, dev₁⟩
    rw [hstep] at h
    dsimp only at h
    by_cases hrv : rv = 0
    · subst hrv
      rw [if_neg (by simp)] at h
      obtain ⟨hirqs, hnum, hstart, hunused₁⟩ := intrVectorSetup_ok hstep hunused
      obtain ⟨hirqs', hnum', hstart', hunused'⟩ := ih h hunused₁
      refine ⟨?_, hnum'.trans hnum, hstart'.trans hstart, hunused'⟩
      rw [hirqs', hirqs, List.zipIdx_cons, List.append_assoc]
      rfl
    · rw [if_pos hrv] at h
      exact absurd (Prod.mk.inj h).1 hrv

/-- The plan asks for no more vectors than `intr_setup` counts. -/
theorem length_vectorPlan_le : (vectorPlan build conf).length ≤ numVecsReq build conf := by
  simp only [vectorPlan, numVecsReq, List.length_append, List.length_replicate]
  split_ifs <;> simp_all <;> omega

/-- A setup that succeeds leaves no vectors, or those of the plan. -/
theorem intrSetup_ok {dev : VecDev} (h : intrSetup build conf env {} = (0, dev)) :
    dev = {} ∨ ∃ n : ℕ, dev.numVecs = n ∧ (n : ℤ) ≤ env.msixVecCount ∧
      numVecsReq build conf ≤ n ∧ 0 < conf.dataMsixQvecMax ∧
      (conf.drvMode ≠ .poll ∧ conf.drvMode ≠ .legacyIntr) ∧
      dev.irqs = (vectorPlan build conf).zipIdx ∧ dev.dvecStartIdx = 0 ∧
      dev.devIntrInfoList.Unused n := by
  have hinval : (-EINVAL : ℤ) ≠ 0 := by decide
  have hnomem : (-ENOMEM : ℤ) ≠ 0 := by decide
  unfold intrSetup at h
  by_cases hmode : conf.drvMode = .poll ∨ conf.drvMode = .legacyIntr
  · rw [if_pos hmode] at h
    exact Or.inl (Prod.mk.inj h).2.symm
  rw [if_neg hmode] at h
  by_cases hcount : env.msixVecCount = 0
  · rw [if_pos hcount] at h
    exact Or.inl (Prod.mk.inj h).2.symm
  rw [if_neg hcount] at h
  by_cases hdata : conf.dataMsixQvecMax = 0
  · rw [if_pos hdata] at h
    exact absurd (Prod.mk.inj h).1 hinval
  rw [if_neg hdata] at h
  dsimp only at h
  by_cases hreq : (numVecsReq build conf : ℤ) > min env.msixVecCount conf.msixQvecMax
  · rw [if_pos hreq] at h
    exact absurd (Prod.mk.inj h).1 hinval
  rw [if_neg hreq] at h
  split at h
  · exact absurd (Prod.mk.inj h).1 hnomem
  split at h
  · exact absurd (Prod.mk.inj h).1 hnomem
  split at h
  · rename_i henable
    exact absurd (Prod.mk.inj h).1 henable.ne
  right
  have hnat : ((min env.msixVecCount conf.msixQvecMax).toNat : ℤ) =
      min env.msixVecCount conf.msixQvecMax := by
    omega
  have hunused : InfoList.Unused (min env.msixVecCount (conf.msixQvecMax : ℤ)).toNat
      (.list (List.replicate (min env.msixVecCount (conf.msixQvecMax : ℤ)).toNat {})) := by
    refine ⟨_, rfl, List.length_replicate, fun info hinfo => ?_⟩
    rw [List.eq_of_mem_replicate hinfo]
    exact ⟨rfl, rfl⟩
  generalize hsetup : setupVectors build env (vectorPlan build conf) 0 _ = result at h
  obtain ⟨rv, k, dev₁⟩ := result
  dsimp only at h
  by_cases hrv : rv = 0
  · subst hrv
    rw [if_neg (by simp)] at h
    obtain ⟨hirqs, hnum, hstart, hunused'⟩ := setupVectors_ok hsetup hunused
    obtain rfl := (Prod.mk.inj h).2
    refine ⟨_, hnum.trans hnat.symm, ?_, ?_, Nat.pos_of_ne_zero hdata, ?_, ?_, hstart, hunused'⟩
    · omega
    · omega
    · exact not_or.mp hmode
    · simpa using hirqs
  · rw [if_pos hrv] at h
    exact absurd (Prod.mk.inj h).1 hrv

/-- Where the vectors of a type begin in the plan. -/
def planStart (build : BuildOptions) (conf : DevConf) : IntrType → ℕ
  | .data => 0
  | .mbox => conf.dataMsixQvecMax
  | .user => conf.dataMsixQvecMax +
      (if ¬ build.mboxInterruptDisable ∧ conf.mboxIntr then 1 else 0)
  | .error => conf.dataMsixQvecMax +
      (if ¬ build.mboxInterruptDisable ∧ conf.mboxIntr then 1 else 0) +
        (if build.userInterruptDisable then 0 else conf.userMsixQvecMax)

/-- How many vectors of a type are in the plan. -/
def planSize (build : BuildOptions) (conf : DevConf) : IntrType → ℕ
  | .data => conf.dataMsixQvecMax
  | .mbox => if ¬ build.mboxInterruptDisable ∧ conf.mboxIntr then 1 else 0
  | .user => if build.userInterruptDisable then 0 else conf.userMsixQvecMax
  | .error => if ¬ build.qdmaVf ∧ conf.masterPf then 1 else 0

/-- Vectors of one type follow each other. -/
theorem getElem?_vectorPlan {i : ℕ} {type : IntrType} :
    (vectorPlan build conf)[i]? = some type ↔
      planStart build conf type ≤ i ∧ i < planStart build conf type + planSize build conf type := by
  unfold vectorPlan
  generalize hm : (if ¬ build.mboxInterruptDisable ∧ conf.mboxIntr then 1 else 0) = m
  generalize hu : (if build.userInterruptDisable then 0 else conf.userMsixQvecMax) = u
  generalize he : (if ¬ build.qdmaVf ∧ conf.masterPf then 1 else 0) = e
  simp only [List.getElem?_append, List.getElem?_replicate, List.length_replicate]
  cases type <;> simp only [planStart, planSize, hm, hu, he] <;> split_ifs <;> simp <;> omega

theorem vectors_eq {dev : VecDev} (h : dev.irqs = (vectorPlan build conf).zipIdx)
    (type : IntrType) :
    dev.vectors type =
      Set.Ico (planStart build conf type)
        (planStart build conf type + planSize build conf type) := by
  ext i
  simp only [VecDev.vectors, h, Set.mem_ofPred_eq, Set.mem_Ico, List.mem_zipIdx_iff_getElem?,
    getElem?_vectorPlan]

/-- The ranges that are set up. -/
theorem rangesOk_of_intrSetup {dev : VecDev} (h : intrSetup build conf env {} = (0, dev)) :
    RangesOk env dev := by
  rcases intrSetup_ok h with rfl | ⟨n, hnum, hcount, hreq, -, -, hirqs, -, -⟩
  · have hnone : ∀ type, VecDev.vectors {} type = ∅ := fun type => by simp [VecDev.vectors]
    refine ⟨fun type => ⟨0, 0, by simp [hnone]⟩, fun _ _ _ => by simp [hnone], ?_,
      List.nodup_nil⟩
    intro type i hi
    simp [hnone] at hi
  · refine ⟨fun type => ⟨_, _, vectors_eq hirqs type⟩, ?_, ?_, ?_⟩
    · intro type type' hne
      refine Set.disjoint_left.mpr fun i hi hi' => hne ?_
      simp only [VecDev.vectors, hirqs, Set.mem_ofPred_eq, List.mem_zipIdx_iff_getElem?] at hi hi'
      exact Option.some.inj (hi.symm.trans hi')
    · intro type i hi
      simp only [VecDev.vectors, hirqs, Set.mem_ofPred_eq, List.mem_zipIdx_iff_getElem?] at hi
      have hlt := (List.getElem?_eq_some_iff.mp hi).1
      have hle := @length_vectorPlan_le build conf
      omega
    · rw [hirqs]
      rw [List.zipIdx_map_snd]
      exact List.nodup_range'

end Setup

/-! ## The vector with the fewest queues -/

/-- With `min` the count of vector `idx`, the loop ends with that vector or a later one that has
fewer queues. -/
theorem fewestQueues_of_pos {l : List IntrInfo} {i idx : ℕ} {min : ℤ} (hmin : 0 < min)
    (hnonneg : ∀ info ∈ l, 0 ≤ info.intrListCnt) :
    (fewestQueues l i idx min = idx ∧ ∀ b ∈ l, min ≤ b.intrListCnt) ∨
      ∃ k info, fewestQueues l i idx min = i + k ∧ l[k]? = some info ∧ info.intrListCnt < min ∧
        ∀ b ∈ l, info.intrListCnt ≤ b.intrListCnt := by
  induction l generalizing i idx min with
  | nil => exact Or.inl ⟨rfl, by simp⟩
  | cons info rest ih =>
    have hrest : ∀ b ∈ rest, 0 ≤ b.intrListCnt := fun b hb => hnonneg b (List.mem_cons_of_mem _ hb)
    unfold fewestQueues
    by_cases hzero : info.intrListCnt = 0
    · rw [if_pos hzero]
      refine Or.inr ⟨0, info, rfl, rfl, by omega, fun b hb => ?_⟩
      rw [hzero]
      exact hnonneg b hb
    · have hpos : 0 < info.intrListCnt :=
        lt_of_le_of_ne (hnonneg info List.mem_cons_self) (Ne.symm hzero)
      rw [if_neg hzero, if_neg hmin.not_gt]
      dsimp only
      by_cases hless : info.intrListCnt < min
      · rw [if_pos hless]
        right
        rcases ih hpos hrest with ⟨heq, hmost⟩ | ⟨k, best, heq, hk, hlt, hmost⟩
        · refine ⟨0, info, heq, rfl, hless, fun b hb => ?_⟩
          rcases List.mem_cons.mp hb with rfl | hb
          · exact le_rfl
          · exact hmost b hb
        · refine ⟨k + 1, best, by omega, hk, hlt.trans hless, fun b hb => ?_⟩
          rcases List.mem_cons.mp hb with rfl | hb
          · exact hlt.le
          · exact hmost b hb
      · rw [if_neg hless]
        rcases ih hmin hrest with ⟨heq, hmost⟩ | ⟨k, best, heq, hk, hlt, hmost⟩
        · refine Or.inl ⟨heq, fun b hb => ?_⟩
          rcases List.mem_cons.mp hb with rfl | hb
          · exact not_lt.mp hless
          · exact hmost b hb
        · refine Or.inr ⟨k + 1, best, by omega, hk, hlt, fun b hb => ?_⟩
          rcases List.mem_cons.mp hb with rfl | hb
          · exact hlt.le.trans (not_lt.mp hless)
          · exact hmost b hb

/-- The loop ends with a vector that has the fewest queues. -/
theorem fewestQueues_spec {l : List IntrInfo} (i : ℕ) (hne : l ≠ [])
    (hnonneg : ∀ info ∈ l, 0 ≤ info.intrListCnt) :
    ∃ k info, fewestQueues l i i (-1) = i + k ∧ l[k]? = some info ∧
      ∀ b ∈ l, info.intrListCnt ≤ b.intrListCnt := by
  cases l with
  | nil => exact absurd rfl hne
  | cons info rest =>
    have hrest : ∀ b ∈ rest, 0 ≤ b.intrListCnt := fun b hb => hnonneg b (List.mem_cons_of_mem _ hb)
    unfold fewestQueues
    by_cases hzero : info.intrListCnt = 0
    · rw [if_pos hzero]
      refine ⟨0, info, rfl, rfl, fun b hb => ?_⟩
      rw [hzero]
      exact hnonneg b hb
    · have hpos : 0 < info.intrListCnt :=
        lt_of_le_of_ne (hnonneg info List.mem_cons_self) (Ne.symm hzero)
      have hfirst : (-1 : ℤ) < 0 := by decide
      rw [if_neg hzero, if_pos hfirst, if_neg (lt_irrefl _)]
      rcases fewestQueues_of_pos hpos hrest with ⟨heq, hmost⟩ | ⟨k, best, heq, hk, hlt, hmost⟩
      · refine ⟨0, info, heq, rfl, fun b hb => ?_⟩
        rcases List.mem_cons.mp hb with rfl | hb
        · exact le_rfl
        · exact hmost b hb
      · refine ⟨k + 1, best, by omega, hk, fun b hb => ?_⟩
        rcases List.mem_cons.mp hb with rfl | hb
        · exact hlt.le
        · exact hmost b hb

/-! ## Runs of starts and stops -/

/-- The queue is online with the vector. -/
def VecQueue.uses (i : ℕ) (descq : VecQueue) : Bool :=
  decide (descq.qState = .online) && decide (descq.intrId = i)

/-- The entry of a vector. -/
def VecDev.info? (dev : VecDev) (i : ℕ) : Option IntrInfo :=
  match dev.devIntrInfoList with
  | .list infos => infos[i]?
  | _ => none

/-- Online queues have data vectors, and each vector lists and counts its queues. In a mode that
aggregates interrupts all queues have the first data vector. -/
structure Assigned (conf : DevConf) (st : VecState) : Prop where
  vector : ∀ descq ∈ st.descqs, descq.qState = .online → descq.intrId ∈ st.dev.vectors .data
  counts : ∀ i info, st.dev.info? i = some info →
    info.intrListCnt = st.descqs.countP (VecQueue.uses i)
  aggregated : conf.drvMode ≠ .directIntr →
    ∀ descq ∈ st.descqs, descq.qState = .online → descq.intrId = st.dev.dvecStartIdx

/-- The numbers of queues of any two data vectors differ by one at most. -/
def Balanced (st : VecState) : Prop :=
  ∀ i ∈ st.dev.vectors .data, ∀ j ∈ st.dev.vectors .data, ∀ a b, st.dev.info? i = some a →
    st.dev.info? j = some b → a.intrListCnt ≤ b.intrListCnt + 1

/-- The vectors a function has set up, and its table. -/
structure Ready (conf : DevConf) (n : ℕ) (dev : VecDev) (infos : List IntrInfo) : Prop where
  numVecs : dev.numVecs = n
  start : dev.dvecStartIdx = 0
  table : dev.devIntrInfoList = .list infos
  size : infos.length = n
  enough : 0 < conf.dataMsixQvecMax
  room : conf.dataMsixQvecMax ≤ n
  data : dev.vectors .data = Set.Iio conf.dataMsixQvecMax
  mode : conf.drvMode ≠ .poll ∧ conf.drvMode ≠ .legacyIntr

theorem Ready.info?_eq {conf : DevConf} {n : ℕ} {dev : VecDev} {infos : List IntrInfo}
    (h : Ready conf n dev infos) (i : ℕ) : dev.info? i = infos[i]? := by
  unfold VecDev.info?
  rw [h.table]

/-- A change of one entry. -/
theorem Ready.updateInfo {conf : DevConf} {n i : ℕ} {dev : VecDev} {infos : List IntrInfo}
    (h : Ready conf n dev infos) (hi : i < n) (f : IntrInfo → IntrInfo) :
    ∃ dev', dev.updateInfo i f = some dev' ∧ Ready conf n dev' (infos.modify i f) ∧
      dev'.dvecStartIdx = dev.dvecStartIdx ∧ dev'.vectors .data = dev.vectors .data ∧
      ∀ k, dev'.info? k = if i = k then (dev.info? k).map f else dev.info? k := by
  have hready : Ready conf n { dev with devIntrInfoList := .list (infos.modify i f) }
      (infos.modify i f) :=
    ⟨h.numVecs, h.start, rfl, by simpa using h.size, h.enough, h.room, h.data, h.mode⟩
  refine ⟨_, ?_, hready, rfl, rfl, fun k => ?_⟩
  · unfold VecDev.updateInfo
    rw [h.table]
    dsimp only
    rw [if_pos (by rw [h.size]; exact hi)]
  · rw [hready.info?_eq, h.info?_eq, List.getElem?_modify]
    split <;> simp

/-- The state between two calls. -/
structure Serving (conf : DevConf) (n : ℕ) (st : VecState) : Prop where
  ready : ∃ infos, Ready conf n st.dev infos
  assigned : Assigned conf st

section Serving

variable {conf : DevConf} {n : ℕ} {st : VecState}

/-- `desc_alloc_irq` finds a data vector, in direct interrupt mode one with the fewest queues. -/
theorem Serving.descAllocIrq (h : Serving conf n st) (intrId : ℕ) :
    ∃ k, Vectors.descAllocIrq conf st.dev intrId = some k ∧ k < conf.dataMsixQvecMax ∧
      (conf.drvMode ≠ .directIntr → k = st.dev.dvecStartIdx) ∧
      (conf.drvMode = .directIntr → ∀ a, st.dev.info? k = some a →
        ∀ j < conf.dataMsixQvecMax, ∀ b, st.dev.info? j = some b →
          a.intrListCnt ≤ b.intrListCnt) := by
  obtain ⟨infos, hready⟩ := h.ready
  have henough := hready.enough
  have hroom := hready.room
  have hsize := hready.size
  have hsome : st.dev.numVecs ≠ 0 := by
    rw [hready.numVecs]
    omega
  unfold Vectors.descAllocIrq
  rw [if_neg hsome]
  by_cases hdirect : conf.drvMode = .directIntr
  · rw [if_pos hdirect, hready.table, hready.start]
    dsimp only
    rw [if_pos (by omega), List.drop_zero]
    have hne : infos.take conf.dataMsixQvecMax ≠ [] := by
      intro hnil
      have hlength := congrArg List.length hnil
      simp only [List.length_take, List.length_nil] at hlength
      omega
    have hnonneg : ∀ info ∈ infos.take conf.dataMsixQvecMax, 0 ≤ info.intrListCnt := by
      intro info hinfo
      obtain ⟨j, hj, rfl⟩ := List.mem_iff_getElem.mp (List.mem_of_mem_take hinfo)
      rw [h.assigned.counts j _ (by rw [hready.info?_eq, List.getElem?_eq_getElem hj])]
      exact Int.natCast_nonneg _
    obtain ⟨k, info, heq, hk, hfewest⟩ := fewestQueues_spec 0 hne hnonneg
    have hlt : k < conf.dataMsixQvecMax := by
      have hbound := (List.getElem?_eq_some_iff.mp hk).1
      simp only [List.length_take] at hbound
      omega
    rw [List.getElem?_take_of_lt hlt] at hk
    refine ⟨k, by rw [heq, Nat.zero_add], hlt, fun hnot => absurd hdirect hnot, ?_⟩
    intro _ a ha j hj b hb
    rw [hready.info?_eq] at ha hb
    cases hk.symm.trans ha
    apply hfewest
    rw [← List.getElem?_take_of_lt hj] at hb
    exact List.mem_of_getElem? hb
  · rw [if_neg hdirect]
    refine ⟨st.dev.dvecStartIdx, rfl, ?_, fun _ => rfl, fun hnot => absurd hnot hdirect⟩
    rw [hready.start]
    exact henough

/-- What writing back one queue does to the number of queues of a vector. -/
theorem countP_set_uses {l : List VecQueue} {id : ℕ} {descq : VecQueue} (h : l[id]? = some descq)
    (descq' : VecQueue) (i : ℕ) :
    ((l.set id descq').countP (VecQueue.uses i) : ℤ) = l.countP (VecQueue.uses i) -
      (if descq.uses i then 1 else 0) + if descq'.uses i then 1 else 0 := by
  obtain ⟨hid, rfl⟩ := List.getElem?_eq_some_iff.mp h
  rw [List.countP_set hid]
  by_cases huses : VecQueue.uses i l[id] = true
  · have hpos : 0 < l.countP (VecQueue.uses i) :=
      List.countP_pos_iff.mpr ⟨_, List.getElem_mem hid, huses⟩
    rw [if_pos huses]
    split <;> omega
  · rw [if_neg huses]
    split <;> omega

/-- A queue that is not online may get any vector. -/
theorem Serving.setIdle (h : Serving conf n st) {id : ℕ} {descq descq' : VecQueue}
    (hget : st.descqs[id]? = some descq) (hoff : descq.qState ≠ .online)
    (hoff' : descq'.qState ≠ .online) :
    Serving conf n { st with descqs := st.descqs.set id descq' } := by
  refine ⟨h.ready, fun q hq hon => ?_, fun i info hinfo => ?_, fun hmode q hq hon => ?_⟩
  · rcases List.mem_or_eq_of_mem_set hq with hq | rfl
    · exact h.assigned.vector q hq hon
    · exact absurd hon hoff'
  · rw [h.assigned.counts i info hinfo, countP_set_uses hget]
    simp [VecQueue.uses, hoff, hoff']
  · rcases List.mem_or_eq_of_mem_set hq with hq | rfl
    · exact h.assigned.aggregated hmode q hq hon
    · exact absurd hon hoff'

/-- A queue comes online with a data vector, which counts it. -/
theorem Serving.setOnline (h : Serving conf n st) {id k : ℕ} {descq : VecQueue}
    (hget : st.descqs[id]? = some descq) (hoff : descq.qState ≠ .online)
    (hk : k < conf.dataMsixQvecMax)
    (haggregated : conf.drvMode ≠ .directIntr → k = st.dev.dvecStartIdx) :
    ∃ dev', st.dev.updateInfo k (IntrInfo.addQueue id) = some dev' ∧
      dev'.vectors .data = st.dev.vectors .data ∧
      (∀ i, dev'.info? i =
        if k = i then (st.dev.info? i).map (IntrInfo.addQueue id) else st.dev.info? i) ∧
      Serving conf n
        { dev := dev', descqs := st.descqs.set id { qState := .online, intrId := k } } := by
  obtain ⟨infos, hready⟩ := h.ready
  obtain ⟨dev', hupdate, hready', hstart, hdata, hinfo'⟩ :=
    hready.updateInfo (hk.trans_le hready.room) (IntrInfo.addQueue id)
  refine ⟨dev', hupdate, hdata, hinfo', ⟨_, hready'⟩, fun q hq hon => ?_, fun i info hinfo => ?_,
    fun hmode q hq hon => ?_⟩
  · dsimp only
    rw [hdata]
    rcases List.mem_or_eq_of_mem_set hq with hq | rfl
    · exact h.assigned.vector q hq hon
    · rw [hready.data]
      exact hk
  · dsimp only at hinfo ⊢
    rw [hinfo'] at hinfo
    rw [countP_set_uses hget]
    by_cases hki : k = i
    · rw [if_pos hki] at hinfo
      obtain ⟨old, hold, rfl⟩ := Option.map_eq_some_iff.mp hinfo
      have hcount := h.assigned.counts i old hold
      simp [IntrInfo.addQueue, VecQueue.uses, hoff, hki, hcount]
    · rw [if_neg hki] at hinfo
      have hcount := h.assigned.counts i info hinfo
      simp [VecQueue.uses, hoff, hki, hcount]
  · dsimp only
    rw [hstart]
    rcases List.mem_or_eq_of_mem_set hq with hq | rfl
    · exact h.assigned.aggregated hmode q hq hon
    · exact haggregated hmode

/-- A queue goes offline, and its vector no longer counts it. -/
theorem Serving.setOffline (h : Serving conf n st) {id : ℕ} {descq : VecQueue}
    (hget : st.descqs[id]? = some descq) (hon : descq.qState = .online) :
    ∃ dev', st.dev.updateInfo descq.intrId (IntrInfo.delQueue id) = some dev' ∧
      Serving conf n
        { dev := dev', descqs := st.descqs.set id { descq with qState := .enabled } } := by
  obtain ⟨infos, hready⟩ := h.ready
  have hvector := h.assigned.vector descq (List.mem_of_getElem? hget) hon
  rw [hready.data] at hvector
  have hlt : descq.intrId < conf.dataMsixQvecMax := hvector
  obtain ⟨dev', hupdate, hready', hstart, hdata, hinfo'⟩ :=
    hready.updateInfo (hlt.trans_le hready.room) (IntrInfo.delQueue id)
  refine ⟨dev', hupdate, ⟨_, hready'⟩, fun q hq hqon => ?_, fun i info hinfo => ?_,
    fun hmode q hq hqon => ?_⟩
  · dsimp only
    rw [hdata]
    rcases List.mem_or_eq_of_mem_set hq with hq | rfl
    · exact h.assigned.vector q hq hqon
    · cases hqon
  · dsimp only at hinfo ⊢
    rw [hinfo'] at hinfo
    rw [countP_set_uses hget]
    by_cases hki : descq.intrId = i
    · rw [if_pos hki] at hinfo
      obtain ⟨old, hold, rfl⟩ := Option.map_eq_some_iff.mp hinfo
      have hcount := h.assigned.counts i old hold
      simp [IntrInfo.delQueue, VecQueue.uses, hon, hki, hcount]
    · rw [if_neg hki] at hinfo
      have hcount := h.assigned.counts i info hinfo
      simp [VecQueue.uses, hki, hcount]
  · dsimp only
    rw [hstart]
    rcases List.mem_or_eq_of_mem_set hq with hq | rfl
    · exact h.assigned.aggregated hmode q hq hqon
    · cases hqon

end Serving

/-- In direct interrupt mode one more queue keeps the vectors balanced: it goes to one with the
fewest. -/
theorem balanced_addQueue {dev dev' : VecDev} {descqs descqs' : List VecQueue} {id k : ℕ}
    (h : Balanced ⟨dev, descqs⟩) (hdata : dev'.vectors .data = dev.vectors .data)
    (hinfo : ∀ i, dev'.info? i =
      if k = i then (dev.info? i).map (IntrInfo.addQueue id) else dev.info? i)
    (hfewest : ∀ a, dev.info? k = some a → ∀ j ∈ dev.vectors .data, ∀ b, dev.info? j = some b →
      a.intrListCnt ≤ b.intrListCnt) : Balanced ⟨dev', descqs'⟩ := by
  intro i hi j hj a b ha hb
  dsimp only at hi hj ha hb
  rw [hdata] at hi hj
  rw [hinfo] at ha hb
  by_cases hki : k = i
  · rw [if_pos hki] at ha
    obtain ⟨a₀, ha₀, rfl⟩ := Option.map_eq_some_iff.mp ha
    subst hki
    by_cases hkj : k = j
    · rw [if_pos hkj] at hb
      obtain ⟨b₀, hb₀, rfl⟩ := Option.map_eq_some_iff.mp hb
      have hle := hfewest a₀ ha₀ j hj b₀ hb₀
      simp only [IntrInfo.addQueue]
      omega
    · rw [if_neg hkj] at hb
      have hle := hfewest a₀ ha₀ j hj b hb
      simp only [IntrInfo.addQueue]
      omega
  · rw [if_neg hki] at ha
    by_cases hkj : k = j
    · rw [if_pos hkj] at hb
      obtain ⟨b₀, hb₀, rfl⟩ := Option.map_eq_some_iff.mp hb
      have hle := h i hi j hj a b₀ ha hb₀
      simp only [IntrInfo.addQueue]
      omega
    · rw [if_neg hkj] at hb
      exact h i hi j hj a b ha hb

section Calls

variable {conf : DevConf} {n : ℕ} {st : VecState}

/-- `qdma_queue_start`. -/
theorem Serving.queueStart (h : Serving conf n st) (id : ℕ) (env : StartEnv) :
    ∃ rv st', qdmaQueueStart conf id env st = some (rv, st') ∧ Serving conf n st' ∧
      (conf.drvMode = .directIntr → Balanced st → Balanced st') := by
  have hsame : ∀ rv : ℤ, ∃ rv' st', some (rv, st) = some (rv', st') ∧ Serving conf n st' ∧
      (conf.drvMode = .directIntr → Balanced st → Balanced st') :=
    fun rv => ⟨rv, st, rfl, h, fun _ hb => hb⟩
  unfold qdmaQueueStart
  cases hget : st.descqs[id]? with
  | none => exact hsame _
  | some descq =>
    dsimp only
    by_cases henabled : descq.qState ≠ .enabled
    · rw [if_pos henabled]
      exact hsame _
    rw [if_neg henabled]
    split
    · exact hsame _
    split
    · exact hsame _
    split
    · exact hsame _
    have hstate : descq.qState = .enabled := not_not.mp henabled
    have hoff : descq.qState ≠ .online := by simp [hstate]
    obtain ⟨k, halloc, hk, haggregated, hfewest⟩ := h.descAllocIrq descq.intrId
    obtain ⟨infos, hready⟩ := h.ready
    have hsome : st.dev.numVecs ≠ 0 := by
      have hroom := hready.room
      rw [hready.numVecs]
      omega
    rw [halloc]
    dsimp only
    split
    · refine ⟨_, _, rfl, h.setIdle hget hoff hoff, fun _ hb => hb⟩
    · obtain ⟨dev', hupdate, hdata, hinfo, hserving⟩ := h.setOnline hget hoff hk haggregated
      rw [hupdate]
      refine ⟨_, _, rfl, hserving, fun hdirect hb => ?_⟩
      refine balanced_addQueue hb hdata hinfo fun a ha j hj b => ?_
      rw [hready.data] at hj
      exact hfewest hdirect a ha j hj b

/-- `qdma_queue_stop`. -/
theorem Serving.queueStop (h : Serving conf n st) (id : ℕ) :
    ∃ rv st', qdmaQueueStop conf id st = some (rv, st') ∧ Serving conf n st' := by
  unfold qdmaQueueStop
  cases hget : st.descqs[id]? with
  | none => exact ⟨_, _, rfl, h⟩
  | some descq =>
    dsimp only
    by_cases hoff : descq.qState ≠ .online
    · rw [if_pos hoff]
      exact ⟨_, _, rfl, h⟩
    · obtain ⟨infos, hready⟩ := h.ready
      obtain ⟨dev', hupdate, hserving⟩ := h.setOffline hget (not_not.mp hoff)
      rw [if_neg hoff, if_pos hready.mode, hupdate]
      exact ⟨_, _, rfl, hserving⟩

def QueueCall.isStart : QueueCall → Prop
  | .start _ _ => True
  | .stop _ => False

/-- After any calls the vectors serve the queues, and after starts only they are balanced. -/
theorem Serving.run (h : Serving conf n st) (calls : List QueueCall) :
    ∃ st', Lib.run (serve conf) (some st) calls = some st' ∧ Serving conf n st' ∧
      (conf.drvMode = .directIntr → (∀ c ∈ calls, c.isStart) → Balanced st → Balanced st') := by
  induction calls generalizing st with
  | nil => exact ⟨st, rfl, h, fun _ _ hb => hb⟩
  | cons c calls ih =>
    cases c with
    | start id env =>
      obtain ⟨rv, st₁, hstart, h₁, hbalanced₁⟩ := h.queueStart id env
      obtain ⟨st', hrun, h', hbalanced'⟩ := ih h₁
      refine ⟨st', ?_, h', fun hdirect hstarts hb => ?_⟩
      · rw [Lib.run_cons, serve, Option.bind_some, hstart]
        exact hrun
      · exact hbalanced' hdirect (fun c hc => hstarts c (List.mem_cons_of_mem _ hc))
          (hbalanced₁ hdirect hb)
    | stop id =>
      obtain ⟨rv, st₁, hstop, h₁⟩ := h.queueStop id
      obtain ⟨st', hrun, h', -⟩ := ih h₁
      refine ⟨st', ?_, h', fun _ hstarts => (hstarts _ List.mem_cons_self).elim⟩
      rw [Lib.run_cons, serve, Option.bind_some, hstop]
      exact hrun

end Calls

/-- A device whose vectors were just set up. -/
theorem serving_of_intrSetup {build : BuildOptions} {conf : DevConf} {env : KernelEnv}
    {dev : VecDev} (h : intrSetup build conf env {} = (0, dev)) (hvecs : dev.numVecs ≠ 0)
    {descqs : List VecQueue} (hidle : ∀ descq ∈ descqs, descq.qState ≠ .online) :
    ∃ n, Serving conf n ⟨dev, descqs⟩ ∧ Balanced ⟨dev, descqs⟩ := by
  rcases intrSetup_ok h with rfl | ⟨n, hnum, -, hreq, hdata, hmode, hirqs, hstart,
    infos, htable, hsize, hunused⟩
  · exact absurd rfl hvecs
  have hready : Ready conf n dev infos := by
    refine ⟨hnum, hstart, htable, hsize, hdata, ?_, ?_, hmode⟩
    · unfold numVecsReq at hreq
      omega
    · rw [vectors_eq hirqs]
      ext i
      simp [planStart, planSize]
  have hzero : ∀ i info, dev.info? i = some info → info.intrListCnt = 0 := by
    intro i info hinfo
    rw [hready.info?_eq] at hinfo
    exact (hunused info (List.mem_of_getElem? hinfo)).2
  refine ⟨n, ⟨⟨infos, hready⟩, fun q hq hon => absurd hon (hidle q hq), fun i info hinfo => ?_,
    fun _ q hq hon => absurd hon (hidle q hq)⟩, fun i _ j _ a b ha hb => ?_⟩
  · have hnone : descqs.countP (VecQueue.uses i) = 0 := by
      refine List.countP_eq_zero.mpr fun q hq => ?_
      simp [VecQueue.uses, hidle q hq]
    dsimp only at hinfo ⊢
    rw [hzero i info hinfo, hnone]
    rfl
  · rw [hzero i a ha, hzero j b hb]
    decide

/-- For every number of vectors and every configuration, the ranges set up are apart and inside
those granted. With vectors, every run of starts and stops leaves each online queue with a data
vector that counts it, and starts in direct interrupt mode leave the vectors balanced. -/
theorem vectors_assigned (build : BuildOptions) (conf : DevConf) (env : KernelEnv)
    (descqs : List VecQueue) (calls : List QueueCall) {dev : VecDev}
    (hsetup : intrSetup build conf env {} = (0, dev))
    (hidle : ∀ descq ∈ descqs, descq.qState ≠ .online) :
    RangesOk env dev ∧ (dev.numVecs ≠ 0 →
      ∃ st, run (serve conf) (some ⟨dev, descqs⟩) calls = some st ∧ Assigned conf st ∧
        (conf.drvMode = .directIntr → (∀ c ∈ calls, c.isStart) → Balanced st)) := by
  refine ⟨rangesOk_of_intrSetup hsetup, fun hvecs => ?_⟩
  obtain ⟨n, hserving, hbalanced⟩ := serving_of_intrSetup hsetup hvecs hidle
  obtain ⟨st, hrun, hserving', hbalanced'⟩ := hserving.run calls
  exact ⟨st, hrun, hserving'.assigned, fun hdirect hstarts => hbalanced' hdirect hstarts hbalanced⟩

/-- A physical function that is no master, in a mode of its own, with two data vectors. -/
def twoVectors (mode : DrvMode) : DevConf where
  drvMode := mode
  msixQvecMax := 8
  userMsixQvecMax := 1
  dataMsixQvecMax := 2
  masterPf := false
  mboxIntr := true

/-- The options of the driver: a driver of physical functions without a mailbox vector. -/
def pfBuild : BuildOptions where
  qdmaVf := false
  userInterruptDisable := false
  mboxInterruptDisable := true

/-- The theorem at a device with four vectors, of which two queues get one each. -/
theorem twoVectors_assigned :
    ∃ st, run (serve (twoVectors .directIntr))
        (some ⟨(intrSetup pfBuild (twoVectors .directIntr) { msixVecCount := 4 } {}).2, [{}, {}]⟩)
        [.start 0 {}, .start 1 {}] = some st ∧
      Assigned (twoVectors .directIntr) st ∧ Balanced st := by
  have hsetup : (intrSetup pfBuild (twoVectors .directIntr) { msixVecCount := 4 } {}).1 = 0 := by
    decide
  obtain ⟨st, hrun, hassigned, hbalanced⟩ :=
    (vectors_assigned pfBuild (twoVectors .directIntr) { msixVecCount := 4 } [{}, {}]
      [.start 0 {}, .start 1 {}] (Prod.ext hsetup rfl) (by decide)).2 (by decide)
  exact ⟨st, hrun, hassigned, hbalanced rfl (by simp [QueueCall.isStart])⟩

/-- In indirect interrupt mode both queues get the first data vector. -/
theorem twoVectors_not_balanced :
    ∃ st, run (serve (twoVectors .indirectIntr))
        (some ⟨(intrSetup pfBuild (twoVectors .indirectIntr) { msixVecCount := 4 } {}).2, [{}, {}]⟩)
        [.start 0 {}, .start 1 {}] = some st ∧ ¬ Balanced st := by
  refine ⟨_, rfl, fun h => ?_⟩
  have hle := h 0 (by simp [VecDev.vectors]; decide) 1 (by simp [VecDev.vectors]; decide) _ _ rfl
    rfl
  exact absurd hle (by decide)

end Vectors

end OnicDriver.Interrupt
