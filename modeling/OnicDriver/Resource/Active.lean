import OnicDriver.Resource.Basic

/-!
# Active queues and queue information

The part of the resource manager that counts the active queues of a function
and reports its range.
-/

namespace OnicDriver.Resource

open Lib

/-- `enum qdma_dev_q_type`; any other number has no counter. -/
inductive DevQType
  | h2c
  | c2h
  | cmpt
  deriving DecidableEq, Repr

/-- The queue type that a number stands for. -/
def DevQType.fromWord : ℕ → Option DevQType
  | 0 => some .h2c
  | 1 => some .c2h
  | 2 => some .cmpt
  | _ => none

/-- The counter of a queue type. -/
def DevEntry.activeQcnt (d : DevEntry) : DevQType → ℕ
  | .h2c => d.activeH2cQcnt
  | .c2h => d.activeC2hQcnt
  | .cmpt => d.activeCmptQcnt

/-- Store the counter of a queue type. -/
def DevEntry.setActiveQcnt (d : DevEntry) (n : ℕ) : DevQType → DevEntry
  | .h2c => { d with activeH2cQcnt := n }
  | .c2h => { d with activeC2hQcnt := n }
  | .cmpt => { d with activeCmptQcnt := n }

/-- `qdma_dev_qinfo_get`: the return value, and `*qbase` and `*qmax` if they are set. -/
def qdmaDevQinfoGet (s : ResourceState) (dmaDeviceIndex funcId : ℕ) : ℤ × Option (ℤ × ℕ) :=
  match qdmaGetMasterResourceEntry s dmaDeviceIndex with
  | none => (-QDMA_ERR_RM_RES_NOT_EXISTS, none)
  | some m =>
    match m.devEntry funcId with
    | none => (-QDMA_ERR_RM_DEV_NOT_EXISTS, none)
    | some d => (QDMA_SUCCESS, some (d.entry.qbase, d.entry.totalQ))

/-- `qdma_dev_increment_active_queue`. -/
def qdmaDevIncrementActiveQueue (s : ResourceState) (dmaDeviceIndex funcId : ℕ)
    (qType : Option DevQType) : ℤ × ResourceState :=
  match qdmaGetMasterResourceEntry s dmaDeviceIndex with
  | none => (-QDMA_ERR_RM_RES_NOT_EXISTS, s)
  | some m =>
    match m.devEntry funcId with
    | none => (-QDMA_ERR_RM_DEV_NOT_EXISTS, s)
    | some d =>
      match qType with
      | none => (-QDMA_ERR_RM_DEV_NOT_EXISTS, s)
      | some t =>
        let next := u32 (d.activeQcnt t + 1)
        if d.entry.totalQ < next then (-QDMA_ERR_RM_NO_QUEUES_LEFT, s)
        else
          let m := { m with activeQcnt := u32 (m.activeQcnt + 1) }
          (QDMA_SUCCESS, s.setMaster (m.setDev (d.setActiveQcnt next t)))

/-- `qdma_dev_decrement_active_queue`. The counter of the master goes down in any case. -/
def qdmaDevDecrementActiveQueue (s : ResourceState) (dmaDeviceIndex funcId : ℕ)
    (qType : Option DevQType) : ℤ × ResourceState :=
  match qdmaGetMasterResourceEntry s dmaDeviceIndex with
  | none => (-QDMA_ERR_RM_RES_NOT_EXISTS, s)
  | some m =>
    match m.devEntry funcId with
    | none => (-QDMA_ERR_RM_DEV_NOT_EXISTS, s)
    | some d =>
      let m := { m with activeQcnt := u32 (m.activeQcnt - 1) }
      match qType with
      | none => (-QDMA_ERR_RM_DEV_NOT_EXISTS, s.setMaster m)
      | some t =>
        let d := if d.activeQcnt t ≠ 0 then d.setActiveQcnt (d.activeQcnt t - 1) t else d
        (QDMA_SUCCESS, s.setMaster (m.setDev d))

/-- `qdma_get_device_active_queue_count`. -/
def qdmaGetDeviceActiveQueueCount (s : ResourceState) (dmaDeviceIndex funcId : ℕ)
    (qType : DevQType) : ℤ :=
  match qdmaGetMasterResourceEntry s dmaDeviceIndex with
  | none => -QDMA_ERR_RM_RES_NOT_EXISTS
  | some m =>
    match m.devEntry funcId with
    | none => -QDMA_ERR_RM_DEV_NOT_EXISTS
    | some d => s32 (d.activeQcnt qType)

variable {d : DevEntry} {n : ℕ} {t : DevQType}

@[simp] theorem setActiveQcnt_funcId : (d.setActiveQcnt n t).funcId = d.funcId := by
  cases t <;> rfl

@[simp] theorem setActiveQcnt_entry : (d.setActiveQcnt n t).entry = d.entry := by
  cases t <;> rfl

@[simp] theorem setActiveQcnt_activeQcnt : (d.setActiveQcnt n t).activeQcnt t = n := by
  cases t <;> rfl

theorem setActiveQcnt_activeQcnt_of_ne {t' : DevQType} (h : t' ≠ t) :
    (d.setActiveQcnt n t).activeQcnt t' = d.activeQcnt t' := by
  cases t <;> cases t' <;> first | rfl | exact absurd rfl h

end OnicDriver.Resource
