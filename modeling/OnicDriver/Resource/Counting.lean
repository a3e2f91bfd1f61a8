import OnicDriver.Resource.Active
import OnicDriver.Resource.Masters

/-!
# Counting the queues of one function

What the calls that count active queues do to the entry of the function they
are for.
-/

namespace OnicDriver.Resource

open Lib

variable {s : ResourceState} {i f : ℕ} {t : DevQType} {d : DevEntry}

theorem res_not_exists_neg : -QDMA_ERR_RM_RES_NOT_EXISTS < 0 := by decide

theorem dev_not_exists_neg : -QDMA_ERR_RM_DEV_NOT_EXISTS < 0 := by decide

theorem qdmaGetDevEntry_eq_some (h : qdmaGetDevEntry s i f = some d) :
    ∃ m, qdmaGetMasterResourceEntry s i = some m ∧ m.devEntry f = some d :=
  Option.bind_eq_some_iff.mp h

/-- Writing back an entry of the function and reading it again. -/
theorem qdmaGetDevEntry_setDev {m : ResourceMaster} {d' : DevEntry} {n : ℕ}
    (hm : qdmaGetMasterResourceEntry s i = some m) (hd : m.devEntry f = some d)
    (hd' : d'.funcId = d.funcId) :
    qdmaGetDevEntry (s.setMaster ({ m with activeQcnt := n }.setDev d')) i f = some d' := by
  obtain ⟨rfl, -⟩ := ResourceMaster.devEntry_split hd
  obtain rfl : m.dmaDeviceIndex = i := by simpa using List.find?_some hm
  have hmaster : qdmaGetMasterResourceEntry
      (s.setMaster ({ m with activeQcnt := n }.setDev d')) m.dmaDeviceIndex =
        some ({ m with activeQcnt := n }.setDev d') :=
    find?_writeFirst hm (by simp [ResourceMaster.setDev])
  unfold qdmaGetDevEntry
  rw [hmaster, Option.bind_some, ← hd']
  rw [← hd'] at hd
  exact find?_writeFirst hd (by simp)

theorem increment_of_none (h : qdmaGetDevEntry s i f = none) (t : DevQType) :
    (qdmaDevIncrementActiveQueue s i f (some t)).1 < 0 ∧
      (qdmaDevIncrementActiveQueue s i f (some t)).2 = s := by
  unfold qdmaDevIncrementActiveQueue
  cases hm : qdmaGetMasterResourceEntry s i with
  | none => exact ⟨res_not_exists_neg, rfl⟩
  | some m =>
    cases hd : m.devEntry f with
    | none =>
      dsimp only
      rw [hd]
      exact ⟨dev_not_exists_neg, rfl⟩
    | some d =>
      unfold qdmaGetDevEntry at h
      rw [hm, Option.bind_some, hd] at h
      cases h

/-- A queue that is one too many for the function is not counted. -/
theorem increment_of_full (h : qdmaGetDevEntry s i f = some d)
    (hfull : d.entry.totalQ < u32 (d.activeQcnt t + 1)) :
    qdmaDevIncrementActiveQueue s i f (some t) = (-QDMA_ERR_RM_NO_QUEUES_LEFT, s) := by
  obtain ⟨m, hm, hd⟩ := qdmaGetDevEntry_eq_some h
  unfold qdmaDevIncrementActiveQueue
  rw [hm]
  dsimp only
  rw [hd]
  exact if_pos hfull

/-- A queue that is counted. -/
theorem increment_of_room (h : qdmaGetDevEntry s i f = some d)
    (hroom : u32 (d.activeQcnt t + 1) ≤ d.entry.totalQ) :
    (qdmaDevIncrementActiveQueue s i f (some t)).1 = 0 ∧
      qdmaGetDevEntry (qdmaDevIncrementActiveQueue s i f (some t)).2 i f =
        some (d.setActiveQcnt (u32 (d.activeQcnt t + 1)) t) := by
  obtain ⟨m, hm, hd⟩ := qdmaGetDevEntry_eq_some h
  have heq : qdmaDevIncrementActiveQueue s i f (some t) =
      (QDMA_SUCCESS, s.setMaster ({ m with activeQcnt := u32 (m.activeQcnt + 1) }.setDev
        (d.setActiveQcnt (u32 (d.activeQcnt t + 1)) t))) := by
    unfold qdmaDevIncrementActiveQueue
    rw [hm]
    dsimp only
    rw [hd]
    exact if_neg (Nat.not_lt.mpr hroom)
  rw [heq]
  exact ⟨rfl, qdmaGetDevEntry_setDev hm hd setActiveQcnt_funcId⟩

theorem decrement_of_none (h : qdmaGetDevEntry s i f = none) (t : DevQType) :
    (qdmaDevDecrementActiveQueue s i f (some t)).1 < 0 ∧
      (qdmaDevDecrementActiveQueue s i f (some t)).2 = s := by
  unfold qdmaDevDecrementActiveQueue
  cases hm : qdmaGetMasterResourceEntry s i with
  | none => exact ⟨res_not_exists_neg, rfl⟩
  | some m =>
    cases hd : m.devEntry f with
    | none =>
      dsimp only
      rw [hd]
      exact ⟨dev_not_exists_neg, rfl⟩
    | some d =>
      unfold qdmaGetDevEntry at h
      rw [hm, Option.bind_some, hd] at h
      cases h

/-- A queue that is no longer counted. A count that is 0 stays so. -/
theorem decrement_of_some (h : qdmaGetDevEntry s i f = some d) :
    (qdmaDevDecrementActiveQueue s i f (some t)).1 = 0 ∧
      qdmaGetDevEntry (qdmaDevDecrementActiveQueue s i f (some t)).2 i f =
        some (d.setActiveQcnt (d.activeQcnt t - 1) t) := by
  obtain ⟨m, hm, hd⟩ := qdmaGetDevEntry_eq_some h
  have hsame : (if d.activeQcnt t ≠ 0 then d.setActiveQcnt (d.activeQcnt t - 1) t else d) =
      d.setActiveQcnt (d.activeQcnt t - 1) t := by
    split
    · rfl
    · rename_i hzero
      rw [Decidable.not_not.mp hzero, Nat.zero_sub, ← Decidable.not_not.mp hzero]
      cases t <;> rfl
  have heq : qdmaDevDecrementActiveQueue s i f (some t) =
      (QDMA_SUCCESS, s.setMaster ({ m with activeQcnt := u32 (m.activeQcnt - 1) }.setDev
        (d.setActiveQcnt (d.activeQcnt t - 1) t))) := by
    unfold qdmaDevDecrementActiveQueue
    rw [hm]
    dsimp only
    rw [hd]
    dsimp only
    rw [hsame]
  rw [heq]
  exact ⟨rfl, qdmaGetDevEntry_setDev hm hd setActiveQcnt_funcId⟩

end OnicDriver.Resource
