import OnicDriver.Mailbox.Ownership

/-!
# What a message touches

A message should only touch what belongs to its sender: queue contexts within
the range of the function, its own function map entry and its own interrupt
rings. The handler checks this on some of its branches only.
-/

namespace OnicDriver.Mailbox

open Lib Access Resource

/-! ## Belonging to a function -/

section

variable (s : ResourceState) (dmaDeviceIndex funcId : ℕ)

/-- A hardware queue id within the range of the function. -/
def Assigned (qidHw : ℕ) : Prop :=
  qdmaDevIsQueueInRange s dmaDeviceIndex funcId qidHw = .inRange

instance (qidHw : ℕ) : Decidable (Assigned s dmaDeviceIndex funcId qidHw) :=
  inferInstanceAs (Decidable (_ = _))

/-- As long as ranges are kept apart, these are the queues that the function owns. -/
theorem assigned_iff {s : ResourceState} (h : Owned s) {dmaDeviceIndex funcId qidHw : ℕ} :
    Assigned s dmaDeviceIndex funcId qidHw ↔
      ∃ d, qdmaGetDevEntry s dmaDeviceIndex funcId = some d ∧ (qidHw : ℤ) ∈ d.entry.ids := by
  unfold Assigned qdmaDevIsQueueInRange
  cases hentry : qdmaGetDevEntry s dmaDeviceIndex funcId with
  | none => simp
  | some d =>
    obtain ⟨m, hm, hdev⟩ := Option.bind_eq_some_iff.mp hentry
    have hok := h.master hm
    have hrange : d.isQueueInRange qidHw ↔ _ := DevEntry.isQueueInRange_iff hok.base hok.bound
      (hok.entries d (List.mem_of_find?_eq_some hdev))
    simp only [Option.some.injEq, exists_eq_left', ← hrange]
    cases d.isQueueInRange qidHw <;> simp

end

/-- The function map entry of `MBOX_OP_FMAP`. -/
def fmapCfg (m : MboxMem) : FmapCfg :=
  { qbase := (m.fmapQbase % 2 ^ 16).toNat, qmax := m.fmapQmax % 2 ^ 16 }

variable {env : HwEnv} {s : ResourceState} {i f qidHw : ℕ} {log : HwLog}

variable {m : MboxMem} {mem : CallocResults}

end OnicDriver.Mailbox
