import OnicDriver.Lib.Runs
import OnicDriver.Lifecycle.Device

/-!
# What the calls can do

Each call changes one slot at most. A call that adds a queue ends in one of
five ways; the others keep the queue of the slot, and only its removal makes
the slot free again.
-/

namespace OnicDriver.Lifecycle

open Lib Access Queue Setup Resource

/-! ## Calls on the queue of a slot -/

/-- The queue of a slot stays added, with its type and mode, or stays away. -/
structure Slot.Stays (s s' : Slot) : Prop where
  disabled : s'.qState = .disabled ↔ s.qState = .disabled
  qType : s'.conf.qType = s.conf.qType
  st : s'.conf.st = s.conf.st

section

variable {s s' s'' : Slot}

theorem Slot.Stays.refl (s : Slot) : s.Stays s := ⟨Iff.rfl, rfl, rfl⟩

theorem Slot.Stays.trans (h : s.Stays s') (h' : s'.Stays s'') : s.Stays s'' :=
  ⟨h'.disabled.trans h.disabled, h'.qType.trans h.qType, h'.st.trans h.st⟩

theorem Slot.SameQueue.stays (h : s.SameQueue s') : s.Stays s' :=
  ⟨by rw [h.qState], by rw [h.conf], by rw [h.conf]⟩

theorem qdmaDescqFreeResource_sameQueue (s : Slot) (mem : Memory) :
    s.SameQueue (qdmaDescqFreeResource s mem).1 := by
  unfold qdmaDescqFreeResource freeDesc freeDescCmpt
  dsimp only
  split <;> split <;> exact ⟨rfl, rfl, rfl, rfl⟩

theorem qdmaDescqAllocResource_sameQueue (grant : Grant) (s : Slot) (mem : Memory) :
    s.SameQueue (qdmaDescqAllocResource grant s mem).2.1 := by
  have hdesc : ∀ s mem, Slot.SameQueue s (allocDesc grant s mem).2.1 := by
    intro s mem
    unfold allocDesc
    dsimp only
    split
    · exact .refl s
    · split <;> exact ⟨rfl, rfl, rfl, rfl⟩
  have hlists : ∀ s mem, Slot.SameQueue s (allocLists grant s mem).2.1 := by
    intro s mem
    unfold allocLists
    dsimp only
    split
    · exact ⟨rfl, rfl, rfl, rfl⟩
    · split <;> exact ⟨rfl, rfl, rfl, rfl⟩
  have hcmpt : ∀ s mem, Slot.SameQueue s (allocDescCmpt grant s mem).2.1 := by
    intro s mem
    unfold allocDescCmpt
    dsimp only
    split
    · split <;> exact ⟨rfl, rfl, rfl, rfl⟩
    · exact .refl s
  have hfailed : ∀ s mem, Slot.SameQueue s (allocFailed s mem).2.1 := fun s mem =>
    qdmaDescqFreeResource_sameQueue s mem
  unfold qdmaDescqAllocResource
  have h₁ := hdesc s mem
  split
  · rename_i s₁ mem₁ heq
    rw [heq] at h₁
    exact h₁.trans (hfailed s₁ mem₁)
  · rename_i s₁ mem₁ heq
    rw [heq] at h₁
    have h₂ := h₁.trans (hlists s₁ mem₁)
    split
    · rename_i s₂ mem₂ heq
      rw [heq] at h₂
      exact h₂.trans (hfailed s₂ mem₂)
    · rename_i s₂ mem₂ heq
      rw [heq] at h₂
      have h₃ := h₂.trans (hcmpt s₂ mem₂)
      split
      · rename_i s₃ mem₃ heq
        rw [heq] at h₃
        exact h₃.trans (hfailed s₃ mem₃)
      · rename_i s₃ mem₃ heq
        rw [heq] at h₃
        exact h₃

theorem Slot.config_stays (x : Xdev) (s : Slot) (c : ClientConf) : s.Stays (s.config x c).2 := by
  unfold Slot.config
  split
  · exact .refl s
  · split
    · exact .refl s
    · exact ⟨Iff.rfl, rfl, rfl⟩

theorem Slot.start_stays (x : Xdev) (grant : Grant) (ctxt : ℤ) (s : Slot) (mem : Memory) :
    s.Stays (s.start x grant ctxt mem).2.1 := by
  unfold Slot.start
  split
  · exact .refl s
  · rename_i hen
    split
    · exact .refl s
    · have hcomplete : s.Stays (s.configComplete x) := by
        unfold Slot.configComplete Slot.conf qdmaDescqConfigComplete
        dsimp only
        split <;> exact ⟨Iff.rfl, rfl, rfl⟩
      have halloc := qdmaDescqAllocResource_sameQueue grant (s.configComplete x) mem
      generalize qdmaDescqAllocResource grant (s.configComplete x) mem = res at halloc
      obtain ⟨rv, s₁, mem₁⟩ := res
      have h₁ : s.Stays s₁ := hcomplete.trans halloc.stays
      dsimp only
      split
      · exact h₁
      · split
        · exact h₁.trans (qdmaDescqFreeResource_sameQueue s₁ mem₁).stays
        · refine ⟨?_, h₁.qType, h₁.st⟩
          rw [Decidable.not_not.mp hen]
          exact iff_of_false nofun nofun

theorem Slot.stop_stays (s : Slot) (mem : Memory) : s.Stays (s.stop mem).2.1 := by
  unfold Slot.stop
  split
  · exact .refl s
  · rename_i hon
    have hmark : s.Stays { s with qState := .enabled } := by
      refine ⟨?_, rfl, rfl⟩
      rw [Decidable.not_not.mp hon]
      exact iff_of_false nofun nofun
    exact hmark.trans (qdmaDescqFreeResource_sameQueue { s with qState := .enabled } mem).stays

end

/-! ## Calls on the queues of a device -/

section

variable {d : Device}

theorem setSlot_stays {pos : ℕ} {s : Slot} (h : (d.slots pos).Stays s) (p : ℕ) :
    (d.slots p).Stays ((d.setSlot pos s).slots p) := by
  unfold Device.setSlot
  dsimp only
  by_cases hp : p = pos
  · subst hp
    rw [Function.update_self]
    exact h
  · rw [Function.update_of_ne hp]
    exact .refl _

theorem qdmaQueueConfig_stays (x : Xdev) (d : Device) (id : ℕ) (c : ClientConf) (p : ℕ) :
    (d.slots p).Stays ((qdmaQueueConfig x d id c).2.slots p) := by
  unfold qdmaQueueConfig
  split
  · exact .refl _
  · rename_i pos _
    exact setSlot_stays (Slot.config_stays x (d.slots pos) c) p

theorem qdmaQueueStart_stays (x : Xdev) (grant : Grant) (d : Device) (id : ℕ) (ctxt : ℤ) (p : ℕ) :
    (d.slots p).Stays ((qdmaQueueStart x grant d id ctxt).2.slots p) := by
  unfold qdmaQueueStart
  split
  · exact .refl _
  · rename_i pos _
    exact setSlot_stays (Slot.start_stays x grant ctxt (d.slots pos) d.mem) p

theorem qdmaQueueStop_stays (x : Xdev) (d : Device) (id p : ℕ) :
    (d.slots p).Stays ((qdmaQueueStop x d id).2.slots p) := by
  unfold qdmaQueueStop
  split
  · exact .refl _
  · rename_i pos _
    exact setSlot_stays (Slot.stop_stays (d.slots pos) d.mem) p

end

/-! ## Handles -/

section

variable {x : Xdev} {d : Device} {pos : ℕ}

theorem base_add_lt {t : QType} {k : ℕ} (hk : k < x.qmax) : x.base t + k < 3 * x.qmax := by
  cases t <;> simp only [Xdev.base] <;> omega

/-- A handle is the place of its queue among all queues. -/
theorem getDescqById_eq (x : Xdev) (d : Device) (id : ℕ) (init : Bool) :
    qdmaDeviceGetDescqById x d id init =
      if id < 3 * x.qmax ∧ (init = true → (d.slots id).qState ≠ .disabled) then some id
      else none := by
  have hpos : ∀ p, p = id → (some p).filter
      (fun pos => !init || decide ((d.slots pos).qState ≠ .disabled)) =
      if init = true → (d.slots id).qState ≠ .disabled then some id else none := by
    rintro p rfl
    cases init with
    | false => simp
    | true =>
      by_cases hoff : (d.slots p).qState = .disabled <;> simp [hoff, Option.filter]
  unfold qdmaDeviceGetDescqById
  dsimp only
  by_cases hid : id < 3 * x.qmax
  · simp only [hid, true_and]
    rw [← hpos _ rfl]
    congr 1
    simp only [Xdev.base]
    split_ifs
    · exact absurd hid (by omega)
    all_goals exact congrArg some (by omega)
  · rw [if_pos (by omega), if_pos (by omega), if_pos (by omega), if_neg (fun h => hid h.1)]
    rfl

theorem getDescqById_some {id : ℕ} {init : Bool}
    (h : qdmaDeviceGetDescqById x d id init = some pos) :
    pos = id ∧ id < 3 * x.qmax ∧ (init = true → (d.slots id).qState ≠ .disabled) := by
  rw [getDescqById_eq] at h
  split at h
  · rename_i hcond
    cases h
    exact ⟨rfl, hcond⟩
  · cases h

/-- A queue in the array of its type is found there. -/
theorem getIdFromDescq_eq {k : ℕ} (hk : k < x.qmax)
    (hpos : pos = x.base (d.slots pos).conf.qType + k) :
    qdmaDeviceGetIdFromDescq x d pos = some pos := by
  unfold qdmaDeviceGetIdFromDescq
  dsimp only
  generalize x.base (d.slots pos).conf.qType = base at *
  subst hpos
  have hfind :
      (List.range (2 * x.qmax)).find? (fun j => decide (base + j = base + k)) = some k := by
    apply List.find?_range_eq_some.mpr
    refine ⟨by simp, by simp; omega, ?_⟩
    intro j hj
    simp only [Bool.not_eq_true', decide_eq_false_iff_not]
    omega
  rw [hfind]
  rfl

/-- The slot that a queue of a type would take is free where it is usable. -/
theorem isUsableQueue_disabled {i : ℕ} {t : QType} {st : Bool}
    (h : isUsableQueue x d i t st = true) : (d.slots (x.base t + i)).qState = .disabled := by
  by_contra hne
  unfold isUsableQueue at h
  cases t <;> simp [hne] at h

end

/-! ## The ends of `qdma_queue_add` -/

/-- The call gets as far as marking a slot. -/
structure Reserved (x : Xdev) (d : Device) (c : ClientConf) (env : AddEnv) (pos qidx : ℕ) :
    Prop where
  check : ¬ addCheck x d c env < 0
  slot : findSlot x d c = some (pos, qidx)

/-- The range of the function is to be set, and cannot be. -/
def PrepFails (d : Device) (env : AddEnv) : Prop := d.initQrange = false ∧ env.prep < 0

/-- The one queue of legacy interrupt mode cannot be set up. -/
def LegacyFails (x : Xdev) (env : AddEnv) : Prop :=
  x.isVf = false ∧ x.drvMode = .legacyIntr ∧ env.legacy ≠ 0

/-- A queue is entered in the counts. -/
def countAdded (x : Xdev) (mail : ℕ → Mail) (conf : QdmaQueueConf) (rm : ResourceState) :
    ℤ × ResourceState :=
  countQueue (fun t m => addActive x m t) (fun t m => delActive x m t) mail conf rm

/-- A queue is taken from the counts. -/
def countRemoved (x : Xdev) (mail : ℕ → Mail) (conf : QdmaQueueConf) (rm : ResourceState) :
    ℤ × ResourceState :=
  countQueue (fun t m => delActive x m t) (fun t m => addActive x m t) mail conf rm

/-- The slot at `pos` with the configuration of the client and the index of the queue. -/
def Device.configured (d : Device) (c : ClientConf) (pos qidx : ℕ) : Slot :=
  { d.slots pos with qState := .enabled }.configure { c with qidx := qidx }

/-- The ends of `qdma_queue_add`: it is refused, or takes its mark back; the PF cannot be prepared;
the queue cannot be counted; or it is added. -/
inductive AddResult (x : Xdev) (d : Device) (c : ClientConf) (env : AddEnv) :
    ℤ × ℕ × Device → Prop
  | refused {rv : ℤ} (hneg : rv < 0) : AddResult x d c env (rv, QDMA_QUEUE_IDX_INVALID, d)
  | unwound {rv : ℤ} {pos qidx : ℕ} {ranged : Bool} (hslot : Reserved x d c env pos qidx)
      (hneg : rv < 0) :
      AddResult x d c env (rv, QDMA_QUEUE_IDX_INVALID,
        { d.setState pos .disabled with initQrange := ranged })
  | marked {pos qidx : ℕ} (hslot : Reserved x d c env pos qidx) (hpf : x.isVf = false)
      (hprep : PrepFails d env) :
      AddResult x d c env (env.prep, QDMA_QUEUE_IDX_INVALID, d.setState pos .enabled)
  | uncounted {rv : ℤ} {pos qidx : ℕ} {ranged : Bool} {rm : ResourceState}
      (hslot : Reserved x d c env pos qidx) (hprep : ¬ PrepFails d env)
      (hlegacy : ¬ LegacyFails x env) (hcount : countAdded x env.mail c.conf d.rm = (rv, rm))
      (hneg : rv < 0) :
      AddResult x d c env (rv, QDMA_QUEUE_IDX_INVALID,
        { d.setSlot pos (d.configured c pos qidx) with initQrange := ranged, rm := rm })
  | added {rv : ℤ} {pos qidx : ℕ} {ranged : Bool} {rm : ResourceState}
      (hslot : Reserved x d c env pos qidx) (hprep : ¬ PrepFails d env)
      (hlegacy : ¬ LegacyFails x env) (hcount : countAdded x env.mail c.conf d.rm = (rv, rm))
      (hrv : ¬ rv < 0) :
      AddResult x d c env (0, qidx + x.base c.conf.qType,
        { d.setSlot pos { d.configured c pos qidx with qHndl := qidx + x.base c.conf.qType } with
            initQrange := ranged, rm := rm })

section

variable {x : Xdev} {d : Device} {c : ClientConf} {env : AddEnv} {pos qidx : ℕ}

/-- The index that the library or the client chose, and the slot that is marked for it. -/
theorem Reserved.cases (h : Reserved x d c env pos qidx) :
    (c.qidx = QDMA_QUEUE_IDX_INVALID ∧ firstUsable x d c.conf = some qidx ∧
        pos = x.base c.conf.qType + qidx + qidx) ∨
      (c.qidx ≠ QDMA_QUEUE_IDX_INVALID ∧ qidx = c.qidx ∧ pos = x.base c.conf.qType + qidx) := by
  have hfind := h.slot
  unfold findSlot at hfind
  split at hfind
  · rename_i hauto
    obtain ⟨i, hfirst, heq⟩ := Option.map_eq_some_iff.mp hfind
    cases heq
    exact .inl ⟨hauto, hfirst, rfl⟩
  · rename_i hnamed
    split at hfind
    · cases hfind
      exact .inr ⟨hnamed, rfl, rfl⟩
    · cases hfind

/-- The queue of the chosen index is usable. -/
theorem Reserved.usable (h : Reserved x d c env pos qidx) :
    qidx < x.qmax ∧ isUsableQueue x d qidx c.conf.qType c.conf.st = true := by
  obtain ⟨hcheck, hfind⟩ := h
  unfold findSlot at hfind
  split at hfind
  · obtain ⟨i, hfirst, heq⟩ := Option.map_eq_some_iff.mp hfind
    cases heq
    obtain ⟨husable, hrange, -⟩ := List.find?_range_eq_some.mp hfirst
    exact ⟨List.mem_range.mp hrange, husable⟩
  · rename_i hnamed
    split at hfind
    · rename_i husable
      cases hfind
      refine ⟨?_, husable⟩
      by_contra hge
      apply hcheck
      unfold addCheck
      split
      · decide
      · rw [if_pos ⟨hnamed, Nat.le_of_not_lt hge⟩]
        decide
    · cases hfind

theorem prepQResource_of_fails (h : PrepFails d env) : prepQResource d env = (env.prep, d) := by
  obtain ⟨hrange, hneg⟩ := h
  unfold prepQResource
  rw [hrange, if_neg Bool.false_ne_true, if_pos hneg]

theorem prepQResource_of_not (h : ¬ PrepFails d env) :
    ∃ ranged, prepQResource d env = (0, { d with initQrange := ranged }) := by
  unfold prepQResource
  by_cases hrange : d.initQrange = true
  · exact ⟨d.initQrange, if_pos hrange⟩
  · have hok : ¬ env.prep < 0 := fun hneg => h ⟨Bool.eq_false_of_not_eq_true hrange, hneg⟩
    rw [if_neg hrange, if_neg hok]
    exact ⟨true, rfl⟩

/-- What is left to do once the slot is marked and the function has its range. -/
theorem addConfigured_result (hslot : Reserved x d c env pos qidx) (hprep : ¬ PrepFails d env)
    (hlegacy : ¬ LegacyFails x env) (ranged : Bool) :
    AddResult x d c env
      (addConfigured x { d.setState pos .enabled with initQrange := ranged } c env pos qidx) := by
  have hconf : ({ d.setState pos .enabled with initQrange := ranged }.slots pos).configure
      { c with qidx := qidx } = d.configured c pos qidx := by
    simp [Device.setState, Device.setSlot, Device.configured]
  have hset : ∀ s, { d.setState pos .enabled with initQrange := ranged }.setSlot pos s =
      { d.setSlot pos s with initQrange := ranged } := by
    intro s
    simp [Device.setState, Device.setSlot]
  unfold addConfigured
  rw [hconf, hset]
  dsimp only
  generalize hcount : countAdded x env.mail c.conf d.rm = res
  obtain ⟨rv, rm⟩ := res
  have hcount' : countQueue (fun t m => addActive x m t) (fun t m => delActive x m t) env.mail
      c.conf (d.setSlot pos (d.configured c pos qidx)).rm = (rv, rm) := hcount
  rw [hcount']
  dsimp only
  split
  · rename_i hneg
    exact .uncounted hslot hprep hlegacy hcount hneg
  · rename_i hrv
    have hadded := @AddResult.added x d c env _ pos qidx ranged _ hslot hprep hlegacy hcount hrv
    simpa [Device.setSlot, Device.configured, Slot.configure] using hadded

theorem qdmaQueueAdd_result (x : Xdev) (d : Device) (c : ClientConf) (env : AddEnv) :
    AddResult x d c env (qdmaQueueAdd x d c env) := by
  unfold qdmaQueueAdd
  split
  · rename_i hneg
    exact .refused hneg
  · rename_i hcheck
    split
    · exact .refused (by decide)
    · rename_i pos qidx hfind
      have hslot : Reserved x d c env pos qidx := ⟨hcheck, hfind⟩
      have htwice :
          (d.setState pos .enabled).setState pos .disabled = d.setState pos .disabled := by
        simp [Device.setState, Device.setSlot]
      unfold addMarked
      by_cases hprep : PrepFails d env
      · rw [prepQResource_of_fails (d := d.setState pos .enabled) hprep]
        dsimp only
        rw [if_pos hprep.2]
        split
        · rw [htwice]
          exact @AddResult.unwound x d c env _ pos qidx d.initQrange hslot hprep.2
        · rename_i hpf
          exact .marked hslot (Bool.eq_false_of_not_eq_true hpf) hprep
      · obtain ⟨ranged, heq⟩ := prepQResource_of_not (d := d.setState pos .enabled) hprep
        rw [heq]
        dsimp only
        rw [if_neg (lt_irrefl _)]
        split
        · have hunwound :=
            @AddResult.unwound x d c env _ pos qidx ranged hslot (by decide : -EINVAL < 0)
          rw [← htwice] at hunwound
          exact hunwound
        · rename_i hlegacy
          exact addConfigured_result hslot hprep hlegacy ranged

end

/-! ## Runs -/

/-- A call on the queues of a device, or a step of the resource manager that is not for it. -/
inductive DeviceEvent
  | add (c : ClientConf) (env : AddEnv)
  | config (id : ℕ) (c : ClientConf)
  | start (id : ℕ) (ctxt : ℤ)
  | stop (id : ℕ)
  | remove (id : ℕ) (mail : ℕ → Mail)
  | others (rm : ResourceState)

/-- The device after a call. -/
def deviceStep (x : Xdev) (grant : Grant) (d : Device) : DeviceEvent → Device
  | .add c env => (qdmaQueueAdd x d c env).2.2
  | .config id c => (qdmaQueueConfig x d id c).2
  | .start id ctxt => (qdmaQueueStart x grant d id ctxt).2
  | .stop id => (qdmaQueueStop x d id).2
  | .remove id mail => (qdmaQueueRemove x d id mail).2
  | .others rm => { d with rm := rm }

end OnicDriver.Lifecycle
