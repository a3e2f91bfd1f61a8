import OnicDriver.Lifecycle.Calls
import OnicDriver.Lifecycle.SlotRuns

/-!
# Handles of queues

A handle tells which queue a call is for. Where the library chooses the index
of a queue, it marks and configures the slot with twice that index, which is
the right one only for index 0.
-/

namespace OnicDriver.Lifecycle

open Lib Access Queue Setup Resource

/-- The configuration of the client is in a slot. -/
structure Slot.Holds (s : Slot) (c : ClientConf) : Prop where
  conf : s.conf = c.conf
  qidx : c.qidx ≠ QDMA_QUEUE_IDX_INVALID → s.qidx = c.qidx
  apertureSize : s.apertureSize = c.apertureSize
  fpBypassDescFill : s.fpBypassDescFill = c.fpBypassDescFill

/-- A queue was added under a handle: the handle finds the slot that was enabled and configured
for it, no other slot changed, and the handle is found from the slot. -/
def AddProper (x : Xdev) (d : Device) (c : ClientConf) (hndl : ℕ) (d' : Device) : Prop :=
  ∃ pos, qdmaDeviceGetDescqById x d' hndl true = some pos ∧
    (d.slots pos).qState = .disabled ∧ (d'.slots pos).qState = .enabled ∧
    (d'.slots pos).Holds c ∧ (∀ p ≠ pos, d'.slots p = d.slots p) ∧
    qdmaDeviceGetIdFromDescq x d' pos = some hndl

/-- The client names the index, or the first index that is usable is 0. -/
def Direct (x : Xdev) (d : Device) (c : ClientConf) : Prop :=
  c.qidx = QDMA_QUEUE_IDX_INVALID → ∀ i, firstUsable x d c.conf = some i → i = 0

section

variable {x : Xdev} {d : Device} {c : ClientConf} {env : AddEnv} {pos qidx : ℕ}

/-- The slot of the index is free; the slot that is marked is another one if the library chose
an index other than 0. -/
theorem Reserved.spec (h : Reserved x d c env pos qidx) :
    qidx < x.qmax ∧ (d.slots (x.base c.conf.qType + qidx)).qState = .disabled ∧
      (c.qidx ≠ QDMA_QUEUE_IDX_INVALID → qidx = c.qidx) ∧
      (Direct x d c ↔ pos = x.base c.conf.qType + qidx) := by
  obtain ⟨hlt, husable⟩ := h.usable
  refine ⟨hlt, isUsableQueue_disabled husable, ?_⟩
  rcases h.cases with ⟨hauto, hfirst, hpos⟩ | ⟨hnamed, hidx, hpos⟩
  · refine ⟨absurd hauto, ?_, ?_⟩
    · intro hdirect
      rw [hpos, hdirect hauto qidx hfirst]
    · intro hat _ i hi
      rw [hfirst] at hi
      cases hi
      omega
  · exact ⟨fun _ => hidx, iff_of_true (fun hauto => absurd hauto hnamed) hpos⟩

/-- A queue that was added under its handle. -/
theorem addProper_of_pos (h : Reserved x d c env pos qidx) (hpos : pos = x.base c.conf.qType + qidx)
    {s : Slot} (hs : s = d.configured c pos qidx) {hndl : ℕ} {ranged : Bool} {rm : ResourceState}
    (hhndl : hndl = qidx + x.base c.conf.qType) :
    AddProper x d c hndl
      { d.setSlot pos { s with qHndl := hndl } with initQrange := ranged, rm := rm } := by
  obtain ⟨hidx, hoff, hgiven, -⟩ := h.spec
  have hat : hndl = pos := by omega
  subst hat hs
  have hslot : Function.update d.slots hndl { d.configured c hndl qidx with qHndl := hndl } hndl =
      { d.configured c hndl qidx with qHndl := hndl } := Function.update_self ..
  refine ⟨hndl, ?_, ?_, ?_, ?_, ?_, ?_⟩
  · rw [getDescqById_eq, if_pos]
    refine ⟨?_, fun _ => ?_⟩
    · rw [hpos]
      exact base_add_lt hidx
    · unfold Device.setSlot
      dsimp only
      rw [hslot]
      exact nofun
  · rw [hpos]
    exact hoff
  · unfold Device.setSlot
    dsimp only
    rw [hslot]
    rfl
  · unfold Device.setSlot
    dsimp only
    rw [hslot]
    exact ⟨rfl, hgiven, rfl, rfl⟩
  · intro p hp
    exact Function.update_of_ne hp _ _
  · apply getIdFromDescq_eq hidx
    unfold Device.setSlot
    dsimp only
    rw [hslot]
    exact hpos

end

/-! ## Handles in use -/

/-- A device and the handles of the queues that the client has added and not removed. -/
structure HandleState where
  dev : Device
  live : List ℕ := []

/-- The device after a call, and the handles in use. -/
def handleStep (x : Xdev) (grant : Grant) (st : HandleState) (e : DeviceEvent) : HandleState where
  dev := deviceStep x grant st.dev e
  live :=
    match e with
    | .add c env =>
      let (rv, hndl, _) := qdmaQueueAdd x st.dev c env
      if rv = 0 then hndl :: st.live else st.live
    | .remove id mail =>
      if (qdmaQueueRemove x st.dev id mail).1 = 0 then st.live.erase id else st.live
    | _ => st.live

/-- A queue is added where its handle points to. -/
def AddDirect (x : Xdev) (st : HandleState) : DeviceEvent → Prop
  | .add c env => ¬ addCheck x st.dev c env < 0 → Direct x st.dev c
  | _ => True

/-- No two handles in use denote the same queue, and each is found from the queue it denotes. -/
structure HandlesProper (x : Xdev) (st : HandleState) : Prop where
  distinct : st.live.Pairwise fun h h' =>
    qdmaDeviceGetDescqById x st.dev h true ≠ qdmaDeviceGetDescqById x st.dev h' true
  denotes : ∀ h ∈ st.live, ∃ pos, qdmaDeviceGetDescqById x st.dev h true = some pos ∧
    qdmaDeviceGetIdFromDescq x st.dev pos = some h

/-- A place holds a queue that was added to the array of its type. -/
def InPlace (x : Xdev) (d : Device) (pos : ℕ) : Prop :=
  (d.slots pos).qState ≠ .disabled ∧
    ∃ k < x.qmax, pos = x.base (d.slots pos).conf.qType + k

/-- The handles in use are different places of added queues. -/
structure HandleInv (x : Xdev) (st : HandleState) : Prop where
  nodup : st.live.Nodup
  inPlace : ∀ h ∈ st.live, InPlace x st.dev h

section

variable {x : Xdev} {grant : Grant} {d d' : Device} {st : HandleState}

theorem InPlace.getDescqById {h : ℕ} (hplace : InPlace x d h) :
    qdmaDeviceGetDescqById x d h true = some h := by
  obtain ⟨hon, k, hk, hpos⟩ := hplace
  rw [getDescqById_eq, if_pos]
  refine ⟨?_, fun _ => hon⟩
  rw [hpos]
  exact base_add_lt hk

theorem HandleInv.proper (h : HandleInv x st) : HandlesProper x st := by
  constructor
  · refine h.nodup.imp_of_mem ?_
    intro a b ha hb hne
    rw [(h.inPlace a ha).getDescqById, (h.inPlace b hb).getDescqById]
    exact fun heq => hne (Option.some.inj heq)
  · intro a ha
    have hplace := h.inPlace a ha
    refine ⟨a, hplace.getDescqById, ?_⟩
    obtain ⟨-, k, hk, hpos⟩ := hplace
    exact getIdFromDescq_eq hk hpos

/-- A queue stays in its place while the call is for another one. -/
theorem InPlace.of_slot {h : ℕ} (hplace : InPlace x d h)
    (hstays : (d.slots h).Stays (d'.slots h)) : InPlace x d' h := by
  obtain ⟨hon, hk⟩ := hplace
  refine ⟨fun hoff => hon (hstays.disabled.mp hoff), ?_⟩
  rw [hstays.qType]
  exact hk

theorem einval_ne : -EINVAL ≠ 0 := by decide

/-- A removal that fails leaves the slots as they are, and one that does not frees the slot of
its handle. -/
theorem qdmaQueueRemove_slots (x : Xdev) (d : Device) (id : ℕ) (mail : ℕ → Mail) :
    (qdmaQueueRemove x d id mail).1 ≠ 0 ∧ (qdmaQueueRemove x d id mail).2.slots = d.slots ∨
      (qdmaQueueRemove x d id mail).1 = 0 ∧ (qdmaQueueRemove x d id mail).2.slots =
        Function.update d.slots id { d.slots id with qState := .disabled } := by
  unfold qdmaQueueRemove
  split
  · exact .inl ⟨einval_ne, rfl⟩
  · rename_i pos hpos
    obtain ⟨rfl, -⟩ := getDescqById_some hpos
    split
    · exact .inl ⟨einval_ne, rfl⟩
    · dsimp only
      split
      · rename_i hneg
        exact .inl ⟨hneg.ne, rfl⟩
      · exact .inr ⟨rfl, rfl⟩

/-- Marking a free slot and what follows it do not touch the queues in use. -/
theorem HandleInv.add (h : HandleInv x st) (c : ClientConf) (env : AddEnv)
    (hdirect : ¬ addCheck x st.dev c env < 0 → Direct x st.dev c) :
    HandleInv x (handleStep x grant st (.add c env)) := by
  have hfree : ∀ {pos qidx}, Reserved x st.dev c env pos qidx →
      ∀ a ∈ st.live, a ≠ pos := by
    rintro pos qidx hslot a ha rfl
    obtain ⟨-, hoff, -, hpos⟩ := hslot.spec
    apply (h.inPlace a ha).1
    rw [hpos.mp (hdirect hslot.check)]
    exact hoff
  -- a call that fails may change a slot that is not in use
  have hother : ∀ {pos : ℕ} {d' : Device}, (∀ a ∈ st.live, a ≠ pos) →
      (∀ p ≠ pos, d'.slots p = st.dev.slots p) → ∀ a ∈ st.live, InPlace x d' a := by
    intro pos d' hne hslots a ha
    apply (h.inPlace a ha).of_slot
    rw [hslots a (hne a ha)]
    exact .refl _
  have hadd := qdmaQueueAdd_result x st.dev c env
  unfold handleStep deviceStep
  dsimp only
  generalize qdmaQueueAdd x st.dev c env = res at hadd ⊢
  cases hadd with
  | refused hneg =>
    dsimp only
    rw [if_neg hneg.ne]
    exact ⟨h.nodup, h.inPlace⟩
  | unwound hslot hneg =>
    dsimp only
    rw [if_neg hneg.ne]
    exact ⟨h.nodup, hother (hfree hslot) fun p hp => Function.update_of_ne hp _ _⟩
  | marked hslot hpf hprep =>
    dsimp only
    rw [if_neg hprep.2.ne]
    exact ⟨h.nodup, hother (hfree hslot) fun p hp => Function.update_of_ne hp _ _⟩
  | uncounted hslot hprep hlegacy hcount hneg =>
    dsimp only
    rw [if_neg hneg.ne]
    exact ⟨h.nodup, hother (hfree hslot) fun p hp => Function.update_of_ne hp _ _⟩
  | @added _ pos qidx _ _ hslot hprep hlegacy hcount hrv =>
    obtain ⟨hidx, -, -, hpos⟩ := hslot.spec
    have hat : qidx + x.base c.conf.qType = pos := by
      rw [hpos.mp (hdirect hslot.check), Nat.add_comm]
    dsimp only
    rw [if_pos rfl, hat]
    constructor
    · exact List.nodup_cons.mpr ⟨fun hmem => hfree hslot pos hmem rfl, h.nodup⟩
    · intro a ha
      rcases List.mem_cons.mp ha with rfl | ha
      · unfold InPlace Device.setSlot
        dsimp only
        rw [Function.update_self]
        exact ⟨nofun, qidx, hidx, by rw [← hat, Nat.add_comm]; rfl⟩
      · exact hother (hfree hslot) (fun p hp => Function.update_of_ne hp _ _) a ha

theorem HandleInv.remove (h : HandleInv x st) (id : ℕ) (mail : ℕ → Mail) :
    HandleInv x (handleStep x grant st (.remove id mail)) := by
  unfold handleStep deviceStep
  rcases qdmaQueueRemove_slots x st.dev id mail with ⟨hne, hslots⟩ | ⟨hrv, hslots⟩
  · dsimp only
    rw [if_neg hne]
    refine ⟨h.nodup, fun a ha => (h.inPlace a ha).of_slot ?_⟩
    rw [hslots]
    exact .refl _
  · dsimp only
    rw [if_pos hrv]
    refine ⟨h.nodup.erase id, fun a ha => ?_⟩
    obtain ⟨hne, hmem⟩ := h.nodup.mem_erase_iff.mp ha
    apply (h.inPlace a hmem).of_slot
    rw [hslots, Function.update_of_ne hne]
    exact .refl _

/-- Every call keeps the handles apart. -/
theorem HandleInv.step (h : HandleInv x st) (e : DeviceEvent) (hdirect : AddDirect x st e) :
    HandleInv x (handleStep x grant st e) := by
  cases e with
  | add c env => exact h.add c env hdirect
  | remove id mail => exact h.remove id mail
  | config id c =>
    exact ⟨h.nodup, fun a ha => (h.inPlace a ha).of_slot (qdmaQueueConfig_stays x st.dev id c a)⟩
  | start id ctxt =>
    exact ⟨h.nodup,
      fun a ha => (h.inPlace a ha).of_slot (qdmaQueueStart_stays x grant st.dev id ctxt a)⟩
  | stop id =>
    exact ⟨h.nodup, fun a ha => (h.inPlace a ha).of_slot (qdmaQueueStop_stays x st.dev id a)⟩
  | others rm => exact ⟨h.nodup, h.inPlace⟩

end

/-- A queue is added under its handle exactly if the client names the index or it is 0. After any
calls in which all queues are added so, no two handles in use denote the same queue and each is
found from the queue it denotes. -/
theorem queueAdd_proper_iff_direct (x : Xdev) (grant : Grant) :
    (∀ d c env, (qdmaQueueAdd x d c env).1 = 0 →
      (AddProper x d c (qdmaQueueAdd x d c env).2.1 (qdmaQueueAdd x d c env).2.2 ↔
        Direct x d c)) ∧
    ∀ d es, Admitted (handleStep x grant) (AddDirect x) { dev := d } es →
      HandlesProper x (run (handleStep x grant) { dev := d } es) := by
  constructor
  · intro d c env hrv
    have hadd := qdmaQueueAdd_result x d c env
    generalize qdmaQueueAdd x d c env = res at hadd hrv ⊢
    cases hadd with
    | refused hneg => exact absurd hrv hneg.ne
    | unwound hslot hneg => exact absurd hrv hneg.ne
    | marked hslot hpf hprep => exact absurd hrv hprep.2.ne
    | uncounted hslot hprep hlegacy hcount hneg => exact absurd hrv hneg.ne
    | @added _ pos qidx _ _ hslot hprep hlegacy hcount hrv =>
      obtain ⟨hidx, hoff, -, hpos⟩ := hslot.spec
      rw [hpos]
      constructor
      · rintro ⟨p, hfound, -⟩
        obtain ⟨rfl, -, hon⟩ := getDescqById_some hfound
        by_contra hne
        -- the slot of the handle was not the one that was marked
        apply hon rfl
        unfold Device.setSlot
        dsimp only
        rw [Function.update_of_ne (by omega), Nat.add_comm]
        exact hoff
      · intro hat
        exact addProper_of_pos hslot hat rfl rfl
  · intro d es h
    have hinv : HandleInv x (run (handleStep x grant) { dev := d } es) :=
      h.invariant (fun _ e hs ho => hs.step e ho) ⟨List.nodup_nil, by simp⟩
    exact hinv.proper

/-- A resource manager that has given four queues to the function. -/
def fourQueues : ResourceState where
  masterResourceList := [{
    dmaDeviceIndex := 0, pciBusStart := 0, pciBusEnd := 0, totalQ := 4, qbase := 0
    devList := [{ funcId := 0, entry := { qbase := 0, totalQ := 4 } }] }]

/-- The device before its first queue. -/
def newDevice : Device := qdmaDeviceInit pollingPf fourQueues fun _ => newSlot

/-- A queue of which the library chooses the index. -/
def autoConf (t : QType) : ClientConf := { conf := { qType := t }, qidx := QDMA_QUEUE_IDX_INVALID }

/-- A queue is added to each of two arrays; the second is started, stopped and removed. -/
def twoQueues : List DeviceEvent :=
  [.add (autoConf .h2c) {}, .add { conf := { qType := .c2h }, qidx := 1 } {}, .start 5 0, .stop 5,
    .remove 5 fun _ => .answered]

theorem twoQueues_proper :
    AddProper pollingPf newDevice (autoConf .c2h)
        (qdmaQueueAdd pollingPf newDevice (autoConf .c2h) {}).2.1
        (qdmaQueueAdd pollingPf newDevice (autoConf .c2h) {}).2.2 ∧
      HandlesProper pollingPf
        (run (handleStep pollingPf fun _ => true) { dev := newDevice } twoQueues) := by
  have hproper := queueAdd_proper_iff_direct pollingPf fun _ => true
  constructor
  · apply (hproper.1 newDevice (autoConf .c2h) {} (by decide +kernel)).mpr
    intro _ i hi
    have hzero : firstUsable pollingPf newDevice (autoConf .c2h).conf = some 0 := by decide +kernel
    rw [hzero] at hi
    exact (Option.some.inj hi).symm
  · apply hproper.2
    refine ⟨?_, ?_, trivial, trivial, trivial, trivial⟩
    · intro _ _ i hi
      have hzero : firstUsable pollingPf newDevice (autoConf .h2c).conf = some 0 := by
        decide +kernel
      rw [hzero] at hi
      exact (Option.some.inj hi).symm
    · exact fun _ hauto => absurd hauto (by decide)

/-- With index 0 in use the library chooses index 1 and marks slot 2: the handle finds no queue. -/
theorem secondAuto_not_proper : ¬ ∀ x d c env, (qdmaQueueAdd x d c env).1 = 0 →
    AddProper x d c (qdmaQueueAdd x d c env).2.1 (qdmaQueueAdd x d c env).2.2 := by
  intro h
  obtain ⟨pos, hfound, -⟩ := h pollingPf
    (run (deviceStep pollingPf fun _ => true) newDevice [.add (autoConf .h2c) {}])
    (autoConf .h2c) {} (by decide +kernel)
  have hnone : qdmaDeviceGetDescqById pollingPf (qdmaQueueAdd pollingPf
      (run (deviceStep pollingPf fun _ => true) newDevice [.add (autoConf .h2c) {}])
      (autoConf .h2c) {}).2.2 1 true = none := by decide +kernel
  have hone : (qdmaQueueAdd pollingPf
      (run (deviceStep pollingPf fun _ => true) newDevice [.add (autoConf .h2c) {}])
      (autoConf .h2c) {}).2.1 = 1 := by decide +kernel
  rw [hone, hnone] at hfound
  cases hfound

end OnicDriver.Lifecycle
