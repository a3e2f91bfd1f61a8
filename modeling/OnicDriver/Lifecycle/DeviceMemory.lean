import Mathlib.Algebra.BigOperators.Group.Finset.Basic
import OnicDriver.Lifecycle.Calls
import OnicDriver.Lifecycle.SlotRuns

/-!
# Memory of all queues

The queues of a device obtain their memory from the same allocators. What is
held is what the queues that are online own, each through its own slot.
-/

namespace OnicDriver.Lifecycle

open Lib Access Queue Setup Resource
open scoped BigOperators

/-- What the queue of a slot holds. -/
def Slot.holds (s : Slot) : Multiset Thing := if s.qState = .online then s.owned else 0

/-- The slot can be stopped if its queue is online, and is empty if not. -/
structure Slot.Fits (s : Slot) : Prop where
  online : s.qState = .online → s.Releasable
  offline : s.qState ≠ .online → s.Idle

/-- What the queues of a device hold. -/
def Device.holds (x : Xdev) (d : Device) : Multiset Thing :=
  ∑ p ∈ Finset.range (3 * x.qmax), (d.slots p).holds

/-- What the queues other than that at a place hold. -/
def Device.rest (x : Xdev) (d : Device) (pos : ℕ) : Multiset Thing :=
  ∑ p ∈ (Finset.range (3 * x.qmax)).erase pos, (d.slots p).holds

/-- Nothing is held but by the queues that are online. -/
structure MemInv (x : Xdev) (d : Device) : Prop where
  fits : ∀ p < 3 * x.qmax, (d.slots p).Fits
  are : d.mem.Are (d.holds x) 0

section

variable {x : Xdev} {grant : Grant} {d : Device} {pos : ℕ} {s : Slot} {mem : Memory}
  {r : Multiset Thing} {f : ℕ}

theorem slotInv_iff : SlotInv r f { slot := s, mem := mem } ↔ s.Fits ∧ mem.Are (r + s.holds) f := by
  unfold Slot.holds
  by_cases hon : s.qState = .online
  · rw [if_pos hon]
    constructor
    · exact fun h => ⟨⟨fun _ => (h.online hon).1, absurd hon⟩, (h.online hon).2⟩
    · exact fun ⟨hfits, hmem⟩ => ⟨fun _ => ⟨hfits.online hon, hmem⟩, absurd hon⟩
  · rw [if_neg hon, Multiset.add_zero]
    constructor
    · exact fun h => ⟨⟨fun h' => absurd h' hon, fun _ => (h.offline hon).1⟩, (h.offline hon).2⟩
    · exact fun ⟨hfits, hmem⟩ => ⟨fun h' => absurd h' hon, fun _ => ⟨hfits.offline hon, hmem⟩⟩

theorem rest_add_holds (hpos : pos < 3 * x.qmax) :
    d.rest x pos + (d.slots pos).holds = d.holds x :=
  Finset.sum_erase_add _ _ (Finset.mem_range.mpr hpos)

theorem MemInv.slotInv (h : MemInv x d) (hpos : pos < 3 * x.qmax) :
    SlotInv (d.rest x pos) 0 { slot := d.slots pos, mem := d.mem } :=
  slotInv_iff.mpr ⟨h.fits pos hpos, h.are.congr (rest_add_holds hpos).symm⟩

/-- A call on one slot. -/
theorem MemInv.setSlot (h : MemInv x d) (hpos : pos < 3 * x.qmax)
    (hs : SlotInv (d.rest x pos) 0 { slot := s, mem := mem }) :
    MemInv x { d.setSlot pos s with mem := mem } := by
  obtain ⟨hfits, hmem⟩ := slotInv_iff.mp hs
  have hrest : (d.setSlot pos s).rest x pos = d.rest x pos := by
    apply Finset.sum_congr rfl
    intro p hp
    rw [Device.setSlot_of_ne (Finset.mem_erase.mp hp).1]
  constructor
  · intro p hp
    by_cases hat : p = pos
    · subst hat
      exact (d.setSlot_self p s).symm ▸ hfits
    · exact (Device.setSlot_of_ne (d := d) hat s).symm ▸ h.fits p hp
  · have hholds : (d.setSlot pos s).holds x = d.rest x pos + s.holds := by
      rw [← rest_add_holds hpos, hrest, Device.setSlot_self]
    exact hmem.congr hholds.symm

/-- A free slot keeps nothing whatever queue is put into it. -/
theorem MemInv.setFree (h : MemInv x d) (hpos : pos < 3 * x.qmax)
    (hoff : (d.slots pos).qState ≠ .online) (hsame : (d.slots pos).Idle → s.Idle)
    {ranged : Bool} {rm : ResourceState} :
    MemInv x { d.setSlot pos s with initQrange := ranged, rm := rm } := by
  obtain ⟨hidle, hmem⟩ := (h.slotInv hpos).offline hoff
  have hfree : SlotInv (d.rest x pos) 0 { slot := s, mem := d.mem } :=
    SlotInv.of_idle (hsame hidle) hmem
  obtain ⟨hfits, hare⟩ := h.setSlot hpos hfree
  exact ⟨hfits, hare⟩

/-- The starts that keep the memory in order. -/
def Orderly (x : Xdev) (grant : Grant) (d : Device) : DeviceEvent → Prop
  | .start id _ =>
    id < 3 * x.qmax → (d.slots id).qState = .enabled → ¬ (d.slots id).startCheck x < 0 →
      StartOrderly x grant (d.slots id) d.mem
  | _ => True

theorem MemInv.config (h : MemInv x d) (id : ℕ) (c : ClientConf) :
    MemInv x (qdmaQueueConfig x d id c).2 := by
  unfold qdmaQueueConfig
  split
  · exact h
  · rename_i pos hpos
    obtain ⟨rfl, hlt, -⟩ := getDescqById_some hpos
    exact h.setSlot hlt ((h.slotInv hlt).config x c)

theorem MemInv.start (h : MemInv x d) (hx : TablesOk x.csrInfo) (id : ℕ) (ctxt : ℤ)
    (ho : Orderly x grant d (.start id ctxt)) :
    MemInv x (qdmaQueueStart x grant d id ctxt).2 := by
  unfold qdmaQueueStart
  split
  · exact h
  · rename_i pos hpos
    obtain ⟨rfl, hlt, -⟩ := getDescqById_some hpos
    exact h.setSlot hlt ((h.slotInv hlt).start hx ctxt (ho hlt)).1

theorem MemInv.stop (h : MemInv x d) (id : ℕ) : MemInv x (qdmaQueueStop x d id).2 := by
  unfold qdmaQueueStop
  split
  · exact h
  · rename_i pos hpos
    obtain ⟨rfl, hlt, -⟩ := getDescqById_some hpos
    exact h.setSlot hlt (h.slotInv hlt).stop

theorem MemInv.remove (h : MemInv x d) (id : ℕ) (mail : ℕ → Mail) :
    MemInv x (qdmaQueueRemove x d id mail).2 := by
  unfold qdmaQueueRemove
  split
  · exact h
  · rename_i pos hpos
    obtain ⟨rfl, hlt, -⟩ := getDescqById_some hpos
    split
    · exact h
    · rename_i hen
      dsimp only
      split
      · exact ⟨h.fits, h.are⟩
      · refine h.setFree (s := { d.slots pos with qState := .disabled }) hlt ?_
          fun hidle => ⟨hidle.desc, hidle.descCmpt, hidle.flq⟩
        rw [Decidable.not_not.mp hen]
        exact nofun

/-- A queue is added to a free slot. -/
theorem MemInv.add (h : MemInv x d) (c : ClientConf) (env : AddEnv)
    (hfree : ∀ pos qidx, Reserved x d c env pos qidx →
      pos < 3 * x.qmax ∧ (d.slots pos).qState = .disabled) :
    MemInv x (qdmaQueueAdd x d c env).2.2 := by
  have hset : ∀ {pos qidx s ranged rm}, Reserved x d c env pos qidx →
      ((d.slots pos).Idle → s.Idle) →
      MemInv x { d.setSlot pos s with initQrange := ranged, rm := rm } := by
    intro pos qidx s ranged rm hslot hsame
    obtain ⟨hlt, hoff⟩ := hfree pos qidx hslot
    refine h.setFree hlt ?_ hsame
    rw [hoff]
    exact nofun
  have hadd := qdmaQueueAdd_result x d c env
  generalize qdmaQueueAdd x d c env = res at hadd ⊢
  cases hadd with
  | refused hneg => exact h
  | unwound hslot hneg => exact hset hslot fun hidle => ⟨hidle.desc, hidle.descCmpt, hidle.flq⟩
  | marked hslot hpf hprep => exact hset hslot fun hidle => ⟨hidle.desc, hidle.descCmpt, hidle.flq⟩
  | uncounted hslot hprep hlegacy hcount hneg =>
    exact hset hslot fun hidle => ⟨hidle.desc, hidle.descCmpt, hidle.flq⟩
  | added hslot hprep hlegacy hcount hrv =>
    exact hset hslot fun hidle => ⟨hidle.desc, hidle.descCmpt, hidle.flq⟩

/-- A new device holds nothing. -/
theorem MemInv.init (x : Xdev) (rm : ResourceState) (other : ℕ → Slot) :
    MemInv x (qdmaDeviceInit x rm other) := by
  have hslot : ∀ p < 3 * x.qmax, (qdmaDeviceInit x rm other).slots p =
      { descq := { conf := {} }, qidx := p % x.qmax } := fun p hp => if_pos hp
  constructor
  · intro p hp
    rw [hslot p hp]
    exact ⟨nofun, fun _ => ⟨rfl, rfl, rfl⟩⟩
  · refine ⟨?_, rfl⟩
    symm
    apply Finset.sum_eq_zero
    intro p hp
    rw [hslot p (Finset.mem_range.mp hp)]
    rfl

end

end OnicDriver.Lifecycle
