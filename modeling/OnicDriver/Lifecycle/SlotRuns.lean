import OnicDriver.Lib.Runs
import OnicDriver.Lifecycle.Slot

/-!
# Memory over the life of a slot

A slot is used again and again, for queues of any type. After any calls, with
allocations refused anywhere, it holds the memory of the queue that is online
in it and nothing else.
-/

namespace OnicDriver.Lifecycle

open Lib Access Queue Setup

/-- A slot and the memory obtained for it. -/
structure SlotState where
  slot : Slot
  mem : Memory := {}

/-- How far `qdma_queue_add` gets: it leaves the slot as it is, marks it and takes the mark back,
fails with the slot marked, or configures the queue. -/
inductive AddEnd
  | refused
  | unwound
  | marked
  | configured
  deriving DecidableEq, Repr

/-- `qdma_queue_add` on a slot: `is_usable_queue` refuses one that is in use. -/
def Slot.add (s : Slot) (c : ClientConf) : AddEnd → Slot
  | .refused => s
  | .unwound => s
  | .marked => if s.qState = .disabled then { s with qState := .enabled } else s
  | .configured =>
    if s.qState = .disabled then { s with qState := .enabled }.configure c else s

/-- `qdma_queue_remove` on a slot, where `counted` tells whether the queue could be taken from the
count of active queues. -/
def Slot.remove (s : Slot) (counted : Bool) : Slot :=
  if s.qState = .enabled ∧ counted then { s with qState := .disabled } else s

/-- A call for the queue of a slot. -/
inductive SlotEvent
  | add (c : ClientConf) (e : AddEnd)
  | config (c : ClientConf)
  | start (ctxt : ℤ)
  | stop
  | remove (counted : Bool)

/-- The slot after a call. -/
def slotStep (x : Xdev) (grant : Grant) (st : SlotState) : SlotEvent → SlotState
  | .add c e => { st with slot := st.slot.add c e }
  | .config c => { st with slot := (st.slot.config x c).2 }
  | .start ctxt =>
    let r := st.slot.start x grant ctxt st.mem
    { slot := r.2.1, mem := r.2.2 }
  | .stop =>
    let r := st.slot.stop st.mem
    { slot := r.2.1, mem := r.2.2 }
  | .remove counted => { st with slot := st.slot.remove counted }

/-- Nothing went wrong with the memory, a queue that is online has its resources, and a slot
whose queue is not online holds nothing. -/
structure InOrder (st : SlotState) : Prop where
  faults : st.mem.faults = 0
  online : st.slot.qState = .online → st.mem.held = st.slot.owned
  offline : st.slot.qState ≠ .online → st.mem.held = 0

/-- The tables of a device hold sizes of real rings and buffers. -/
structure TablesOk (csr : GlobalCsrConf) : Prop where
  two_le : ∀ i < 16, 2 ≤ csr.ringSz i
  ringSz_le : ∀ i < 16, csr.ringSz i ≤ 2 ^ 16
  c2hBufSz_pos : ∀ i < 16, 0 < csr.c2hBufSz i

/-- A start that keeps the memory in order: where the ring is granted and the array of the pages
is refused, there is but one page; a queue with a ring and without a bypass list is not one whose
slot had such a list before; and a completion queue gets no bypass list. -/
structure StartOrderly (x : Xdev) (grant : Grant) (s : Slot) (mem : Memory) : Prop where
  pages : s.conf.stC2h = true → grant mem.calls = true → grant (mem.calls + 1) = false →
    x.csrInfo.ringSz s.conf.descRngSzIdx ≤ 2
  list : s.conf.qType ≠ .cmpt → s.conf.stC2h = false → s.isUlExt = false →
    grant mem.calls = true → s.descList = 0
  cmptList : s.conf.qType = .cmpt → s.isUlExt = true → grant mem.calls = false

/-- The calls that keep the memory in order. -/
def SlotOrderly (x : Xdev) (grant : Grant) (st : SlotState) : SlotEvent → Prop
  | .start _ =>
    st.slot.qState = .enabled → ¬ st.slot.startCheck x < 0 →
      StartOrderly x grant st.slot st.mem
  | _ => True

/-- The invariant, with whatever else is held. -/
structure SlotInv (r : Multiset Thing) (f : ℕ) (st : SlotState) : Prop where
  online : st.slot.qState = .online → st.slot.Releasable ∧ st.mem.Are (r + st.slot.owned) f
  offline : st.slot.qState ≠ .online → st.slot.Idle ∧ st.mem.Are r f

section

variable {x : Xdev} {grant : Grant} {s : Slot} {mem : Memory} {st : SlotState}
  {r : Multiset Thing} {f : ℕ}

theorem SlotInv.inOrder (h : SlotInv 0 0 st) : InOrder st := by
  by_cases hon : st.slot.qState = .online
  · obtain ⟨-, hheld, hfaults⟩ := h.online hon
    exact ⟨hfaults, fun _ => hheld.trans (Multiset.zero_add _), absurd hon⟩
  · obtain ⟨-, hheld, hfaults⟩ := h.offline hon
    exact ⟨hfaults, fun hon' => absurd hon' hon, fun _ => hheld⟩

theorem getDescSize_le (conf : QdmaQueueConf) : 0 < getDescSize conf ∧ getDescSize conf ≤ 64 := by
  unfold getDescSize
  repeat' split
  all_goals decide

/-- The size of a ring of the tables fits. -/
theorem TablesOk.ringFits (hx : TablesOk x.csrInfo) (i : Fin 16) {descSz : ℕ} (hpos : 0 < descSz)
    (hle : descSz ≤ 64) :
    u32 (x.csrInfo.ringSz i - 1) + 1 = x.csrInfo.ringSz i ∧
      RingFits (u32 (x.csrInfo.ringSz i - 1)) descSz 8 := by
  have htwo := hx.two_le i i.isLt
  have hsz := hx.ringSz_le i i.isLt
  have hu : u32 ((x.csrInfo.ringSz i : ℤ) - 1) = x.csrInfo.ringSz i - 1 := by
    unfold u32
    omega
  rw [hu]
  refine ⟨by omega, hpos, ?_⟩
  have hmul : (x.csrInfo.ringSz i - 1) * descSz ≤ 2 ^ 16 * 64 := Nat.mul_le_mul (by omega) hle
  omega

/-- The configuration that is completed differs in the size of the completion ring only. -/
theorem Slot.configComplete_conf (x : Xdev) (s : Slot) :
    ∃ i, (s.configComplete x).conf = { s.conf with cmplRngSzIdx := i } := by
  unfold Slot.configComplete Slot.conf qdmaDescqConfigComplete
  dsimp only
  split
  · exact ⟨_, rfl⟩
  · exact ⟨s.descq.conf.cmplRngSzIdx, rfl⟩

theorem Slot.configComplete_rngsz (x : Xdev) (s : Slot) :
    (s.configComplete x).descq.rngsz = u32 (x.csrInfo.ringSz s.conf.descRngSzIdx - 1) := by
  unfold Slot.configComplete Slot.conf qdmaDescqConfigComplete
  dsimp only
  split <;> rfl

/-- The sizes that only queues with completions have. -/
theorem Slot.configComplete_cmpt (x : Xdev) {s : Slot} (h : s.conf.withCmpt = true) :
    (∃ i : Fin 16, (s.configComplete x).descq.rngszCmpt = u32 (x.csrInfo.ringSz i - 1)) ∧
      (s.configComplete x).cmptEntryLen = 8 * 2 ^ s.conf.cmplDescSz.val ∧
      (s.configComplete x).descq.c2hBufsz = x.csrInfo.c2hBufSz s.conf.c2hBufSzIdx := by
  unfold Slot.conf at h
  unfold Slot.configComplete Slot.conf qdmaDescqConfigComplete
  dsimp only
  rw [if_pos h, if_pos h]
  exact ⟨⟨_, rfl⟩, rfl, rfl⟩

theorem QdmaQueueConf.withCmpt_of_stC2h {conf : QdmaQueueConf} (h : conf.stC2h = true) :
    conf.withCmpt = true := by
  unfold QdmaQueueConf.withCmpt
  rw [h, Bool.true_or]

/-- With the tables of a real device a start is safe where it is orderly. -/
theorem StartOrderly.safe (hx : TablesOk x.csrInfo) (h : StartOrderly x grant s mem) :
    StartSafe grant (s.configComplete x) mem := by
  obtain ⟨hpos, hle⟩ := getDescSize_le s.conf
  obtain ⟨i, hconf⟩ := s.configComplete_conf x
  have hst : (s.configComplete x).conf.stC2h = s.conf.stC2h := by rw [hconf]; rfl
  have hcmpt : (s.configComplete x).conf.withCmpt = s.conf.withCmpt := by rw [hconf]; rfl
  have hqType : (s.configComplete x).conf.qType = s.conf.qType := by rw [hconf]
  have hext : (s.configComplete x).isUlExt = s.isUlExt := by
    unfold Slot.isUlExt
    rw [hconf]
    rfl
  have hdesc : getDescSize (s.configComplete x).conf = getDescSize s.conf := by rw [hconf]; rfl
  have hrngsz := s.configComplete_rngsz x
  obtain ⟨hsize, hfits⟩ := hx.ringFits s.conf.descRngSzIdx hpos hle
  have htwo := hx.two_le s.conf.descRngSzIdx s.conf.descRngSzIdx.isLt
  rw [← hrngsz] at hsize hfits
  refine ⟨by rw [hdesc]; exact hfits, ?_, ?_, ?_, ?_, ?_⟩
  · intro hwith
    obtain ⟨⟨j, hj⟩, hlen, -⟩ := Slot.configComplete_cmpt x (hcmpt ▸ hwith)
    have hentry : 0 < 8 * 2 ^ s.conf.cmplDescSz.val ∧ 8 * 2 ^ s.conf.cmplDescSz.val ≤ 64 := by
      generalize s.conf.cmplDescSz = k
      revert k
      decide
    rw [hj, hlen]
    exact (hx.ringFits j hentry.1 hentry.2).2
  · intro hstream
    obtain ⟨-, -, hbuf⟩ :=
      Slot.configComplete_cmpt x (QdmaQueueConf.withCmpt_of_stC2h (hst ▸ hstream))
    refine ⟨by omega, ?_⟩
    rw [hbuf]
    exact (hx.c2hBufSz_pos _ s.conf.c2hBufSzIdx.isLt).ne'
  · intro hstream hring hrefused
    have hpages := h.pages (hst ▸ hstream) hring hrefused
    omega
  · intro hne hstream hno hring
    exact h.list (hqType ▸ hne) (hst ▸ hstream) (hext ▸ hno) hring
  · intro hq hyes
    exact h.cmptList (hqType ▸ hq) (hext ▸ hyes)

/-- A change of the configuration leaves a slot without resources as it is. -/
theorem SlotInv.of_idle (hidle : st.slot.Idle) (h : st.mem.Are r f) : SlotInv r f st :=
  ⟨fun _ => ⟨hidle.releasable, h.congr (by rw [hidle.owned, Multiset.add_zero])⟩,
    fun _ => ⟨hidle, h⟩⟩

theorem SlotInv.add (h : SlotInv r f st) (c : ClientConf) (e : AddEnd) :
    SlotInv r f { st with slot := st.slot.add c e } := by
  by_cases hfree : st.slot.qState = .disabled
  · obtain ⟨hidle, hmem⟩ := h.offline (by rw [hfree]; decide)
    have hadded : (st.slot.add c e).Idle → SlotInv r f { st with slot := st.slot.add c e } :=
      fun hidle => SlotInv.of_idle hidle hmem
    apply hadded
    unfold Slot.add Slot.configure
    cases e with
    | refused | unwound => exact hidle
    | marked | configured =>
      dsimp only
      rw [if_pos hfree]
      exact ⟨hidle.desc, hidle.descCmpt, hidle.flq⟩
  · have hsame : st.slot.add c e = st.slot := by
      unfold Slot.add
      cases e with
      | refused | unwound => rfl
      | marked | configured => exact if_neg hfree
    rw [hsame]
    exact h

theorem SlotInv.config (h : SlotInv r f st) (x : Xdev) (c : ClientConf) :
    SlotInv r f { st with slot := (st.slot.config x c).2 } := by
  unfold Slot.config
  split
  · exact h
  · rename_i hen
    split
    · exact h
    · have hoff : st.slot.qState ≠ .online := by
        rw [Decidable.not_not.mp hen]
        decide
      obtain ⟨hidle, hmem⟩ := h.offline hoff
      exact SlotInv.of_idle ⟨hidle.desc, hidle.descCmpt, hidle.flq⟩ hmem

theorem SlotInv.remove (h : SlotInv r f st) (counted : Bool) :
    SlotInv r f { st with slot := st.slot.remove counted } := by
  unfold Slot.remove
  split
  · rename_i hen
    obtain ⟨hidle, hmem⟩ := h.offline (by rw [hen.1]; decide)
    exact SlotInv.of_idle ⟨hidle.desc, hidle.descCmpt, hidle.flq⟩ hmem
  · exact h

theorem SlotInv.stop (h : SlotInv r f st) :
    SlotInv r f { slot := (st.slot.stop st.mem).2.1, mem := (st.slot.stop st.mem).2.2 } := by
  unfold Slot.stop
  split
  · exact h
  · rename_i hon
    obtain ⟨hrel, hmem⟩ := h.online (Decidable.not_not.mp hon)
    obtain ⟨s', mem', hfree, hcleared, h'⟩ :=
      Are.qdmaDescqFreeResource (s := { st.slot with qState := .enabled }) hmem
        ⟨hrel.desc, hrel.descCmpt, hrel.flq, hrel.flqIdle⟩
    rw [hfree]
    exact SlotInv.of_idle hcleared.idle h'

/-- What `qdma_queue_start` leaves: a queue that is online, or the slot as startable as it was and
without resources. -/
theorem SlotInv.start (h : SlotInv r f st) (hx : TablesOk x.csrInfo) (ctxt : ℤ)
    (ho : SlotOrderly x grant st (.start ctxt)) :
    SlotInv r f (slotStep x grant st (.start ctxt)) ∧
      ((st.slot.start x grant ctxt st.mem).1 < 0 →
        (slotStep x grant st (.start ctxt)).slot.qState = st.slot.qState) := by
  have hstep : slotStep x grant st (.start ctxt) =
      { slot := (st.slot.start x grant ctxt st.mem).2.1
        mem := (st.slot.start x grant ctxt st.mem).2.2 } := rfl
  rw [hstep]
  unfold Slot.start
  split
  · exact ⟨h, fun _ => rfl⟩
  · rename_i hen
    have henabled : st.slot.qState = .enabled := Decidable.not_not.mp hen
    obtain ⟨hidle, hmem⟩ := h.offline (by rw [henabled]; decide)
    split
    · exact ⟨h, fun _ => rfl⟩
    · rename_i hcheck
      have hsafe := (ho henabled hcheck).safe hx
      have hidle' : (st.slot.configComplete x).Idle := ⟨hidle.desc, hidle.descCmpt, hidle.flq⟩
      have hres := Are.qdmaDescqAllocResource hmem hidle' hsafe
      generalize qdmaDescqAllocResource grant (st.slot.configComplete x) st.mem = res at hres
      obtain ⟨rv, s, mem⟩ := res
      have hstate : s.qState = st.slot.qState := hres.sameQueue.qState
      dsimp only
      split
      · rename_i hneg
        obtain ⟨hidle₁, h₁⟩ := hres.failed hneg
        exact ⟨SlotInv.of_idle hidle₁ h₁, fun _ => hstate⟩
      · rename_i hok
        obtain ⟨hrel, h₁⟩ := hres.done hok
        split
        · obtain ⟨s₂, mem₂, hfree, hcleared, h₂⟩ := Are.qdmaDescqFreeResource h₁ hrel
          rw [hfree]
          exact ⟨SlotInv.of_idle hcleared.idle h₂,
            fun _ => hcleared.sameQueue.qState.trans hstate⟩
        · refine ⟨⟨fun _ => ⟨⟨hrel.desc, hrel.descCmpt, hrel.flq, hrel.flqIdle⟩, h₁⟩,
            fun hne => absurd rfl hne⟩, fun hneg => absurd hneg (lt_irrefl 0)⟩

/-- Every orderly call keeps the memory in order. -/
theorem SlotInv.step (h : SlotInv r f st) (hx : TablesOk x.csrInfo) (e : SlotEvent)
    (ho : SlotOrderly x grant st e) : SlotInv r f (slotStep x grant st e) := by
  cases e with
  | add c e => exact h.add c e
  | config c => exact h.config x c
  | start ctxt => exact (h.start hx ctxt ho).1
  | stop => exact h.stop
  | remove counted => exact h.remove counted

end

/-! ## Runs -/

/-- A start that fails leaves nothing of what it obtained, and the queue added. -/
def StartUndone (x : Xdev) (grant : Grant) (st : SlotState) : Prop :=
  ∀ ctxt, SlotOrderly x grant st (.start ctxt) → st.slot.qState = .enabled →
    (st.slot.start x grant ctxt st.mem).1 < 0 →
    (slotStep x grant st (.start ctxt)).slot.qState = .enabled ∧
      InOrder (slotStep x grant st (.start ctxt)) ∧
      (slotStep x grant st (.start ctxt)).mem.held = 0

/-- After any calls of which every start is orderly, a slot that began empty holds the resources of
the queue online in it and nothing else, nothing was released twice, in another size or under
another address, or used without being held, and a start that fails is undone. -/
theorem slotRun_inOrder {x : Xdev} (hx : TablesOk x.csrInfo) (grant : Grant) {s : Slot}
    (hidle : s.Idle) (es : List SlotEvent)
    (h : Admitted (slotStep x grant) (SlotOrderly x grant) { slot := s } es) :
    InOrder (run (slotStep x grant) { slot := s } es) ∧
      StartUndone x grant (run (slotStep x grant) { slot := s } es) := by
  have hinv : SlotInv 0 0 (run (slotStep x grant) { slot := s } es) :=
    h.invariant (fun _ e hs ho => hs.step hx e ho) (.of_idle hidle ⟨rfl, rfl⟩)
  refine ⟨hinv.inOrder, ?_⟩
  intro ctxt ho hen hneg
  obtain ⟨hstart, hstate⟩ := hinv.start hx ctxt ho
  have henabled := (hstate hneg).trans hen
  refine ⟨henabled, hstart.inOrder, hstart.inOrder.offline ?_⟩
  rw [henabled]
  decide

theorem pollingPf_qmax_lt : 4 < 2 ^ 16 := by decide

/-- A PF that polls, with rings of three descriptors and buffers of a page. -/
def pollingPf : Xdev where
  isVf := false
  attributes := {}
  ipType := .softIp
  drvMode := .poll
  csrInfo := ⟨fun _ => 3, fun _ => 0, fun _ => 0, fun _ => 4096⟩
  dmaDeviceIndex := 0
  funcId := 0
  qmax := 4
  qmax_lt := pollingPf_qmax_lt

/-- A slot that was never used. -/
def newSlot : Slot := { descq := { conf := {} }, qidx := 0 }

/-- A streaming C2H queue. -/
def c2hConf : ClientConf := { conf := { st := true, qType := .c2h }, qidx := 0 }

/-- An H2C queue of which the client fills the descriptors. -/
def bypassConf : ClientConf :=
  { conf := { descBypass := true }, qidx := 0, fpBypassDescFill := true }

/-- A C2H queue is started when no page is left, and again; after it the slot is used for an H2C
queue with a bypass list. -/
def reusedRun : List SlotEvent :=
  [.add c2hConf .configured, .start 0, .start 0, .stop, .remove true,
    .add bypassConf .configured, .start 0, .stop]

theorem reusedRun_inOrder :
    InOrder (run (slotStep pollingPf (· ≠ 2)) { slot := newSlot } reusedRun) ∧
      StartUndone pollingPf (· ≠ 2)
        (run (slotStep pollingPf (· ≠ 2)) { slot := newSlot } reusedRun) := by
  apply slotRun_inOrder
  · exact ⟨by decide, by decide, by decide⟩
  · exact ⟨rfl, rfl, rfl⟩
  · refine ⟨trivial, ?_, ?_, trivial, trivial, trivial, ?_, trivial, trivial⟩
    · exact fun _ _ => ⟨by decide +kernel, by decide +kernel, by decide +kernel⟩
    · exact fun _ _ => ⟨by decide +kernel, by decide +kernel, by decide +kernel⟩
    · exact fun _ _ => ⟨by decide +kernel, by decide +kernel, by decide +kernel⟩

/-- A queue with a bypass list that is configured without it: when it stops again, the list is
released a second time. -/
theorem staleList_not_inOrder : ¬ InOrder (run (slotStep pollingPf fun _ => true)
    { slot := newSlot } [.add bypassConf .configured, .start 0, .stop,
      .config { bypassConf with conf := {} }, .start 0, .stop]) := by
  intro h
  have hfaults := h.faults
  revert hfaults
  decide +kernel

end OnicDriver.Lifecycle
