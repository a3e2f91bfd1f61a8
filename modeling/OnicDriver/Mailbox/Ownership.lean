import OnicDriver.Lib.Runs
import OnicDriver.Mailbox.Handler
import OnicDriver.Resource.Faults

/-!
# Queue ownership under mailbox messages

The queues of a function stay its own over any sequence of messages and calls
of the resource manager, as long as no request passes the range test of the
allocator by a wrapped end of its range.
-/

namespace OnicDriver.Mailbox

open Lib Access Resource

/-- A call of the resource manager by the PF, or a message that it handles. -/
inductive MboxEvent
  | call (op : ResourceOp)
  | message (env : HwEnv) (dmaDeviceIndex funcId : ℕ) (m : MboxMem) (mem : CallocResults)
      (log : HwLog)

/-- The resource manager after an event. -/
def handleEvent (s : ResourceState) : MboxEvent → ResourceState
  | .call op => exec s op
  | .message env i f m mem log => (qdmaMboxPfRcvMsgHandler env i f m s mem log).state

/-- Every function has queues of its master only, and none that another function has. -/
def OwnershipOk (s : ResourceState) : Prop :=
  ∀ m ∈ s.masterResourceList, ∀ d ∈ m.devList,
    d.entry.ids ⊆ Set.Ico m.qbase (m.qbase + m.totalQ) ∧
      ∀ e ∈ m.devList, d.funcId ≠ e.funcId → Disjoint d.entry.ids e.entry.ids

/-- A function without active queues asks for a range whose end does not wrap, or no range
that is free once its own is given back passes the test. -/
def UpdateSafe (s : ResourceState) (dmaDeviceIndex funcId qmax : ℕ) (qbase : ℤ)
    (mem : CallocResults) : Prop :=
  ∀ m, qdmaGetMasterResourceEntry s dmaDeviceIndex = some m →
    ∀ d, m.devEntry funcId = some d →
      (d.activeH2cQcnt = 0 ∧ d.activeC2hQcnt = 0 ∧ d.activeCmptQcnt = 0) →
        RequestSafe qmax qbase (qdmaSubmitToFreeList d.entry m.freeList mem).2.1

/-- The queues of a new master are numbered below `2 ^ 31`, and updates are safe. -/
def CallSafe (s : ResourceState) : ResourceOp → Prop
  | .masterResourceCreate _ _ qBase totalQ _ => 0 ≤ qBase ∧ qBase + totalQ < 2 ^ 31
  | .devUpdate i f qmax qbase mem => UpdateSafe s i f qmax qbase mem
  | _ => True

/-- Calls are safe, and so are the updates that messages ask for. -/
def EventSafe (s : ResourceState) : MboxEvent → Prop
  | .call op => CallSafe s op
  | .message _ i _ m mem _ =>
    MboxOp.fromByte m.op = some .qreq → UpdateSafe s i m.srcFuncId m.fmapQmax m.fmapQbase mem

/-! ## One step -/

/-- Every master of the state keeps its ranges apart. -/
def Owned (s : ResourceState) : Prop := ∀ m ∈ s.masterResourceList, OwnedOk m

variable {s : ResourceState}

/-- Writing back one master in order. -/
theorem Owned.setMaster (h : Owned s) {m : ResourceMaster} (hm : OwnedOk m) :
    Owned (s.setMaster m) := by
  intro n hn
  rcases mem_writeFirst hn with rfl | hn
  · exact hm
  · exact h n hn

theorem Owned.master (h : Owned s) {i : ℕ} {m : ResourceMaster}
    (hm : qdmaGetMasterResourceEntry s i = some m) : OwnedOk m :=
  h m (List.mem_of_find?_eq_some hm)

/-- `qdma_dev_entry_create`. -/
theorem Owned.devEntryCreate (h : Owned s) (i f : ℕ) (mem : CallocResults) :
    Owned (qdmaDevEntryCreate s i f mem).2 := by
  unfold qdmaDevEntryCreate
  cases hm : qdmaGetMasterResourceEntry s i with
  | none => exact h
  | some m =>
    dsimp only
    cases hdev : m.devEntry f with
    | some d => exact h
    | none =>
      dsimp only
      rcases qdmaCalloc mem with ⟨ok, mem'⟩
      cases ok with
      | false => exact h
      | true => exact h.setMaster ((h.master hm).addDev hdev)

/-- `qdma_dev_entry_destroy`. -/
theorem Owned.devEntryDestroy (h : Owned s) (i f : ℕ) (mem : CallocResults) :
    Owned (qdmaDevEntryDestroy s i f mem) := by
  unfold qdmaDevEntryDestroy
  cases hm : qdmaGetMasterResourceEntry s i with
  | none => exact h
  | some m =>
    dsimp only
    cases hdev : m.devEntry f with
    | none => exact h
    | some d =>
      dsimp only
      have hmaster := h.master hm
      obtain ⟨rfl, l, r, hlist, hl⟩ := ResourceMaster.devEntry_split hdev
      have hheld := hmaster.held hlist
      obtain ⟨entry, free, mem', hsubmit, hfree, hentry, hapart⟩ :=
        qdmaSubmitToFreeList_cases hmaster.base hmaster.bound hheld.freeOk hheld.entryOk
          hheld.apart mem
      rw [hsubmit]
      exact h.setMaster (hmaster.eraseDev hlist hl ⟨hfree, hentry, hapart⟩)

/-- `qdma_dev_update` on a safe request. -/
theorem Owned.devUpdate (h : Owned s) {i f qmax : ℕ} {qbase : ℤ} {mem : CallocResults}
    (hsafe : UpdateSafe s i f qmax qbase mem) :
    Owned (qdmaDevUpdate s i f qmax qbase mem).2.2 := by
  unfold qdmaDevUpdate
  cases hm : qdmaGetMasterResourceEntry s i with
  | none => exact h
  | some m =>
    dsimp only
    cases hdev : m.devEntry f with
    | none => exact h
    | some d =>
      dsimp only
      by_cases hactive : d.activeH2cQcnt ≠ 0 ∨ d.activeC2hQcnt ≠ 0 ∨ d.activeCmptQcnt ≠ 0
      · rw [if_pos hactive]
        exact h
      · rw [if_neg hactive]
        have hmaster := h.master hm
        have hrequest := hsafe m hm d hdev (by simpa using hactive)
        obtain ⟨-, l, r, hlist, hl⟩ := ResourceMaster.devEntry_split hdev
        obtain ⟨rfl, -⟩ := ResourceMaster.devEntry_split hdev
        obtain ⟨rv, entry, free, mem', heq, hheld⟩ :=
          qdmaRequestQResource_held hmaster.base hmaster.bound (hmaster.held hlist) mem hrequest
        rw [heq]
        exact h.setMaster
          (hmaster.setDev (e := { d with entry := entry }) hlist hl rfl m.activeQcnt hheld)

/-- `qdma_dev_increment_active_queue`. -/
theorem Owned.incrementActiveQueue (h : Owned s) (i f : ℕ) (qType : Option DevQType) :
    Owned (qdmaDevIncrementActiveQueue s i f qType).2 := by
  unfold qdmaDevIncrementActiveQueue
  cases hm : qdmaGetMasterResourceEntry s i with
  | none => exact h
  | some m =>
    dsimp only
    cases hdev : m.devEntry f with
    | none => exact h
    | some d =>
      cases qType with
      | none => exact h
      | some t =>
        dsimp only
        split
        · exact h
        · exact h.setMaster ((h.master hm).setActive hdev setActiveQcnt_funcId
            setActiveQcnt_entry _)

/-- `qdma_dev_decrement_active_queue`. -/
theorem Owned.decrementActiveQueue (h : Owned s) (i f : ℕ) (qType : Option DevQType) :
    Owned (qdmaDevDecrementActiveQueue s i f qType).2 := by
  unfold qdmaDevDecrementActiveQueue
  cases hm : qdmaGetMasterResourceEntry s i with
  | none => exact h
  | some m =>
    have hmaster := h.master hm
    dsimp only
    cases hdev : m.devEntry f with
    | none => exact h
    | some d =>
      cases qType with
      | none =>
        exact h.setMaster ⟨hmaster.base, hmaster.bound, hmaster.funcs, hmaster.freeOk,
          hmaster.entries, hmaster.apart⟩
      | some t =>
        refine h.setMaster (hmaster.setActive hdev ?_ ?_ _)
        · split
          · exact setActiveQcnt_funcId
          · rfl
        · split
          · exact setActiveQcnt_entry
          · rfl

/-- A safe call of the resource manager keeps the ranges of all masters apart. -/
theorem Owned.exec (h : Owned s) {op : ResourceOp} (hsafe : CallSafe s op) :
    Owned (exec s op) := by
  cases op with
  | masterResourceCreate busStart busEnd qBase totalQ mem =>
    rcases exec_cases s (.masterResourceCreate busStart busEnd qBase totalQ mem) with
      heq | ⟨_, _, _, _, _, hop, hlist⟩ | ⟨_, _, _, _, hstep, _⟩
    · rwa [heq]
    · cases hop
      intro m hm
      rw [hlist] at hm
      rcases List.mem_append.mp hm with hm | hm
      · exact h m hm
      · rw [List.mem_singleton.mp hm]
        exact ownedOk_newMaster hsafe.1 hsafe.2
    · cases hstep
  | devEntryCreate i f mem => exact h.devEntryCreate i f mem
  | devEntryDestroy i f mem => exact h.devEntryDestroy i f mem
  | devUpdate i f qmax qbase mem => exact h.devUpdate hsafe

/-! ## The handler -/

section Handler

variable {env : HwEnv} {i f : ℕ} {m : MboxMem} {mem : CallocResults} {log : HwLog}

theorem handleFmap_state : (handleFmap env f m s log).state = s := by
  unfold handleFmap
  dsimp only [perform]
  split <;> rfl

theorem handleCsr_state : (handleCsr env f m s log).state = s := by
  unfold handleCsr
  dsimp only [perform]
  split
  · rfl
  · split <;> rfl

theorem handleRegListRead_state : (handleRegListRead env f m s log).state = s := by
  unfold handleRegListRead
  dsimp only [perform]
  split <;> rfl

theorem handleHello_state :
    (handleHello env i f m s mem log).state = s ∨
      (handleHello env i f m s mem log).state = (qdmaDevEntryCreate s i m.srcFuncId mem).2 := by
  unfold handleHello
  rcases qdmaDevQinfoGet s i m.srcFuncId with ⟨rv, none | ⟨qbase, qmax⟩⟩
  · exact Or.inr rfl
  · exact Or.inl rfl

theorem handleQreq_state :
    (handleQreq env i f m s mem log).state =
      (qdmaDevUpdate s i m.srcFuncId m.fmapQmax m.fmapQbase mem).2.2 := by
  unfold handleQreq
  dsimp only
  split
  · split <;> rfl
  · split <;> rfl

theorem handleQnotify_state {update : ResourceState → ℕ → ℕ → Option DevQType → ℤ × ResourceState} :
    (handleQnotify i f update m s log).state = s ∨
      (handleQnotify i f update m s log).state =
        (update s i m.srcFuncId (DevQType.fromWord m.qType)).2 := by
  unfold handleQnotify
  split
  · exact Or.inl rfl
  · exact Or.inr rfl

/-- Handling a message keeps the ranges of all masters apart. -/
theorem Owned.handler (h : Owned s)
    (hsafe : MboxOp.fromByte m.op = some .qreq →
      UpdateSafe s i m.srcFuncId m.fmapQmax m.fmapQbase mem) :
    Owned (qdmaMboxPfRcvMsgHandler env i f m s mem log).state := by
  unfold qdmaMboxPfRcvMsgHandler
  cases hop : MboxOp.fromByte m.op with
  | none => exact h
  | some op =>
    cases op with
    | vfBye | pfResetVfBye => exact h.devEntryDestroy i m.srcFuncId mem
    | hello =>
      dsimp only
      rcases handleHello_state (s := s) with hstate | hstate
      · rwa [hstate]
      · rw [hstate]
        exact h.devEntryCreate i m.srcFuncId mem
    | qreq =>
      dsimp only
      rw [handleQreq_state]
      exact h.devUpdate (hsafe hop)
    | qnotifyAdd =>
      dsimp only
      rcases handleQnotify_state (s := s) with hstate | hstate
      · rwa [hstate]
      · rw [hstate]
        exact h.incrementActiveQueue i m.srcFuncId _
    | qnotifyDel =>
      dsimp only
      rcases handleQnotify_state (s := s) with hstate | hstate
      · rwa [hstate]
      · rw [hstate]
        exact h.decrementActiveQueue i m.srcFuncId _
    | fmap =>
      dsimp only
      rwa [handleFmap_state]
    | csr =>
      dsimp only
      rwa [handleCsr_state]
    | regListRead =>
      dsimp only
      rwa [handleRegListRead_state]
    | getQactiveCnt | qctxtWrt | qctxtRd | qctxtClr | qctxtInv | intrCtxtWrt | intrCtxtRd
    | intrCtxtClr | intrCtxtInv | resetPrepare | resetDone | pfBye => exact h

end Handler

/-! ## Runs -/

/-- A safe event keeps the ranges of all masters apart. -/
theorem Owned.handleEvent (h : Owned s) {e : MboxEvent} (hsafe : EventSafe s e) :
    Owned (handleEvent s e) := by
  cases e with
  | call op => exact h.exec hsafe
  | message env i f m mem log => exact h.handler hsafe

/-- Ranges kept apart are ranges owned. -/
theorem Owned.ownershipOk (h : Owned s) : OwnershipOk s := by
  intro m hm d hd
  refine ⟨(h m hm).subset hd, fun e he hne => (h m hm).disjoint hd he ?_⟩
  rintro rfl
  exact hne rfl

/-- After every run whose updates are safe, functions own disjoint queues of their master. -/
theorem mailbox_ownership (events : List MboxEvent)
    (hsafe : Admitted handleEvent EventSafe {} events) :
    OwnershipOk (run handleEvent {} events) := by
  have hinit : Owned {} := by simp [Owned]
  exact (hsafe.invariant (fun _ _ h he => h.handleEvent he) hinit).ownershipOk

/-- A function with two of eight queues that says hello, and then asks for four from base 2. -/
theorem mailbox_ownership_four :
    OwnershipOk (run handleEvent {} [.call (.masterResourceCreate 0 0 0 8 []),
      .message HwEnv.zero 0 0 (MboxMem.ofWords [1 + 2 ^ 16]) [] [],
      .message HwEnv.zero 0 0 (MboxMem.ofWords [4 + 2 ^ 16, 0, 2, 4]) [] []]) := by
  refine mailbox_ownership _ ⟨⟨by decide, by decide⟩, fun hop => ?_, fun _ m _ d _ _ _ => ?_,
    trivial⟩
  · cases (show MboxOp.fromByte (MboxMem.ofWords [1 + 2 ^ 16]).op = some .hello by
      decide +kernel).symm.trans hop
  · exact Or.inl (by decide +kernel)

/-- A function asks for `2 ^ 32 - 3` queues from base 5 on and gets them: the end of the range
wraps to 2, which lies before the end of the free range. -/
theorem qreq_wrap_granted :
    ¬ OwnershipOk (run handleEvent {} [.call (.masterResourceCreate 0 0 0 8 []),
      .message HwEnv.zero 0 0 (MboxMem.ofWords [1 + 2 ^ 16]) [] [],
      .message HwEnv.zero 0 0 (MboxMem.ofWords [4 + 2 ^ 16, 0, 5, 2 ^ 32 - 3]) [] []]) := by
  have hrun : run handleEvent {} [.call (.masterResourceCreate 0 0 0 8 []),
      .message HwEnv.zero 0 0 (MboxMem.ofWords [1 + 2 ^ 16]) [] [],
      .message HwEnv.zero 0 0 (MboxMem.ofWords [4 + 2 ^ 16, 0, 5, 2 ^ 32 - 3]) [] []] =
      { masterResourceList :=
          [{ dmaDeviceIndex := 0, pciBusStart := 0, pciBusEnd := 0, totalQ := 8, qbase := 0
             devList := [{ funcId := 1, entry := ⟨5, 2 ^ 32 - 3⟩ }]
             freeList := [⟨0, 5⟩, ⟨2, 6⟩] }]
        index := 1 } := by
    decide +kernel
  rw [hrun]
  intro howned
  obtain ⟨hsub, -⟩ := howned _ List.mem_cons_self _ List.mem_cons_self
  have hlast : (8 : ℤ) ∈ Set.Ico (0 : ℤ) (0 + (8 : ℕ)) :=
    hsub (by simp [ResourceEntry.ids, ResourceEntry.qend, interval])
  simp at hlast

end OnicDriver.Mailbox
