import OnicDriver.Resource.Partition
import Mathlib.Data.List.Nodup
import Mathlib.Data.List.Pairwise

/-!
# Runs of the resource manager

Every master keeps its queues partitioned between its device entries and its
free list, over any sequence of calls. A hardware queue therefore belongs to
at most one function.
-/

namespace OnicDriver.Resource

open Lib

/-! ## Finding and writing back -/

/-- Writing back replaces the first element that passes the test. -/
theorem writeFirst_append {α : Type*} {p : α → Bool} {s t : List α} {a b : α}
    (hs : ∀ c ∈ s, p c = false) (hb : p b = true) :
    writeFirst p a (s ++ b :: t) = s ++ a :: t := by
  induction s with
  | nil => simp [writeFirst, hb]
  | cons c s ih =>
    have hc := hs c List.mem_cons_self
    simp only [List.cons_append, writeFirst, hc, Bool.false_eq_true, if_false]
    rw [ih fun d hd => hs d (List.mem_cons_of_mem _ hd)]

/-- A written list holds the new element and elements of the old list only. -/
theorem mem_writeFirst {α : Type*} {p : α → Bool} {l : List α} {a b : α}
    (h : b ∈ writeFirst p a l) : b = a ∨ b ∈ l := by
  induction l with
  | nil => exact Or.inr h
  | cons c l ih =>
    unfold writeFirst at h
    split at h
    · exact (List.mem_cons.mp h).imp_right (List.mem_cons_of_mem _)
    · rcases List.mem_cons.mp h with rfl | h
      · exact Or.inr List.mem_cons_self
      · exact (ih h).imp_right (List.mem_cons_of_mem _)

/-- The element written back is the one found afterwards. -/
theorem find?_writeFirst {α : Type*} {p : α → Bool} {l : List α} {a b : α}
    (hb : l.find? p = some b) (ha : p a = true) : (writeFirst p a l).find? p = some a := by
  induction l with
  | nil => simp at hb
  | cons c l ih =>
    unfold writeFirst
    split
    · simp [ha]
    · rename_i hc
      simp only [List.find?_cons, hc] at hb ⊢
      exact ih hb

/-- The device entry of a function splits the device list. -/
theorem ResourceMaster.devEntry_split {m : ResourceMaster} {funcId : ℕ} {d : DevEntry}
    (h : m.devEntry funcId = some d) :
    d.funcId = funcId ∧
      ∃ s t, m.devList = s ++ d :: t ∧ ∀ e ∈ s, decide (e.funcId = funcId) = false := by
  obtain ⟨hd, s, t, hlist, hs⟩ := List.find?_eq_some_iff_append.mp h
  refine ⟨by simpa using hd, s, t, hlist, fun e he => ?_⟩
  simpa using hs e he

/-! ## The invariant of a master -/

/-- The first queue after those of a master. -/
def ResourceMaster.qend (m : ResourceMaster) : ℤ := m.qbase + m.totalQ

/-- The ranges of the device entries of a master. -/
def ResourceMaster.ranges (m : ResourceMaster) : List ResourceEntry :=
  m.devList.map DevEntry.entry

/-- The state of a master between two calls. -/
structure MasterOk (m : ResourceMaster) : Prop where
  base : 0 ≤ m.qbase
  bound : m.qend < 2 ^ 31
  funcs : (m.devList.map DevEntry.funcId).Nodup
  idle : ∀ d ∈ m.devList, d.activeH2cQcnt = 0 ∧ d.activeC2hQcnt = 0 ∧ d.activeCmptQcnt = 0
  freeOk : FreeOk m.qbase m.qend m.freeList
  entries : ∀ d ∈ m.devList, EntryOk m.qbase m.qend d.entry
  tiles : Tiles ResourceEntry.ids (m.freeList ++ m.ranges) (Set.Ico m.qbase m.qend)

section Master

variable {m : ResourceMaster}

/-- A new device entry holds no queues. -/
theorem MasterOk.addDev (h : MasterOk m) {funcId : ℕ} (hnew : m.devEntry funcId = none) :
    MasterOk { m with devList := m.devList ++ [{ funcId := funcId, entry := ⟨-1, 0⟩ }] } := by
  have hfresh : ∀ d ∈ m.devList, d.funcId ≠ funcId := by
    simpa [ResourceMaster.devEntry] using hnew
  refine ⟨h.base, h.bound, ?_, ?_, h.freeOk, ?_, ?_⟩
  · rw [List.map_append]
    refine List.Nodup.append h.funcs (by simp) ?_
    simpa [List.disjoint_singleton] using hfresh
  · intro d hd
    rcases List.mem_append.mp hd with hd | hd
    · exact h.idle d hd
    · rw [List.mem_singleton.mp hd]
      exact ⟨rfl, rfl, rfl⟩
  · intro d hd
    rcases List.mem_append.mp hd with hd | hd
    · exact h.entries d hd
    · rw [List.mem_singleton.mp hd]
      exact Or.inl rfl
  · have hempty := ResourceEntry.ids_eq_empty (e := ⟨-1, 0⟩) rfl
    have hmoved : (⟨-1, 0⟩ :: (m.freeList ++ m.ranges)).Perm
        ((m.freeList ++ m.ranges) ++ [⟨-1, 0⟩]) := (List.perm_append_singleton _ _).symm
    refine ((tiles_cons_of_empty hempty).mpr h.tiles).perm ?_
    simpa [ResourceMaster.ranges] using hmoved

/-- The entry found for a function, next to the free list and the other ranges. -/
theorem MasterOk.requestOk (h : MasterOk m) {d : DevEntry} {s t : List DevEntry}
    (hlist : m.devList = s ++ d :: t) :
    RequestOk m.qbase m.qend ((s ++ t).map DevEntry.entry) (Set.Ico m.qbase m.qend) d.entry
      m.freeList := by
  refine ⟨h.freeOk, h.entries d (by simp [hlist]), h.tiles.perm ?_⟩
  rw [ResourceMaster.ranges, hlist]
  simp only [List.map_append, List.map_cons, ← List.append_assoc]
  exact List.perm_middle

/-- Writing back the range of one function and the free list. -/
theorem MasterOk.setDev (h : MasterOk m) {d : DevEntry} {s t : List DevEntry}
    (hlist : m.devList = s ++ d :: t)
    (hs : ∀ e ∈ s, decide (e.funcId = d.funcId) = false) {entry : ResourceEntry}
    {free : List ResourceEntry}
    (hreq : RequestOk m.qbase m.qend ((s ++ t).map DevEntry.entry) (Set.Ico m.qbase m.qend) entry
      free) :
    MasterOk ({ m with freeList := free }.setDev { d with entry := entry }) := by
  have hwritten : ({ m with freeList := free }.setDev { d with entry := entry }).devList =
      s ++ { d with entry := entry } :: t := by
    rw [ResourceMaster.setDev]
    dsimp only
    rw [hlist]
    exact writeFirst_append hs (by simp)
  refine ⟨h.base, h.bound, ?_, ?_, hreq.freeOk, ?_, ?_⟩
  · have hfuncs := h.funcs
    rw [hlist] at hfuncs
    rw [hwritten]
    simpa using hfuncs
  · intro e he
    rw [hwritten] at he
    rcases List.mem_append.mp he with he | he
    · exact h.idle e (by simp [hlist, he])
    · rcases List.mem_cons.mp he with rfl | he
      · exact h.idle d (by simp [hlist])
      · exact h.idle e (by simp [hlist, he])
  · intro e he
    rw [hwritten] at he
    rcases List.mem_append.mp he with he | he
    · exact h.entries e (by simp [hlist, he])
    · rcases List.mem_cons.mp he with rfl | he
      · exact hreq.entryOk
      · exact h.entries e (by simp [hlist, he])
  · refine hreq.tiles.perm ?_
    rw [ResourceMaster.ranges, hwritten]
    simp only [List.map_append, List.map_cons, ← List.append_assoc, ResourceMaster.setDev]
    exact List.perm_middle.symm

/-- Removing a function whose range went back to the free list. -/
theorem MasterOk.eraseDev (h : MasterOk m) {d : DevEntry} {s t : List DevEntry}
    (hlist : m.devList = s ++ d :: t)
    (hs : ∀ e ∈ s, decide (e.funcId = d.funcId) = false) {free : List ResourceEntry}
    (hfree : FreeOk m.qbase m.qend free)
    (ht : Tiles ResourceEntry.ids (free ++ (s ++ t).map DevEntry.entry)
      (Set.Ico m.qbase m.qend)) :
    MasterOk { m with
      devList := m.devList.eraseP fun e => decide (e.funcId = d.funcId), freeList := free } := by
  have herased : m.devList.eraseP (fun e => decide (e.funcId = d.funcId)) = s ++ t := by
    rw [hlist, List.eraseP_append_right _ fun e he => by simpa using hs e he]
    simp
  rw [herased]
  have hsub : (s ++ t).Sublist m.devList := by
    rw [hlist]
    exact (List.Sublist.refl s).append (List.sublist_cons_self d t)
  exact ⟨h.base, h.bound, (hsub.map _).nodup h.funcs, fun e he => h.idle e (hsub.subset he),
    hfree, fun e he => h.entries e (hsub.subset he), ht⟩

/-- No other function of a master holds a queue of the range of this one. -/
theorem MasterOk.disjoint (h : MasterOk m) {d e : DevEntry} (hd : d ∈ m.devList)
    (he : e ∈ m.devList) (hne : d ≠ e) : Disjoint d.entry.ids e.entry.ids := by
  have hranges := (List.pairwise_append.mp h.tiles.1).2.1
  rw [ResourceMaster.ranges, List.pairwise_map] at hranges
  have : Std.Symm fun a b : DevEntry => Disjoint a.entry.ids b.entry.ids :=
    ⟨fun _ _ hab => hab.symm⟩
  exact hranges.forall hd he hne

end Master

/-! ## Calls of the resource manager -/

/-- A call of the resource manager, with the results of its allocations. -/
inductive ResourceOp
  | masterResourceCreate (busStart busEnd : ℕ) (qBase : ℤ) (totalQ : ℕ) (mem : CallocResults)
  | devEntryCreate (dmaDeviceIndex funcId : ℕ) (mem : CallocResults)
  | devEntryDestroy (dmaDeviceIndex funcId : ℕ) (mem : CallocResults)
  | devUpdate (dmaDeviceIndex funcId qmax : ℕ) (qbase : ℤ) (mem : CallocResults)
  deriving DecidableEq, Repr

/-- The state after a call. -/
def exec (s : ResourceState) : ResourceOp → ResourceState
  | .masterResourceCreate busStart busEnd qBase totalQ mem =>
    (qdmaMasterResourceCreate s busStart busEnd qBase totalQ mem).2.2
  | .devEntryCreate i f mem => (qdmaDevEntryCreate s i f mem).2
  | .devEntryDestroy i f mem => qdmaDevEntryDestroy s i f mem
  | .devUpdate i f qmax qbase mem => (qdmaDevUpdate s i f qmax qbase mem).2.2

/-- What a call can do to the master numbered `i` that it works on. -/
inductive MasterStep (i : ℕ) (m : ResourceMaster) : ResourceOp → ResourceMaster → Prop
  | addDev (f : ℕ) (mem : CallocResults) (hnew : m.devEntry f = none) :
      MasterStep i m (.devEntryCreate i f mem)
        { m with devList := m.devList ++ [{ funcId := f, entry := ⟨-1, 0⟩ }] }
  | eraseDev (d : DevEntry) (mem mem' : CallocResults) (entry : ResourceEntry)
      (free : List ResourceEntry) (hdev : m.devEntry d.funcId = some d)
      (hsubmit : qdmaSubmitToFreeList d.entry m.freeList mem = (entry, free, mem')) :
      MasterStep i m (.devEntryDestroy i d.funcId mem)
        { m with
          devList := m.devList.eraseP fun e => decide (e.funcId = d.funcId), freeList := free }
  | update (d : DevEntry) (qmax : ℕ) (qbase rv : ℤ) (mem mem' : CallocResults)
      (entry : ResourceEntry) (free : List ResourceEntry) (hdev : m.devEntry d.funcId = some d)
      (hreq : qdmaRequestQResource d.entry qmax qbase m.freeList mem = (rv, entry, free, mem')) :
      MasterStep i m (.devUpdate i d.funcId qmax qbase mem)
        ({ m with freeList := free }.setDev { d with entry := entry })

/-- A call adds a master, takes one step of one master, or changes nothing. -/
theorem exec_cases (s : ResourceState) (op : ResourceOp) :
    exec s op = s ∨
      (∃ busStart busEnd qBase totalQ mem,
        op = .masterResourceCreate busStart busEnd qBase totalQ mem ∧
        (exec s op).masterResourceList =
          s.masterResourceList ++ [newMaster s.index busStart busEnd qBase totalQ]) ∨
      ∃ i m m', qdmaGetMasterResourceEntry s i = some m ∧ MasterStep i m op m' ∧
        exec s op = s.setMaster m' := by
  cases op with
  | masterResourceCreate busStart busEnd qBase totalQ mem =>
    simp only [exec, qdmaMasterResourceCreate]
    split
    · exact Or.inl rfl
    · split
      · exact Or.inl rfl
      · split
        · exact Or.inl rfl
        · exact Or.inr (Or.inl ⟨_, _, _, _, _, rfl, rfl⟩)
  | devEntryCreate i f mem =>
    simp only [exec, qdmaDevEntryCreate]
    split
    · exact Or.inl rfl
    · rename_i m hget
      split
      · exact Or.inl rfl
      · rename_i hnew
        split
        · exact Or.inl rfl
        · exact Or.inr (Or.inr ⟨i, m, _, hget, MasterStep.addDev f mem hnew, rfl⟩)
  | devEntryDestroy i f mem =>
    simp only [exec, qdmaDevEntryDestroy]
    split
    · exact Or.inl rfl
    · rename_i m hget
      split
      · exact Or.inl rfl
      · rename_i d hdev
        obtain ⟨rfl, -⟩ := ResourceMaster.devEntry_split hdev
        exact Or.inr (Or.inr ⟨i, m, _, hget, MasterStep.eraseDev d mem _ _ _ hdev rfl, rfl⟩)
  | devUpdate i f qmax qbase mem =>
    simp only [exec, qdmaDevUpdate]
    split
    · exact Or.inl rfl
    · rename_i m hget
      split
      · exact Or.inl rfl
      · rename_i d hdev
        split
        · exact Or.inl rfl
        · obtain ⟨rfl, -⟩ := ResourceMaster.devEntry_split hdev
          exact Or.inr (Or.inr ⟨i, m, _, hget,
            MasterStep.update d qmax qbase _ mem _ _ _ hdev rfl, rfl⟩)

/-- A property of masters that new masters have and steps keep is kept by every call. -/
theorem exec_preserves {P : ResourceMaster → Prop} {s : ResourceState} {op : ResourceOp}
    (hcreate : ∀ i busStart busEnd qBase totalQ mem,
      op = .masterResourceCreate busStart busEnd qBase totalQ mem →
        P (newMaster i busStart busEnd qBase totalQ))
    (hstep : ∀ i m m', qdmaGetMasterResourceEntry s i = some m → P m → MasterStep i m op m' →
      P m')
    (h : ∀ m ∈ s.masterResourceList, P m) : ∀ m ∈ (exec s op).masterResourceList, P m := by
  rcases exec_cases s op with heq | ⟨busStart, busEnd, qBase, totalQ, mem, hop, hlist⟩ |
    ⟨i, m, m', hget, hmm, heq⟩
  · rwa [heq]
  · intro m hm
    rw [hlist] at hm
    rcases List.mem_append.mp hm with hm | hm
    · exact h m hm
    · rw [List.mem_singleton.mp hm]
      exact hcreate _ _ _ _ _ _ hop
  · intro n hn
    rw [heq] at hn
    rcases mem_writeFirst hn with rfl | hn
    · exact hstep i m n hget (h m (List.mem_of_find?_eq_some hget)) hmm
    · exact h n hn

/-- Allocations succeed, the queues of a master are numbered below `2 ^ 31`, and the end
of the range an update asks for does not wrap. A negative base asks for any range. -/
def ResourceOp.InRange : ResourceOp → Prop
  | .masterResourceCreate _ _ qBase totalQ mem =>
    mem = [] ∧ 0 ≤ qBase ∧ qBase + totalQ < 2 ^ 31
  | .devEntryCreate _ _ mem => mem = []
  | .devEntryDestroy _ _ mem => mem = []
  | .devUpdate _ _ qmax qbase mem => mem = [] ∧ (0 ≤ qbase → qbase + qmax < 2 ^ 32)

/-- A master just created has all its queues in one free range. -/
theorem masterOk_newMaster {i busStart busEnd totalQ : ℕ} {qBase : ℤ} (hbase : 0 ≤ qBase)
    (hbound : qBase + totalQ < 2 ^ 31) : MasterOk (newMaster i busStart busEnd qBase totalQ) := by
  unfold newMaster
  refine ⟨hbase, hbound, List.nodup_nil, by simp, ⟨List.pairwise_singleton _ _, ?_, ?_⟩,
    by simp, List.pairwise_singleton _ _, ?_⟩
  · simp [Inside, ResourceEntry.qend, ResourceMaster.qend]
  · intro hlt e he
    simp only [ResourceMaster.qend] at hlt
    simp only [List.mem_singleton.mp he]
    omega
  · simp [ResourceMaster.ranges, ResourceEntry.ids, interval, ResourceEntry.qend,
      ResourceMaster.qend]

/-- Every step of a master keeps its partition. -/
theorem MasterStep.masterOk {i : ℕ} {m m' : ResourceMaster} {op : ResourceOp}
    (h : MasterStep i m op m') (hm : MasterOk m) (hop : op.InRange) : MasterOk m' := by
  cases h with
  | addDev f mem hnew => exact hm.addDev hnew
  | eraseDev d mem mem' entry free hdev hsubmit =>
    obtain rfl : mem = [] := hop
    obtain ⟨-, l, r, hlist, hl⟩ := ResourceMaster.devEntry_split hdev
    have hreq := hm.requestOk hlist
    obtain ⟨entry₁, free₁, heq, hfree, -, -, ht, -, -⟩ :=
      qdmaSubmitToFreeList_spec hm.base hm.bound hreq.freeOk hreq.entryOk hreq.tiles
    cases hsubmit.symm.trans heq
    exact hm.eraseDev hlist hl hfree ht
  | update d qmax qbase rv mem mem' entry free hdev hreq =>
    obtain ⟨rfl, hwrap⟩ := hop
    obtain ⟨-, l, r, hlist, hl⟩ := ResourceMaster.devEntry_split hdev
    obtain ⟨rv₁, entry₁, free₁, heq, hok⟩ :=
      qdmaRequestQResource_requestOk hm.base hm.bound (hm.requestOk hlist) hwrap
    cases hreq.symm.trans heq
    exact hm.setDev hlist hl hok

/-- Every master is in order. -/
def StateOk (s : ResourceState) : Prop := ∀ m ∈ s.masterResourceList, MasterOk m

/-- Every call keeps the partition. -/
theorem exec_stateOk {s : ResourceState} {op : ResourceOp} (h : StateOk s) (hop : op.InRange) :
    StateOk (exec s op) := by
  refine exec_preserves ?_ (fun i m m' _ hm hstep => hstep.masterOk hm hop) h
  rintro i busStart busEnd qBase totalQ mem rfl
  exact masterOk_newMaster hop.2.1 hop.2.2

/-- The partition holds after any run. -/
theorem run_stateOk {ops : List ResourceOp} (hops : ∀ op ∈ ops, op.InRange) :
    StateOk (run exec {} ops) := by
  have hinit : StateOk {} := by simp [StateOk]
  exact (admitted_of_forall hops _).invariant (fun _ _ h hop => exec_stateOk h hop) hinit

/-! ## Ownership -/

/-- The range test of a device entry is membership in its range. -/
theorem DevEntry.isQueueInRange_iff {lo hi : ℤ} (hlo : 0 ≤ lo) (hhi : hi < 2 ^ 31) {d : DevEntry}
    (hd : EntryOk lo hi d.entry) {qidHw : ℕ} :
    d.isQueueInRange qidHw = true ↔ (qidHw : ℤ) ∈ d.entry.ids := by
  by_cases hzero : d.entry.totalQ = 0
  · simp [DevEntry.isQueueInRange, ResourceEntry.ids_eq_empty hzero, hzero]
  · have hin := hd.inside (Nat.pos_of_ne_zero hzero)
    simp only [Inside, ResourceEntry.qend] at hin
    have hend := u32_of_lt (x := d.entry.qbase + d.entry.totalQ) (by omega) (by omega)
    simp only [DevEntry.isQueueInRange, Bool.and_eq_true, decide_eq_true_eq, interval,
      Set.mem_Ico, ResourceEntry.qend]
    constructor
    · rintro ⟨⟨-, hlt⟩, hge⟩
      rw [s32_of_lt (by omega) (by omega)] at hge
      omega
    · rintro ⟨hge, hlt⟩
      rw [s32_of_lt (by omega) (by omega)]
      omega

/-- A queue in range for a function lies in the range of its device entry. -/
theorem qdmaDevIsQueueInRange_inRange {s : ResourceState} {i f qidHw : ℕ} {m : ResourceMaster}
    (hok : MasterOk m) (hm : qdmaGetMasterResourceEntry s i = some m)
    (h : qdmaDevIsQueueInRange s i f qidHw = .inRange) :
    ∃ d ∈ m.devList, d.funcId = f ∧ (qidHw : ℤ) ∈ d.entry.ids := by
  unfold qdmaDevIsQueueInRange qdmaGetDevEntry at h
  rw [hm, Option.bind_some] at h
  cases hdev : m.devEntry f with
  | none => simp [hdev] at h
  | some d =>
    rw [hdev] at h
    dsimp only at h
    have hmem : d ∈ m.devList := List.mem_of_find?_eq_some hdev
    refine ⟨d, hmem, (ResourceMaster.devEntry_split hdev).1, ?_⟩
    refine (DevEntry.isQueueInRange_iff hok.base hok.bound (hok.entries d hmem)).mp ?_
    by_contra hout
    simp [hout] at h

/-- After any run, the nonempty ranges of the functions of a master and its free ranges
are pairwise disjoint and make up its queues, the free list is sorted, and a queue is in
range for at most one function. -/
theorem queue_range_partition (ops : List ResourceOp) (hops : ∀ op ∈ ops, op.InRange) (i : ℕ)
    (m : ResourceMaster) (hm : qdmaGetMasterResourceEntry (run exec {} ops) i = some m) :
    Tiles ResourceEntry.ids (m.freeList ++ m.ranges.filter fun e => decide (e.totalQ ≠ 0))
        (Set.Ico m.qbase (m.qbase + m.totalQ)) ∧
      m.freeList.Pairwise (fun a b => a.qbase ≤ b.qbase) ∧
      ∀ f g qidHw, qdmaDevIsQueueInRange (run exec {} ops) i f qidHw = .inRange →
        qdmaDevIsQueueInRange (run exec {} ops) i g qidHw = .inRange → f = g := by
  have hok := run_stateOk hops m (List.mem_of_find?_eq_some hm)
  refine ⟨hok.tiles.filter ?_, ?_, ?_⟩
  · intro e _ he
    exact ResourceEntry.ids_eq_empty (by simpa using he)
  · refine hok.freeOk.ascending.imp fun {a b} hab => ?_
    simp only [ResourceEntry.qend] at hab
    omega
  · intro f g qidHw hf hg
    obtain ⟨d, hd, hfd, hqd⟩ := qdmaDevIsQueueInRange_inRange hok hm hf
    obtain ⟨e, he, hge, hqe⟩ := qdmaDevIsQueueInRange_inRange hok hm hg
    by_contra hne
    have hde : d ≠ e := by
      rintro rfl
      exact hne (hfd.symm.trans hge)
    exact Set.disjoint_left.mp (hok.disjoint hd he hde) hqd hqe

/-- The partition after two functions took four and three of eight queues. -/
theorem queue_range_partition_two_functions :
    Tiles ResourceEntry.ids ([⟨7, 1⟩] ++ [⟨0, 4⟩, ⟨4, 3⟩]) (Set.Ico 0 (0 + 8)) ∧
      [(⟨7, 1⟩ : ResourceEntry)].Pairwise (fun a b => a.qbase ≤ b.qbase) ∧
      ∀ f g qidHw,
        qdmaDevIsQueueInRange (run exec {} [.masterResourceCreate 0 0 0 8 [],
          .devEntryCreate 0 0 [], .devEntryCreate 0 1 [], .devUpdate 0 0 4 (-1) [],
          .devUpdate 0 1 3 (-1) []]) 0 f qidHw = .inRange →
        qdmaDevIsQueueInRange (run exec {} [.masterResourceCreate 0 0 0 8 [],
          .devEntryCreate 0 0 [], .devEntryCreate 0 1 [], .devUpdate 0 0 4 (-1) [],
          .devUpdate 0 1 3 (-1) []]) 0 g qidHw = .inRange → f = g :=
  queue_range_partition _ (by simp [ResourceOp.InRange]) 0
    { dmaDeviceIndex := 0, pciBusStart := 0, pciBusEnd := 0, totalQ := 8, qbase := 0
      devList := [{ funcId := 0, entry := ⟨0, 4⟩ }, { funcId := 1, entry := ⟨4, 3⟩ }]
      freeList := [⟨7, 1⟩] } rfl

end OnicDriver.Resource
