import OnicDriver.Lib.Runs
import OnicDriver.Resource.Active
import OnicDriver.Resource.Masters

/-!
# Accounting of active queues

A master counts the active queues of all its functions once more. The two
counts are kept by different calls, which agree as long as queues are given up
one by one before their function is.
-/

namespace OnicDriver.Resource

open Lib

/-- The active queues of a function. -/
def DevEntry.active (d : DevEntry) : ℕ := d.activeH2cQcnt + d.activeC2hQcnt + d.activeCmptQcnt

/-- The active queues of all functions of a master. -/
def activeSum (l : List DevEntry) : ℕ := (l.map DevEntry.active).sum

/-- A master counts what its functions count, and no function counts more queues of a type than
it has. -/
structure Accounted (m : ResourceMaster) : Prop where
  fits : m.activeQcnt < 2 ^ 32
  total : m.activeQcnt = activeSum m.devList
  bound : ∀ d ∈ m.devList, ∀ t, d.activeQcnt t ≤ d.entry.totalQ

/-- A call that concerns the functions of one master. -/
inductive AccountOp
  | devEntryCreate (funcId : ℕ) (mem : CallocResults)
  | devUpdate (funcId qmax : ℕ) (qbase : ℤ) (mem : CallocResults)
  | incrementActiveQueue (funcId : ℕ) (qType : Option DevQType)
  | decrementActiveQueue (funcId : ℕ) (qType : Option DevQType)
  | devEntryDestroy (funcId : ℕ) (mem : CallocResults)
  deriving DecidableEq, Repr

/-- The state after a call on master `i`. -/
def account (i : ℕ) (s : ResourceState) : AccountOp → ResourceState
  | .devEntryCreate f mem => (qdmaDevEntryCreate s i f mem).2
  | .devUpdate f qmax qbase mem => (qdmaDevUpdate s i f qmax qbase mem).2.2
  | .incrementActiveQueue f t => (qdmaDevIncrementActiveQueue s i f t).2
  | .decrementActiveQueue f t => (qdmaDevDecrementActiveQueue s i f t).2
  | .devEntryDestroy f mem => qdmaDevEntryDestroy s i f mem

/-- Master `i`, where it exists, is accounted for. -/
def AccountedAt (i : ℕ) (s : ResourceState) : Prop :=
  ∀ m, qdmaGetMasterResourceEntry s i = some m → Accounted m

/-- The calls that keep the counts together: the count of the master is not at its largest value
when a queue becomes active, a queue that is given up is active and of a known type, and a
function that is destroyed has no active queue. -/
def AccountSafe (i : ℕ) (s : ResourceState) : AccountOp → Prop
  | .incrementActiveQueue _ _ =>
    ∀ m, qdmaGetMasterResourceEntry s i = some m → m.activeQcnt + 1 < 2 ^ 32
  | .decrementActiveQueue f qType =>
    ∀ d, qdmaGetDevEntry s i f = some d → ∃ t, qType = some t ∧ d.activeQcnt t ≠ 0
  | .devEntryDestroy f _ => ∀ d, qdmaGetDevEntry s i f = some d → d.active = 0
  | _ => True

/-! ## One entry -/

variable {m : ResourceMaster} {d d' : DevEntry} {l r : List DevEntry} {n : ℕ} {t : DevQType}

theorem activeSum_split : activeSum (l ++ d :: r) = d.active + activeSum (l ++ r) := by
  simp only [activeSum, List.map_append, List.map_cons, List.sum_append, List.sum_cons]
  omega

theorem activeQcnt_le_active (d : DevEntry) (t : DevQType) : d.activeQcnt t ≤ d.active := by
  unfold DevEntry.active
  cases t <;> simp only [DevEntry.activeQcnt] <;> omega

theorem setActiveQcnt_active : (d.setActiveQcnt n t).active + d.activeQcnt t = d.active + n := by
  cases t <;> simp only [DevEntry.active, DevEntry.setActiveQcnt, DevEntry.activeQcnt] <;> omega

/-- Writing back the entry of a function. -/
theorem ResourceMaster.setDev_devList (hlist : m.devList = l ++ d :: r)
    (hl : ∀ e ∈ l, decide (e.funcId = d.funcId) = false) (hd : d'.funcId = d.funcId) :
    (m.setDev d').devList = l ++ d' :: r := by
  show writeFirst _ d' m.devList = _
  rw [hlist, hd]
  exact writeFirst_append hl (by simp)

/-- A new count of a function within its range, if the count of the master changes as much. -/
theorem Accounted.setActive (h : Accounted m) (hlist : m.devList = l ++ d :: r)
    (hl : ∀ e ∈ l, decide (e.funcId = d.funcId) = false) (hn : n ≤ d.entry.totalQ) {total : ℕ}
    (hfits : total < 2 ^ 32) (htotal : total + d.activeQcnt t = m.activeQcnt + n) :
    Accounted ({ m with activeQcnt := total }.setDev (d.setActiveQcnt n t)) := by
  have hdevs : ({ m with activeQcnt := total }.setDev (d.setActiveQcnt n t)).devList =
      l ++ d.setActiveQcnt n t :: r :=
    ResourceMaster.setDev_devList hlist hl setActiveQcnt_funcId
  refine ⟨hfits, ?_, ?_⟩
  · have hold := h.total
    have hactive : (d.setActiveQcnt n t).active + d.activeQcnt t = d.active + n :=
      setActiveQcnt_active
    rw [hlist, activeSum_split] at hold
    rw [hdevs, activeSum_split]
    show total = _
    omega
  · intro e he t'
    rw [hdevs] at he
    rcases List.mem_append.mp he with he | he
    · exact h.bound e (by simp [hlist, he]) t'
    · rcases List.mem_cons.mp he with rfl | he
      · rw [setActiveQcnt_entry]
        by_cases ht : t' = t
        · rw [ht, setActiveQcnt_activeQcnt]
          exact hn
        · rw [setActiveQcnt_activeQcnt_of_ne ht]
          exact h.bound d (by simp [hlist]) t'
      · exact h.bound e (by simp [hlist, he]) t'

/-- A new function has no active queue. -/
theorem Accounted.addDev (h : Accounted m) {f : ℕ} :
    Accounted { m with devList := m.devList ++ [{ funcId := f, entry := ⟨-1, 0⟩ }] } := by
  refine ⟨h.fits, ?_, ?_⟩
  · rw [activeSum_split]
    simpa [DevEntry.active] using h.total
  · intro e he t
    rcases List.mem_append.mp he with he | he
    · exact h.bound e he t
    · rw [List.mem_singleton.mp he]
      cases t <;> exact le_rfl

/-- A new range of a function without active queues. -/
theorem Accounted.setEntry (h : Accounted m) (hlist : m.devList = l ++ d :: r)
    (hl : ∀ e ∈ l, decide (e.funcId = d.funcId) = false) (hidle : ∀ t, d.activeQcnt t = 0)
    (entry : ResourceEntry) (free : List ResourceEntry) :
    Accounted ({ m with freeList := free }.setDev { d with entry := entry }) := by
  have hdevs : ({ m with freeList := free }.setDev { d with entry := entry }).devList =
      l ++ { d with entry := entry } :: r := ResourceMaster.setDev_devList hlist hl rfl
  refine ⟨h.fits, ?_, ?_⟩
  · have hold := h.total
    rw [hlist, activeSum_split] at hold
    rw [hdevs, activeSum_split]
    exact hold
  · intro e he t
    rw [hdevs] at he
    rcases List.mem_append.mp he with he | he
    · exact h.bound e (by simp [hlist, he]) t
    · rcases List.mem_cons.mp he with rfl | he
      · exact (hidle t).trans_le (Nat.zero_le _)
      · exact h.bound e (by simp [hlist, he]) t

/-- A function without active queues is destroyed. -/
theorem Accounted.eraseDev (h : Accounted m) (hlist : m.devList = l ++ d :: r)
    (hl : ∀ e ∈ l, decide (e.funcId = d.funcId) = false) (hidle : d.active = 0)
    (free : List ResourceEntry) :
    Accounted { m with
      devList := m.devList.eraseP fun e => decide (e.funcId = d.funcId), freeList := free } := by
  have herased : m.devList.eraseP (fun e => decide (e.funcId = d.funcId)) = l ++ r := by
    rw [hlist, List.eraseP_append_right _ fun e he => by simpa using hl e he]
    simp
  refine ⟨h.fits, ?_, ?_⟩
  · have hold := h.total
    rw [hlist, activeSum_split] at hold
    show m.activeQcnt = activeSum (m.devList.eraseP _)
    rw [herased]
    omega
  · intro e he t
    rw [herased] at he
    rcases List.mem_append.mp he with he | he
    · exact h.bound e (by simp [hlist, he]) t
    · exact h.bound e (by simp [hlist, he]) t

/-! ## Calls -/

variable {s : ResourceState} {i f : ℕ}

/-- Writing back the master that was found. -/
theorem AccountedAt.setMaster {m' : ResourceMaster}
    (hm : qdmaGetMasterResourceEntry s i = some m) (hindex : m'.dmaDeviceIndex = m.dmaDeviceIndex)
    (h : Accounted m') : AccountedAt i (s.setMaster m') := by
  intro found hfound
  have hi : m.dmaDeviceIndex = i := by simpa using List.find?_some hm
  have hkey : m'.dmaDeviceIndex = i := hindex.trans hi
  have hwritten : qdmaGetMasterResourceEntry (s.setMaster m') i = some m' := by
    unfold qdmaGetMasterResourceEntry ResourceState.setMaster
    dsimp only
    rw [hkey]
    exact find?_writeFirst hm (by simpa using hkey)
  rw [hwritten] at hfound
  cases hfound
  exact h

theorem AccountedAt.devEntryCreate (h : AccountedAt i s) (f : ℕ) (mem : CallocResults) :
    AccountedAt i (qdmaDevEntryCreate s i f mem).2 := by
  unfold qdmaDevEntryCreate
  cases hm : qdmaGetMasterResourceEntry s i with
  | none => exact h
  | some m =>
    dsimp only
    cases m.devEntry f with
    | some d => exact h
    | none =>
      dsimp only
      rcases qdmaCalloc mem with ⟨ok, mem'⟩
      cases ok with
      | false => exact h
      | true =>
        exact AccountedAt.setMaster hm rfl (h m hm).addDev

theorem AccountedAt.devUpdate (h : AccountedAt i s) (f qmax : ℕ) (qbase : ℤ)
    (mem : CallocResults) : AccountedAt i (qdmaDevUpdate s i f qmax qbase mem).2.2 := by
  unfold qdmaDevUpdate
  cases hm : qdmaGetMasterResourceEntry s i with
  | none => exact h
  | some m =>
    dsimp only
    cases hdev : m.devEntry f with
    | none => exact h
    | some d =>
      dsimp only
      by_cases hactive : d.activeH2cQcnt ≠ 0 ∨ d.activeC2hQcnt ≠ 0 ∨ d.activeCmptQcnt ≠ 0
      · rw [if_pos hactive]
        exact h
      · rw [if_neg hactive]
        have hmaster := h m hm
        obtain ⟨rfl, l, r, hlist, hl⟩ := ResourceMaster.devEntry_split hdev
        have hzero : ∀ t, d.activeQcnt t = 0 := by
          intro t
          cases t <;> simp only [DevEntry.activeQcnt] <;> omega
        exact AccountedAt.setMaster hm rfl (hmaster.setEntry hlist hl hzero _ _)

theorem AccountedAt.incrementActiveQueue (h : AccountedAt i s) {qType : Option DevQType}
    (hsafe : AccountSafe i s (.incrementActiveQueue f qType)) :
    AccountedAt i (qdmaDevIncrementActiveQueue s i f qType).2 := by
  unfold qdmaDevIncrementActiveQueue
  cases hm : qdmaGetMasterResourceEntry s i with
  | none => exact h
  | some m =>
    dsimp only
    cases hdev : m.devEntry f with
    | none => exact h
    | some d =>
      cases qType with
      | none => exact h
      | some t =>
        have hmaster := h m hm
        have hwrap : m.activeQcnt + 1 < 2 ^ 32 := hsafe m hm
        obtain ⟨rfl, l, r, hlist, hl⟩ := ResourceMaster.devEntry_split hdev
        have hle : d.activeQcnt t ≤ m.activeQcnt := by
          have hcount := activeQcnt_le_active d t
          have htotal := hmaster.total
          rw [hlist, activeSum_split] at htotal
          omega
        have hnext : u32 ((d.activeQcnt t : ℤ) + 1) = d.activeQcnt t + 1 := by
          unfold u32
          omega
        have htotal : u32 ((m.activeQcnt : ℤ) + 1) = m.activeQcnt + 1 := by
          unfold u32
          omega
        dsimp only
        rw [hnext, htotal]
        split
        · exact h
        · rename_i hroom
          have htotal : m.activeQcnt + 1 + d.activeQcnt t =
              m.activeQcnt + (d.activeQcnt t + 1) := by omega
          exact AccountedAt.setMaster hm rfl
            (hmaster.setActive hlist hl (not_lt.mp hroom) hwrap htotal)

theorem AccountedAt.decrementActiveQueue (h : AccountedAt i s) {qType : Option DevQType}
    (hsafe : AccountSafe i s (.decrementActiveQueue f qType)) :
    AccountedAt i (qdmaDevDecrementActiveQueue s i f qType).2 := by
  unfold qdmaDevDecrementActiveQueue
  cases hm : qdmaGetMasterResourceEntry s i with
  | none => exact h
  | some m =>
    dsimp only
    cases hdev : m.devEntry f with
    | none => exact h
    | some d =>
      have hfound : qdmaGetDevEntry s i f = some d := by
        rw [qdmaGetDevEntry, hm]
        exact hdev
      obtain ⟨t, rfl, hpos⟩ := hsafe d hfound
      have hmaster := h m hm
      obtain ⟨rfl, l, r, hlist, hl⟩ := ResourceMaster.devEntry_split hdev
      have hle : d.activeQcnt t ≤ m.activeQcnt := by
        have hcount := activeQcnt_le_active d t
        have htotal := hmaster.total
        rw [hlist, activeSum_split] at htotal
        omega
      have hdown : u32 ((m.activeQcnt : ℤ) - 1) + d.activeQcnt t =
          m.activeQcnt + (d.activeQcnt t - 1) := by
        have hfits := hmaster.fits
        unfold u32
        omega
      have hbound : d.activeQcnt t ≤ d.entry.totalQ := hmaster.bound d (by simp [hlist]) t
      dsimp only
      rw [if_pos hpos]
      exact AccountedAt.setMaster hm rfl
        (hmaster.setActive hlist hl ((Nat.sub_le _ _).trans hbound) (u32_lt _) hdown)

theorem AccountedAt.devEntryDestroy (h : AccountedAt i s) {mem : CallocResults}
    (hsafe : AccountSafe i s (.devEntryDestroy f mem)) :
    AccountedAt i (qdmaDevEntryDestroy s i f mem) := by
  unfold qdmaDevEntryDestroy
  cases hm : qdmaGetMasterResourceEntry s i with
  | none => exact h
  | some m =>
    dsimp only
    cases hdev : m.devEntry f with
    | none => exact h
    | some d =>
      have hfound : qdmaGetDevEntry s i f = some d := by
        rw [qdmaGetDevEntry, hm]
        exact hdev
      have hidle : d.active = 0 := hsafe d hfound
      obtain ⟨rfl, l, r, hlist, hl⟩ := ResourceMaster.devEntry_split hdev
      exact AccountedAt.setMaster hm rfl ((h m hm).eraseDev hlist hl hidle _)

/-! ## The other masters -/

/-- Writing back a master leaves the others. -/
theorem getMaster_setMaster_of_ne {m' : ResourceMaster} {j : ℕ} (h : m'.dmaDeviceIndex ≠ j) :
    qdmaGetMasterResourceEntry (s.setMaster m') j = qdmaGetMasterResourceEntry s j := by
  unfold qdmaGetMasterResourceEntry ResourceState.setMaster
  dsimp only
  induction s.masterResourceList with
  | nil => rfl
  | cons n l ih =>
    unfold writeFirst
    by_cases hn : n.dmaDeviceIndex = m'.dmaDeviceIndex
    · have hother : n.dmaDeviceIndex ≠ j := hn.trans_ne h
      simp [hn, h]
    · rw [if_neg (by simpa using hn), List.find?_cons, List.find?_cons, ih]

/-- A call is for one master. -/
theorem account_cases (i : ℕ) (s : ResourceState) (op : AccountOp) :
    account i s op = s ∨
      ∃ m, account i s op = s.setMaster m ∧ m.dmaDeviceIndex = i := by
  cases hm : qdmaGetMasterResourceEntry s i with
  | none =>
    left
    cases op <;> simp only [account, qdmaDevEntryCreate, qdmaDevUpdate,
      qdmaDevIncrementActiveQueue, qdmaDevDecrementActiveQueue, qdmaDevEntryDestroy, hm]
  | some m =>
    have hi : m.dmaDeviceIndex = i := by simpa using List.find?_some hm
    cases op with
    | devEntryCreate f mem =>
      simp only [account, qdmaDevEntryCreate, hm]
      split
      · exact .inl rfl
      · split
        · exact .inl rfl
        · exact .inr ⟨_, rfl, hi⟩
    | devUpdate f qmax qbase mem =>
      simp only [account, qdmaDevUpdate, hm]
      split
      · exact .inl rfl
      · split
        · exact .inl rfl
        · exact .inr ⟨_, rfl, hi⟩
    | incrementActiveQueue f qType =>
      simp only [account, qdmaDevIncrementActiveQueue, hm]
      split
      · exact .inl rfl
      · split
        · exact .inl rfl
        · split
          · exact .inl rfl
          · exact .inr ⟨_, rfl, hi⟩
    | decrementActiveQueue f qType =>
      simp only [account, qdmaDevDecrementActiveQueue, hm]
      split
      · exact .inl rfl
      · split
        · exact .inr ⟨_, rfl, hi⟩
        · exact .inr ⟨_, rfl, hi⟩
    | devEntryDestroy f mem =>
      simp only [account, qdmaDevEntryDestroy, hm]
      split
      · exact .inl rfl
      · exact .inr ⟨_, rfl, hi⟩

/-- The other masters after a call. -/
theorem account_other {j : ℕ} (hj : j ≠ i) (s : ResourceState) (op : AccountOp) :
    qdmaGetMasterResourceEntry (account i s op) j = qdmaGetMasterResourceEntry s j := by
  rcases account_cases i s op with heq | ⟨m, heq, hi⟩
  · rw [heq]
  · rw [heq]
    apply getMaster_setMaster_of_ne
    omega

/-! ## Runs -/

/-- A safe call keeps the counts together. -/
theorem AccountedAt.account (h : AccountedAt i s) (op : AccountOp) (hsafe : AccountSafe i s op) :
    AccountedAt i (account i s op) := by
  cases op with
  | devEntryCreate f mem => exact h.devEntryCreate f mem
  | devUpdate f qmax qbase mem => exact h.devUpdate f qmax qbase mem
  | incrementActiveQueue f qType => exact h.incrementActiveQueue hsafe
  | decrementActiveQueue f qType => exact h.decrementActiveQueue hsafe
  | devEntryDestroy f mem => exact h.devEntryDestroy hsafe

/-- All masters are accounted for. -/
def AccountedAll (s : ResourceState) : Prop := ∀ i, AccountedAt i s

theorem AccountedAll.account (h : AccountedAll s) (i : ℕ) (op : AccountOp)
    (hsafe : AccountSafe i s op) : AccountedAll (account i s op) := by
  intro j
  by_cases hj : j = i
  · subst hj
    exact (h j).account op hsafe
  · intro m hm
    rw [account_other hj] at hm
    exact h j m hm

theorem accounted_newMaster (i busStart busEnd : ℕ) (qBase : ℤ) (totalQ : ℕ) :
    Accounted (newMaster i busStart busEnd qBase totalQ) where
  fits := Nat.two_pow_pos 32
  total := rfl
  bound _ hd := nomatch hd

/-- After any run of safe calls on a new master its count is that of its functions, and no
function counts more queues than it has. -/
theorem run_accounted {i busStart busEnd : ℕ} {qBase : ℤ} {totalQ : ℕ} {s : ResourceState}
    (hnew : qdmaGetMasterResourceEntry s i = some (newMaster i busStart busEnd qBase totalQ))
    (ops : List AccountOp) (h : Admitted (account i) (AccountSafe i) s ops) :
    AccountedAt i (run (account i) s ops) := by
  have hstart : AccountedAt i s := by
    intro m hm
    rw [hnew] at hm
    cases hm
    exact accounted_newMaster i busStart busEnd qBase totalQ
  exact h.invariant (fun _ op hs hop => hs.account op hop) hstart

/-- A function gets eight queues, of which one becomes active and is given up. -/
def balancedRun : List AccountOp :=
  [.devEntryCreate 5 [], .devUpdate 5 8 0 [], .incrementActiveQueue 5 (some .c2h),
    .incrementActiveQueue 5 (some .cmpt), .decrementActiveQueue 5 (some .c2h)]

/-- The state in which there is one new master. -/
def oneMaster : ResourceState := { masterResourceList := [newMaster 0 0 0 0 64], index := 1 }

theorem balancedRun_accounted : AccountedAt 0 (run (account 0) oneMaster balancedRun) := by
  refine run_accounted rfl balancedRun ⟨trivial, trivial, ?_, ?_, ?_, trivial⟩
  · intro m hm
    cases hm
    decide
  · intro m hm
    cases hm
    decide
  · intro d hd
    cases hd
    exact ⟨.c2h, rfl, by decide⟩

/-- A queue that is given up twice leaves the count of the master below zero. -/
theorem unmatched_not_accounted : ¬ AccountedAt 0 (run (account 0) oneMaster
    [.devEntryCreate 5 [], .devUpdate 5 8 0 [], .decrementActiveQueue 5 (some .c2h)]) := by
  intro h
  have hfits := (h _ rfl).total
  revert hfits
  decide

end OnicDriver.Resource
