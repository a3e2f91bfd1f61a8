import OnicDriver.Kernel
import OnicDriver.Lib.Runs
import OnicDriver.Mailbox.Reply

/-!
# The table of online VFs

The PF keeps a slot for each VF that said hello and counts the VFs that are
online. While it resets its VFs the slots keep their functions, so that the
end of the reset can be announced to them, and only the count goes down.
-/

namespace OnicDriver.Sriov

open Lib Mailbox

/-- The `func_id` of a slot that no function has. -/
def QDMA_FUNC_ID_INVALID : ℕ := 0xFFFF

/-- A slot of `vf_info`. -/
structure QdmaVfInfo where
  funcId : ℕ
  qbase : ℕ
  qmax : ℕ
  deriving DecidableEq, Repr

/-- The states of a reset that the PF itself enters. -/
inductive ResetState
  | idle
  | pfWaitForByes
  deriving DecidableEq, Repr

/-- What the PF knows of its VFs. -/
structure VfTable where
  vfInfo : List QdmaVfInfo
  vfCountOnline : ℕ
  resetState : ResetState
  deriving DecidableEq, Repr

/-- `vf_count`: the slots of the table. -/
def VfTable.vfCount (t : VfTable) : ℕ := t.vfInfo.length

/-- The table that `xdev_sriov_enable` makes of the memory it gets. -/
def xdevSriovEnable (raw : List QdmaVfInfo) : VfTable :=
  { vfInfo := raw.map fun vf => { vf with funcId := QDMA_FUNC_ID_INVALID }
    vfCountOnline := 0
    resetState := .idle }

/-- The first free slot is taken by a function. -/
def takeFreeSlot (funcId : ℕ) : List QdmaVfInfo → Option (List QdmaVfInfo)
  | [] => none
  | vf :: vfs =>
    if vf.funcId = QDMA_FUNC_ID_INVALID then some ({ vf with funcId := funcId } :: vfs)
    else (takeFreeSlot funcId vfs).map (vf :: ·)

/-- `xdev_sriov_vf_online`. -/
def xdevSriovVfOnline (t : VfTable) (funcId : ℕ) : ℤ × VfTable :=
  let t := { t with vfCountOnline := (t.vfCountOnline + 1) % 2 ^ 8 }
  if t.resetState = .idle then
    match takeFreeSlot funcId t.vfInfo with
    | some vfInfo => (0, { t with vfInfo })
    | none => (-EINVAL, t)
  else (0, t)

/-- `vf_count_online--`, on 8 bits. -/
def VfTable.countDown (t : VfTable) : VfTable :=
  { t with vfCountOnline := (t.vfCountOnline + 2 ^ 8 - 1) % 2 ^ 8 }

/-- What `xdev_sriov_vf_offline` does to a slot of the function. -/
def releaseSlot (resetState : ResetState) (vf : QdmaVfInfo) : QdmaVfInfo :=
  { funcId := if resetState = .idle then QDMA_FUNC_ID_INVALID else vf.funcId
    qbase := 0
    qmax := 0 }

/-- `xdev_sriov_vf_offline`. -/
def xdevSriovVfOffline (t : VfTable) (funcId : ℕ) : VfTable :=
  { t.countDown with
    vfInfo := t.vfInfo.map fun vf =>
      if vf.funcId = funcId then releaseSlot t.resetState vf else vf }

/-- A pass of the loop of `qdma_pf_trigger_vf_reset`, which waits for the `i`-th VF. -/
structure ResetPass where
  snapshot : ℕ
  i : ℕ
  deriving DecidableEq, Repr

/-- The PF with the loop that resets the VFs, and what happened so far: the functions that are
online, those that said goodbye during a reset and kept their slot, the goodbyes that a reset did
not see in time, and the slots it read. -/
structure PfState where
  table : VfTable
  pass : Option ResetPass
  online : List ℕ
  kept : List ℕ
  missed : ℕ
  indexed : List ℕ
  deriving DecidableEq, Repr

/-- The PF when its VFs are enabled. -/
def PfState.init (raw : List QdmaVfInfo) : PfState :=
  { table := xdevSriovEnable raw, pass := none, online := [], kept := [], missed := 0,
    indexed := [] }

/-- The head of the loop of `qdma_pf_trigger_vf_reset`: the `i`-th slot is read and its function
told to reset, unless no message can be allocated, or the loop is over. -/
def resetLoop (s : PfState) (snapshot i : ℕ) (alloc : Bool) : PfState :=
  if i < snapshot then
    { s with
      indexed := i :: s.indexed
      pass := if alloc then some { snapshot, i } else none }
  else { s with pass := none, table := { s.table with resetState := .idle } }

/-- What the PF sees. A goodbye may come at any time, also before the reset waits for it. -/
inductive PfEvent
  | rcv (event : VfEvent)
  | resetStart (alloc : Bool)
  | resetWaited (alloc : Bool)
  deriving DecidableEq, Repr

/-- The table after a hello, where the function comes online. -/
def rcvOnline (s : PfState) (f : ℕ) : PfState :=
  { s with
    table := (xdevSriovVfOnline s.table f).2
    online := f :: s.online
    kept := s.kept.erase f }

/-- The table after a goodbye, where the function goes offline. -/
def rcvOffline (s : PfState) (f : ℕ) : PfState :=
  { s with
    table := xdevSriovVfOffline s.table f
    online := s.online.erase f
    kept := if s.table.resetState = .idle then s.kept.erase f else f :: s.kept }

/-- The end of a wait of the reset: a goodbye that did not come is counted nevertheless. -/
def resetWaited (s : PfState) (p : ResetPass) (alloc : Bool) : PfState :=
  let s :=
    if (s.table.vfCountOnline : ℤ) ≠ (p.snapshot : ℤ) - p.i - 1 then
      { s with
        table := s.table.countDown
        missed := s.missed + 1 }
    else s
  resetLoop s p.snapshot (p.i + 1) alloc

/-- A step of the PF, where a function number has 8 bits. A reset begins only when no other one is
under way. -/
def step (s : PfState) : PfEvent → PfState
  | .rcv (.online f) => rcvOnline s (f % 2 ^ 8)
  | .rcv (.offline f) => rcvOffline s (f % 2 ^ 8)
  | .resetStart alloc =>
    if s.table.vfCount = 0 ∨ s.pass.isSome then s
    else
      resetLoop { s with table := { s.table with resetState := .pfWaitForByes } }
        s.table.vfCountOnline 0 alloc
  | .resetWaited alloc =>
    match s.pass with
    | some p => resetWaited s p alloc
    | none => s

/-! ## The slots in use -/

/-- The functions that have a slot. -/
def occupied (vfInfo : List QdmaVfInfo) : List ℕ :=
  (vfInfo.map QdmaVfInfo.funcId).filter (· ≠ QDMA_FUNC_ID_INVALID)

theorem mem_occupied {l : List QdmaVfInfo} {f : ℕ} :
    f ∈ occupied l ↔ f ≠ QDMA_FUNC_ID_INVALID ∧ ∃ vf ∈ l, vf.funcId = f := by
  unfold occupied
  rw [List.mem_filter, List.mem_map, and_comm]
  simp

theorem occupied_cons (vf : QdmaVfInfo) (l : List QdmaVfInfo) :
    occupied (vf :: l) =
      if vf.funcId = QDMA_FUNC_ID_INVALID then occupied l else vf.funcId :: occupied l := by
  unfold occupied
  rw [List.map_cons, List.filter_cons]
  split <;> simp_all

theorem occupied_length_le (l : List QdmaVfInfo) : (occupied l).length ≤ l.length := by
  unfold occupied
  apply (List.length_filter_le _ _).trans
  rw [List.length_map]

theorem occupied_xdevSriovEnable (raw : List QdmaVfInfo) :
    occupied (xdevSriovEnable raw).vfInfo = [] := by
  induction raw with
  | nil => rfl
  | cons vf raw ih => exact (occupied_cons _ _).trans ((if_pos rfl).trans ih)

/-- A free slot that is taken is in use, and no other slot changes its function. -/
theorem takeFreeSlot_spec {f : ℕ} {l l' : List QdmaVfInfo} (hf : f ≠ QDMA_FUNC_ID_INVALID)
    (h : takeFreeSlot f l = some l') :
    l'.length = l.length ∧ (occupied l').Perm (f :: occupied l) := by
  induction l generalizing l' with
  | nil => cases h
  | cons vf l ih =>
    unfold takeFreeSlot at h
    split at h
    · rename_i hfree
      cases h
      rw [occupied_cons, occupied_cons, if_pos hfree, if_neg hf]
      exact ⟨rfl, .refl _⟩
    · rename_i hused
      obtain ⟨l₁, hl₁, rfl⟩ := Option.map_eq_some_iff.mp h
      obtain ⟨hlength, hperm⟩ := ih hl₁
      rw [occupied_cons, occupied_cons, if_neg hused, if_neg hused]
      exact ⟨congrArg (· + 1) hlength, (hperm.cons _).trans (.swap _ _ _)⟩

/-- A slot is found where fewer slots are in use than there are. -/
theorem takeFreeSlot_isSome {f : ℕ} {l : List QdmaVfInfo} (h : (occupied l).length < l.length) :
    ∃ l', takeFreeSlot f l = some l' := by
  induction l with
  | nil => exact absurd h (Nat.not_lt_zero _)
  | cons vf l ih =>
    unfold takeFreeSlot
    split
    · exact ⟨_, rfl⟩
    · rename_i hused
      rw [occupied_cons, if_neg hused, List.length_cons, List.length_cons] at h
      obtain ⟨l', hl'⟩ := ih (Nat.lt_of_succ_lt_succ h)
      exact ⟨vf :: l', by rw [hl']; rfl⟩

/-- Outside a reset the slots of a function that goes offline are freed. -/
theorem occupied_release_idle (f : ℕ) (l : List QdmaVfInfo) :
    occupied (l.map fun vf => if vf.funcId = f then releaseSlot .idle vf else vf) =
      (occupied l).filter (· != f) := by
  induction l with
  | nil => rfl
  | cons vf l ih =>
    rw [List.map_cons, occupied_cons, occupied_cons, ih]
    by_cases hfunc : vf.funcId = f
    · rw [if_pos hfunc, if_pos (by rfl)]
      split
      · rfl
      · rw [List.filter_cons_of_neg (by simpa using hfunc)]
    · rw [if_neg hfunc]
      split
      · rfl
      · rw [List.filter_cons_of_pos (by simpa using hfunc)]

/-- During a reset every function keeps its slots. -/
theorem occupied_release_reset (f : ℕ) (l : List QdmaVfInfo) :
    occupied (l.map fun vf => if vf.funcId = f then releaseSlot .pfWaitForByes vf else vf) =
      occupied l := by
  unfold occupied
  rw [List.map_map]
  congr 2
  funext vf
  unfold releaseSlot Function.comp
  dsimp only
  split <;> rfl

/-! ## What the table says about the VFs -/

/-- What holds of the table and the VFs if the count does not see a function that keeps its slot
after its goodbye, and counts as gone a function whose goodbye did not come in time. -/
structure TableOk (s : PfState) : Prop where
  count : s.table.vfCountOnline + s.kept.length + s.missed = (occupied s.table.vfInfo).length
  once : (occupied s.table.vfInfo).Nodup
  found : ∀ f ∈ s.online, ∃ vf ∈ s.table.vfInfo, vf.funcId = f
  indexed : ∀ i ∈ s.indexed, i < s.table.vfCount

/-- A hello of a function that can be answered as it was meant: of a new function for which there
is a slot, or during a reset of one that kept its slot. The count has 8 bits. -/
def HelloOrderly (s : PfState) (f : ℕ) : Prop :=
  s.table.vfCountOnline + 1 < 2 ^ 8 ∧
    if s.table.resetState = .idle then
      f ∉ occupied s.table.vfInfo ∧ (occupied s.table.vfInfo).length < s.table.vfCount
    else f ∈ s.kept

instance (s : PfState) (f : ℕ) : Decidable (HelloOrderly s f) := inferInstanceAs (Decidable (_ ∧ _))

/-- The events that keep the table together: hellos as they were meant, a goodbye for a hello while
somebody is online, and no goodbye before its time in a reset. -/
def Orderly (s : PfState) : PfEvent → Prop
  | .rcv (.online f) => HelloOrderly s (f % 2 ^ 8)
  | .rcv (.offline f) => f % 2 ^ 8 ∈ s.online ∧ s.table.vfCountOnline ≠ 0
  | .resetStart _ => True
  | .resetWaited _ => ∀ p ∈ s.pass, p.snapshot ≤ s.table.vfCountOnline + p.i + 1

instance (s : PfState) : (e : PfEvent) → Decidable (Orderly s e)
  | .rcv (.online f) => inferInstanceAs (Decidable (HelloOrderly s (f % 2 ^ 8)))
  | .rcv (.offline _) => inferInstanceAs (Decidable (_ ∧ _))
  | .resetStart _ => inferInstanceAs (Decidable True)
  | .resetWaited _ =>
    inferInstanceAs (Decidable (∀ p ∈ s.pass, p.snapshot ≤ s.table.vfCountOnline + p.i + 1))

/-- The invariant of orderly runs: the slots are those of the functions online and of those that
kept theirs, and the loop of a reset stays within the table. -/
structure Tracked (s : PfState) : Prop where
  slots : (occupied s.table.vfInfo).Perm (s.online ++ s.kept)
  once : (s.online ++ s.kept).Nodup
  count : s.table.vfCountOnline + s.missed = s.online.length
  fits : s.table.vfCountOnline < 2 ^ 8
  pass : ∀ p, s.pass = some p → p.i < p.snapshot ∧ p.snapshot ≤ s.table.vfCount
  indexed : ∀ i ∈ s.indexed, i < s.table.vfCount

section

variable {s : PfState}

theorem pfWaitForByes_ne_idle : ResetState.pfWaitForByes ≠ .idle := by decide

theorem Tracked.tableOk (h : Tracked s) : TableOk s where
  count := by
    rw [h.slots.length_eq, List.length_append, ← h.count]
    omega
  once := h.slots.nodup_iff.mpr h.once
  found f hf := (mem_occupied.mp (h.slots.mem_iff.mpr (List.mem_append_left _ hf))).2
  indexed := h.indexed

theorem Tracked.init (raw : List QdmaVfInfo) : Tracked (.init raw) where
  slots := by
    rw [PfState.init, occupied_xdevSriovEnable]
    exact .refl _
  once := .nil
  count := rfl
  fits := Nat.two_pow_pos 8
  pass _ hp := nomatch hp
  indexed _ hi := nomatch hi

/-- No more functions are counted than there are slots. -/
theorem Tracked.count_le (h : Tracked s) : s.table.vfCountOnline ≤ s.table.vfCount := by
  have hlength := h.slots.length_eq
  have hslots := occupied_length_le s.table.vfInfo
  rw [List.length_append, ← h.count] at hlength
  unfold VfTable.vfCount
  omega

theorem Tracked.ne_invalid (h : Tracked s) {f : ℕ} (hf : f ∈ s.online ++ s.kept) :
    f ≠ QDMA_FUNC_ID_INVALID :=
  (mem_occupied.mp (h.slots.mem_iff.mpr hf)).1

theorem Tracked.rcvOnline (h : Tracked s) {f : ℕ} (hf : f < 2 ^ 8) (ho : HelloOrderly s f) :
    Tracked (rcvOnline s f) := by
  obtain ⟨hfits, hslot⟩ := ho
  have hcount : (s.table.vfCountOnline + 1) % 2 ^ 8 = s.table.vfCountOnline + 1 :=
    Nat.mod_eq_of_lt hfits
  have hmissed := h.count
  have hinvalid : f ≠ QDMA_FUNC_ID_INVALID := by
    unfold QDMA_FUNC_ID_INVALID
    omega
  unfold Sriov.rcvOnline xdevSriovVfOnline
  rw [hcount]
  cases hstate : s.table.resetState with
  | idle =>
    obtain ⟨hnew, hfree⟩ := (if_pos hstate).mp hslot
    obtain ⟨l', hl'⟩ := takeFreeSlot_isSome (f := f) hfree
    obtain ⟨hlength, hperm⟩ := takeFreeSlot_spec hinvalid hl'
    have hnone : f ∉ s.online ++ s.kept := fun hmem => hnew (h.slots.mem_iff.mpr hmem)
    have hkept : s.kept.erase f = s.kept :=
      List.erase_of_not_mem fun hmem => hnone (List.mem_append_right _ hmem)
    rw [if_pos rfl, hl', hkept]
    refine ⟨hperm.trans (h.slots.cons f), h.once.cons hnone, ?_, hfits, ?_, ?_⟩
    · rw [List.length_cons, ← hmissed]
      dsimp only
      omega
    · intro p hp
      unfold VfTable.vfCount
      rw [hlength]
      exact h.pass p hp
    · intro i hi
      unfold VfTable.vfCount
      rw [hlength]
      exact h.indexed i hi
  | pfWaitForByes =>
    replace hslot : f ∈ s.kept := by
      rwa [hstate, if_neg pfWaitForByes_ne_idle] at hslot
    dsimp only
    rw [if_neg pfWaitForByes_ne_idle]
    have hperm : (s.online ++ s.kept).Perm (f :: s.online ++ s.kept.erase f) :=
      ((List.perm_cons_erase hslot).append_left _).trans List.perm_middle
    refine ⟨h.slots.trans hperm, hperm.nodup_iff.mp h.once, ?_, hfits, h.pass, h.indexed⟩
    rw [List.length_cons, ← hmissed]
    dsimp only
    omega

theorem Tracked.rcvOffline (h : Tracked s) {f : ℕ} (hf : f ∈ s.online)
    (hne : s.table.vfCountOnline ≠ 0) : Tracked (rcvOffline s f) := by
  have hmissed := h.count
  have hfits := h.fits
  have hdown : (s.table.vfCountOnline + 2 ^ 8 - 1) % 2 ^ 8 = s.table.vfCountOnline - 1 := by omega
  have hlength : (s.online.erase f).length = s.online.length - 1 := List.length_erase_of_mem hf
  have hpos : 0 < s.online.length := List.length_pos_of_mem hf
  have hcount : s.table.vfCountOnline - 1 + s.missed = (s.online.erase f).length := by omega
  have hkept : f ∉ s.kept := fun hmem => List.disjoint_of_nodup_append h.once hf hmem
  unfold Sriov.rcvOffline xdevSriovVfOffline VfTable.countDown
  rw [hdown]
  cases hstate : s.table.resetState with
  | idle =>
    have herase : (s.online ++ s.kept).erase f = s.online.erase f ++ s.kept :=
      List.erase_append_left _ hf
    rw [if_pos rfl, List.erase_of_not_mem hkept]
    refine ⟨?_, herase ▸ h.once.erase f, hcount, by dsimp only; omega, ?_, ?_⟩
    · dsimp only
      rw [occupied_release_idle, ← (h.slots.nodup_iff.mpr h.once).erase_eq_filter, ← herase]
      exact h.slots.erase f
    · intro p hp
      unfold VfTable.vfCount
      rw [List.length_map]
      exact h.pass p hp
    · intro i hi
      unfold VfTable.vfCount
      rw [List.length_map]
      exact h.indexed i hi
  | pfWaitForByes =>
    have hperm : (s.online ++ s.kept).Perm (s.online.erase f ++ f :: s.kept) :=
      ((List.perm_cons_erase hf).append_right _).trans List.perm_middle.symm
    rw [if_neg pfWaitForByes_ne_idle]
    refine ⟨?_, hperm.nodup_iff.mp h.once, hcount, by dsimp only; omega, ?_, ?_⟩
    · dsimp only
      rw [occupied_release_reset]
      exact h.slots.trans hperm
    · intro p hp
      unfold VfTable.vfCount
      rw [List.length_map]
      exact h.pass p hp
    · intro i hi
      unfold VfTable.vfCount
      rw [List.length_map]
      exact h.indexed i hi

theorem Tracked.resetLoop (h : Tracked s) {snapshot i : ℕ} (hle : snapshot ≤ s.table.vfCount)
    (alloc : Bool) : Tracked (resetLoop s snapshot i alloc) := by
  unfold Sriov.resetLoop
  split
  · rename_i hlt
    refine ⟨h.slots, h.once, h.count, h.fits, ?_, ?_⟩
    · intro p hp
      dsimp only at hp
      split at hp
      · cases hp
        exact ⟨hlt, hle⟩
      · cases hp
    · intro j hj
      rcases List.mem_cons.mp hj with rfl | hj
      · exact hlt.trans_le hle
      · exact h.indexed j hj
  · exact ⟨h.slots, h.once, h.count, h.fits, fun _ hp => (nomatch hp), h.indexed⟩

theorem Tracked.resetWaited (h : Tracked s) {p : ResetPass} (hp : s.pass = some p)
    (hseen : p.snapshot ≤ s.table.vfCountOnline + p.i + 1) (alloc : Bool) :
    Tracked (resetWaited s p alloc) := by
  obtain ⟨hi, hle⟩ := h.pass p hp
  unfold Sriov.resetWaited
  dsimp only
  split
  · rename_i hne
    have hmissed := h.count
    have hfits := h.fits
    have hcounted : Tracked { s with table := s.table.countDown, missed := s.missed + 1 } := by
      refine ⟨h.slots, h.once, ?_, Nat.mod_lt _ (Nat.two_pow_pos 8), h.pass, h.indexed⟩
      unfold VfTable.countDown
      dsimp only
      omega
    exact hcounted.resetLoop hle alloc
  · exact h.resetLoop hle alloc

/-- An orderly event keeps the table together. -/
theorem Tracked.step (h : Tracked s) (e : PfEvent) (ho : Orderly s e) : Tracked (step s e) := by
  cases e with
  | rcv event =>
    cases event with
    | online f => exact h.rcvOnline (Nat.mod_lt _ (Nat.two_pow_pos 8)) ho
    | offline f => exact h.rcvOffline ho.1 ho.2
  | resetStart alloc =>
    unfold Sriov.step
    dsimp only
    split
    · exact h
    · have hwait : Tracked { s with table := { s.table with resetState := .pfWaitForByes } } :=
        ⟨h.slots, h.once, h.count, h.fits, h.pass, h.indexed⟩
      exact hwait.resetLoop h.count_le alloc
  | resetWaited alloc =>
    unfold Sriov.step
    dsimp only
    split
    · rename_i p hp
      exact h.resetWaited hp (ho p hp) alloc
    · exact h

end

/-! ## Runs -/

/-- After any orderly run the slots in use are those counted as online, those kept after a goodbye
and those whose goodbye was given up; no function has two slots, every function online has one,
and no slot outside the table was read. -/
theorem run_tableOk (raw : List QdmaVfInfo) (es : List PfEvent)
    (h : Admitted step Orderly (.init raw) es) : TableOk (run step (.init raw) es) :=
  (h.invariant (fun _ e hs ho => hs.step e ho) (Tracked.init raw)).tableOk

/-- Memory for slots. -/
def rawSlots (n : ℕ) : List QdmaVfInfo := List.replicate n ⟨0, 0, 0⟩

/-- Two functions come online. During a reset one of them says goodbye and comes back, and the other
one says goodbye too late. -/
def resetRun : List PfEvent :=
  [.rcv (.online 5), .rcv (.online 6), .resetStart true, .rcv (.offline 5), .resetWaited true,
    .rcv (.online 5), .resetWaited true, .rcv (.offline 6), .resetStart false]

theorem resetRun_tableOk : TableOk (run step (.init (rawSlots 3)) resetRun) := by
  apply run_tableOk
  refine ⟨?_, ?_, ?_, ?_, ?_, ?_, ?_, ?_, ?_, trivial⟩ <;> decide

/-- The count is the number of slots in use, where nothing is kept or given up. -/
def CountsSlots (s : PfState) : Prop :=
  s.table.vfCountOnline = (occupied s.table.vfInfo).length

/-- A goodbye during a reset is counted, and the slot stays in use. -/
theorem keptRun_not_countsSlots : ¬ CountsSlots
    (run step (.init (rawSlots 1)) [.rcv (.online 5), .resetStart true, .rcv (.offline 5)]) := by
  unfold CountsSlots
  decide

end OnicDriver.Sriov
