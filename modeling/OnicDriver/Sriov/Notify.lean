import OnicDriver.Sriov.Online
import Mathlib.Data.List.Perm.Basic
import Mathlib.Data.List.Count

/-!
# Telling all VFs

The PF tells its VFs that it goes offline, or that it resets, with a loop over as many slots as
there are VFs online. The slots that VFs have left are among them: there the message goes to the
low byte of the invalid function number, and a VF further on is not told.
-/

namespace OnicDriver.Sriov

open Lib Mailbox

/-! ## The loops -/

/-- What a pass of a loop meets: whether there is memory for the message, and the functions that say
goodbye before the next pass. -/
structure PassEnv where
  alloc : Bool
  byes : List ℕ
  deriving DecidableEq, Repr

/-- The PF while it tells its VFs: the functions online, and those told so far. -/
structure TriggerState where
  table : VfTable
  online : List ℕ
  notified : List ℕ
  deriving DecidableEq, Repr

/-- `vf[i].func_id`. -/
def VfTable.funcId (t : VfTable) (i : ℕ) : ℕ := ((t.vfInfo[i]?).map QdmaVfInfo.funcId).getD 0

/-- A goodbye of a function that is online and has been told. -/
def rcvBye (s : TriggerState) (f : ℕ) : TriggerState :=
  if f ∈ s.online ∧ f ∈ s.notified then
    { s with table := xdevSriovVfOffline s.table f, online := s.online.erase f }
  else s

/-- `qdma_mbox_msg_send` of a message for the function of slot `i`, whose number is taken in
8 bits. -/
def tellSlot (s : TriggerState) (i : ℕ) : TriggerState :=
  { s with notified := s.notified ++ [s.table.funcId i % 2 ^ 8] }

/-- The loop from pass `i` on, with what it does after a wait, and whether it comes to its end. -/
def triggerLoop (afterWait : ℕ → VfTable → VfTable) (env : ℕ → PassEnv) :
    ℕ → ℕ → TriggerState → Bool × TriggerState
  | 0, _, s => (true, s)
  | n + 1, i, s =>
    if (env i).alloc then
      let s := (env i).byes.foldl rcvBye (tellSlot s i)
      triggerLoop afterWait env n (i + 1) { s with table := afterWait i s.table }
    else (false, s)

/-- `qdma_pf_trigger_vf_offline`. -/
def qdmaPfTriggerVfOffline (env : ℕ → PassEnv) (s : TriggerState) : TriggerState :=
  if s.table.vfCount = 0 then s
  else (triggerLoop (fun _ t => t) env s.table.vfCountOnline 0 s).2

/-- The end of a pass of the reset: a goodbye that did not come is counted nevertheless. -/
def countBye (vfCountOnline i : ℕ) (t : VfTable) : VfTable :=
  if (t.vfCountOnline : ℤ) ≠ (vfCountOnline : ℤ) - i - 1 then t.countDown else t

/-- `qdma_pf_trigger_vf_reset`. -/
def qdmaPfTriggerVfReset (env : ℕ → PassEnv) (s : TriggerState) : TriggerState :=
  if s.table.vfCount = 0 then s
  else
    let start := { s with table := { s.table with resetState := .pfWaitForByes } }
    let (done, s) := triggerLoop (countBye s.table.vfCountOnline) env s.table.vfCountOnline 0 start
    if done then { s with table := { s.table with resetState := .idle } } else s

/-! ## What the loops read -/

section Loop

variable {t t' : VfTable} {s : TriggerState} {i : ℕ}

/-- No function has two slots, and the numbers of functions have 8 bits. -/
structure SlotsApart (t : VfTable) : Prop where
  lt : ∀ i, t.funcId i ≠ QDMA_FUNC_ID_INVALID → t.funcId i < 2 ^ 8
  apart : ∀ i < t.vfCount, ∀ j < t.vfCount, t.funcId i ≠ QDMA_FUNC_ID_INVALID →
    t.funcId i = t.funcId j → i = j

/-- The loop finds in the slots from `i` on what they held at first, in 8 bits, and the functions
told so far are those of the slots before. -/
structure ReadsOn (t : VfTable) (i : ℕ) (s : TriggerState) : Prop where
  count : s.table.vfCount = t.vfCount
  read : ∀ j < t.vfCount, i ≤ j → s.table.funcId j = t.funcId j ∨
    t.funcId j = 2 ^ 8 - 1 ∧ s.table.funcId j = QDMA_FUNC_ID_INVALID
  notified : s.notified = (List.range i).map fun j => t.funcId j % 2 ^ 8

theorem funcId_releaseSlots (f j : ℕ) (t : VfTable) :
    (xdevSriovVfOffline t f).funcId j = t.funcId j ∨
      t.funcId j = f ∧ (xdevSriovVfOffline t f).funcId j = QDMA_FUNC_ID_INVALID := by
  unfold xdevSriovVfOffline VfTable.countDown VfTable.funcId
  rw [List.getElem?_map]
  cases t.vfInfo[j]? with
  | none => exact Or.inl rfl
  | some vf =>
    dsimp only [Option.map_some, Option.getD_some]
    split
    next hf =>
      unfold releaseSlot
      dsimp only
      split
      · exact Or.inr ⟨hf, rfl⟩
      · exact Or.inl rfl
    next => exact Or.inl rfl

theorem vfCount_offline (f : ℕ) (t : VfTable) : (xdevSriovVfOffline t f).vfCount = t.vfCount :=
  List.length_map _

/-- A goodbye frees no slot that is still to be read, but for a function that was told by the
message to a free slot. -/
theorem ReadsOn.rcvBye (h : ReadsOn t i s) (hapart : SlotsApart t) (f : ℕ) :
    ReadsOn t i (rcvBye s f) := by
  unfold Sriov.rcvBye
  split
  next hbye =>
    refine ⟨(vfCount_offline f s.table).trans h.count, fun j hj hij => ?_, h.notified⟩
    rcases funcId_releaseSlots f j s.table with hsame | ⟨hf, hfree⟩
    · exact hsame ▸ h.read j hj hij
    · refine Or.inr ⟨?_, hfree⟩
      rcases h.read j hj hij with hfirst | hfirst
      · obtain ⟨k, hk, hkf⟩ := List.mem_map.mp (h.notified ▸ hbye.2)
        have hk := List.mem_range.mp hk
        rw [← hfirst, hf, ← hkf]
        by_cases hinvalid : t.funcId k = QDMA_FUNC_ID_INVALID
        · rw [hinvalid]
          rfl
        · rw [Nat.mod_eq_of_lt (hapart.lt k hinvalid)] at hkf
          have hsame := hapart.apart k (by omega) j hj hinvalid (by rw [hkf, ← hf, hfirst])
          omega
      · exact hfirst.1
  next => exact h

theorem ReadsOn.rcvByes (h : ReadsOn t i s) (hapart : SlotsApart t) (byes : List ℕ) :
    ReadsOn t i (byes.foldl Sriov.rcvBye s) := by
  induction byes generalizing s with
  | nil => exact h
  | cons f byes ih => exact ih (h.rcvBye hapart f)

/-- The next slot is told. -/
theorem ReadsOn.tellSlot (h : ReadsOn t i s) (hi : i < t.vfCount) :
    ReadsOn t (i + 1) (tellSlot s i) where
  count := h.count
  read j hj hij := h.read j hj (by omega)
  notified := by
    have hread : s.table.funcId i % 2 ^ 8 = t.funcId i % 2 ^ 8 := by
      rcases h.read i hi le_rfl with hsame | ⟨hlow, hfree⟩
      · rw [hsame]
      · rw [hlow, hfree]
        rfl
    rw [List.range_succ, List.map_append, ← h.notified, List.map_singleton, ← hread]
    rfl

/-- A run of the loop: it comes to its end if there is memory for all messages, and then it has told
the functions of all the slots, in 8 bits. -/
theorem triggerLoop_spec {afterWait : ℕ → VfTable → VfTable}
    (hafter : ∀ i t, (afterWait i t).vfInfo = t.vfInfo) (hapart : SlotsApart t)
    (env : ℕ → PassEnv) {n : ℕ} (h : ReadsOn t i s) (hn : i + n ≤ t.vfCount) :
    if ∀ j < i + n, i ≤ j → (env j).alloc = true then
      (triggerLoop afterWait env n i s).1 = true ∧
        (triggerLoop afterWait env n i s).2.notified =
          (List.range (i + n)).map fun j => t.funcId j % 2 ^ 8
    else (triggerLoop afterWait env n i s).1 = false ∧
      (triggerLoop afterWait env n i s).2.notified.length < i + n := by
  induction n generalizing i s with
  | zero =>
    rw [if_pos fun j hj hij => by omega]
    exact ⟨rfl, h.notified⟩
  | succ n ih =>
    rw [triggerLoop]
    by_cases halloc : (env i).alloc = true
    · rw [if_pos halloc]
      have hbyes := (h.tellSlot (by omega)).rcvByes hapart (env i).byes
      have hnext : ReadsOn t (i + 1) { (env i).byes.foldl Sriov.rcvBye (tellSlot s i) with
          table := afterWait i ((env i).byes.foldl Sriov.rcvBye (tellSlot s i)).table } := by
        refine ⟨?_, fun j hj hij => ?_, hbyes.notified⟩
        · exact (congrArg List.length (hafter i _)).trans hbyes.count
        · have hsame :
              (afterWait i ((env i).byes.foldl Sriov.rcvBye (tellSlot s i)).table).funcId j =
                ((env i).byes.foldl Sriov.rcvBye (tellSlot s i)).table.funcId j := by
            rw [VfTable.funcId, hafter]
            rfl
          rw [hsame]
          exact hbyes.read j hj hij
      have hrest := ih hnext (by omega)
      have hcond : (∀ j < i + (n + 1), i ≤ j → (env j).alloc = true) ↔
          ∀ j < i + 1 + n, i + 1 ≤ j → (env j).alloc = true := by
        constructor
        · exact fun hall j hj hij => hall j (by omega) (by omega)
        · intro hall j hj hij
          rcases Nat.eq_or_lt_of_le hij with rfl | hlt
          · exact halloc
          · exact hall j (by omega) hlt
      rw [if_congr hcond rfl rfl, show i + (n + 1) = i + 1 + n by omega]
      exact hrest
    · rw [if_neg halloc, if_neg fun hall => halloc (hall i (by omega) le_rfl)]
      refine ⟨rfl, ?_⟩
      rw [h.notified, List.length_map, List.length_range]
      omega

theorem vfInfo_countBye (n i : ℕ) (t : VfTable) : (countBye n i t).vfInfo = t.vfInfo := by
  unfold countBye
  split <;> rfl

end Loop

/-! ## The functions told -/

/-- A list of function numbers in 8 bits: those of used slots stay, and a free slot gives function
255. -/
theorem low_perm {l : List QdmaVfInfo} (hlow : ∀ f ∈ occupied l, f < 2 ^ 8) :
    (l.map fun vf => vf.funcId % 2 ^ 8).Perm
      (occupied l ++ List.replicate (l.length - (occupied l).length) (2 ^ 8 - 1)) := by
  induction l with
  | nil => exact .refl _
  | cons vf l ih =>
    have hle := occupied_length_le l
    rw [occupied_cons] at hlow ⊢
    rw [List.map_cons]
    split_ifs at hlow ⊢ with hfree
    · rw [hfree, List.length_cons, Nat.succ_sub hle, List.replicate_succ]
      exact ((ih hlow).cons _).trans List.perm_middle.symm
    · have hvf : vf.funcId % 2 ^ 8 = vf.funcId :=
        Nat.mod_eq_of_lt (hlow _ List.mem_cons_self)
      rw [hvf, List.length_cons, List.length_cons, Nat.add_sub_add_right]
      exact (ih fun f hf => hlow f (List.mem_cons_of_mem _ hf)).cons _

theorem occupied_append (l l' : List QdmaVfInfo) :
    occupied (l ++ l') = occupied l ++ occupied l' := by
  unfold occupied
  rw [List.map_append, List.filter_append]

/-- The first slots, as many as are used, in 8 bits are the used slots exactly when the slots beyond
are free, or used by function 255. -/
theorem take_low_perm_iff {l : List QdmaVfInfo} (hlow : ∀ f ∈ occupied l, f < 2 ^ 8) :
    ((l.take (occupied l).length).map fun vf => vf.funcId % 2 ^ 8).Perm (occupied l) ↔
      ∀ f ∈ occupied (l.drop (occupied l).length), f = 2 ^ 8 - 1 := by
  generalize hn : (occupied l).length = n
  have hsplit : occupied l = occupied (l.take n) ++ occupied (l.drop n) := by
    rw [← occupied_append, List.take_append_drop]
  have hlength : (l.take n).length = n := by
    rw [List.length_take, ← hn]
    exact Nat.min_eq_left (occupied_length_le l)
  have hfirst := low_perm (l := l.take n) fun f hf =>
    hlow f (hsplit ▸ List.mem_append_left _ hf)
  have hholes : (l.take n).length - (occupied (l.take n)).length =
      (occupied (l.drop n)).length := by
    have htotal := congrArg List.length hsplit
    rw [List.length_append] at htotal
    omega
  rw [hholes] at hfirst
  rw [hfirst.congr_left, hsplit, List.perm_append_left_iff]
  constructor
  · intro hperm f hf
    exact List.eq_of_mem_replicate (hperm.mem_iff.mpr hf)
  · intro hall
    rw [← List.eq_replicate_of_mem hall]

/-! ## Arrivals and departures -/

/-- An arrival of a VF that is offline or a departure of one that is online. -/
def ComesOrGoes (vfs : List ℕ) (s : PfState) : PfEvent → Prop
  | .rcv (.online f) => f ∈ vfs ∧ f ∉ s.online
  | .rcv (.offline f) => f ∈ s.online
  | .resetStart _ => False
  | .resetWaited _ => False

instance (vfs : List ℕ) (s : PfState) : (e : PfEvent) → Decidable (ComesOrGoes vfs s e)
  | .rcv (.online f) => inferInstanceAs (Decidable (f ∈ vfs ∧ f ∉ s.online))
  | .rcv (.offline f) => inferInstanceAs (Decidable (f ∈ s.online))
  | .resetStart _ => inferInstanceAs (Decidable False)
  | .resetWaited _ => inferInstanceAs (Decidable False)

/-- The functions of a PF and its VFs: their numbers are distinct and have 8 bits. -/
structure Functions (pf : ℕ) (vfs : List ℕ) : Prop where
  pf_lt : pf < 2 ^ 8
  vf_lt : ∀ f ∈ vfs, f < 2 ^ 8
  distinct : (pf :: vfs).Nodup

/-- The invariant of arrivals and departures while no reset is under way. -/
structure Settled (vfs : List ℕ) (s : PfState) : Prop where
  tracked : Tracked s
  kept : s.kept = []
  missed : s.missed = 0
  idle : s.table.resetState = .idle
  among : s.online ⊆ vfs
  slots : s.table.vfCount = vfs.length

section Settled

variable {pf : ℕ} {vfs : List ℕ} {s : PfState}

/-- There are fewer VFs than numbers of 8 bits. -/
theorem Functions.length_lt (h : Functions pf vfs) : vfs.length < 2 ^ 8 := by
  have hsub : pf :: vfs ⊆ List.range (2 ^ 8) := by
    intro f hf
    rw [List.mem_range]
    rcases List.mem_cons.mp hf with rfl | hvf
    · exact h.pf_lt
    · exact h.vf_lt f hvf
  have hle := (List.subperm_of_subset h.distinct hsub).length_le
  rwa [List.length_cons, List.length_range] at hle

theorem Settled.init {raw : List QdmaVfInfo} (hraw : raw.length = vfs.length) :
    Settled vfs (.init raw) where
  tracked := .init raw
  kept := rfl
  missed := rfl
  idle := rfl
  among := List.nil_subset _
  slots := (List.length_map _).trans hraw

theorem Settled.occupied_perm (h : Settled vfs s) : (occupied s.table.vfInfo).Perm s.online := by
  have hslots := h.tracked.slots
  rwa [h.kept, List.append_nil] at hslots

theorem Settled.online_nodup (h : Settled vfs s) : s.online.Nodup := by
  have honce := h.tracked.once
  rwa [h.kept, List.append_nil] at honce

theorem Settled.count (h : Settled vfs s) : s.table.vfCountOnline = s.online.length := by
  have hcount := h.tracked.count
  rwa [h.missed] at hcount

/-- A VF that arrives finds a slot. -/
theorem Settled.helloOrderly (h : Settled vfs s) (hfunctions : Functions pf vfs) {f : ℕ}
    (hf : f ∈ vfs) (hnew : f ∉ s.online) : HelloOrderly s f := by
  have hle := (List.subperm_of_subset (h.online_nodup.cons hnew)
    (List.cons_subset.mpr ⟨hf, h.among⟩)).length_le
  rw [List.length_cons] at hle
  have hlt := hfunctions.length_lt
  refine ⟨by rw [h.count]; omega, ?_⟩
  rw [if_pos h.idle, h.occupied_perm.length_eq, h.slots]
  exact ⟨fun hmem => hnew (h.occupied_perm.mem_iff.mp hmem), by omega⟩

/-- A hello changes neither the number of slots nor the state of the reset. -/
theorem xdevSriovVfOnline_frame {t : VfTable} {f : ℕ} (hf : f ≠ QDMA_FUNC_ID_INVALID) :
    (xdevSriovVfOnline t f).2.vfCount = t.vfCount ∧
      (xdevSriovVfOnline t f).2.resetState = t.resetState := by
  unfold xdevSriovVfOnline
  dsimp only
  split_ifs
  · split
    next vfInfo htake => exact ⟨(takeFreeSlot_spec hf htake).1, rfl⟩
    next => exact ⟨rfl, rfl⟩
  · exact ⟨rfl, rfl⟩

theorem Settled.step (h : Settled vfs s) (hfunctions : Functions pf vfs) {e : PfEvent}
    (he : ComesOrGoes vfs s e) : Settled vfs (step s e) := by
  cases e with
  | rcv event =>
    cases event with
    | online f =>
      have hlow : f % 2 ^ 8 = f := Nat.mod_eq_of_lt (hfunctions.vf_lt f he.1)
      have hframe := xdevSriovVfOnline_frame (t := s.table) (f := f) <| by
        have hlt := hfunctions.vf_lt f he.1
        unfold QDMA_FUNC_ID_INVALID
        omega
      have hhello := h.helloOrderly hfunctions he.1 he.2
      unfold Sriov.step
      dsimp only
      rw [hlow]
      refine ⟨h.tracked.rcvOnline (hfunctions.vf_lt f he.1) hhello, ?_, h.missed, ?_, ?_, ?_⟩
      · unfold rcvOnline
        rw [h.kept]
        rfl
      · exact hframe.2.trans h.idle
      · exact List.cons_subset.mpr ⟨he.1, h.among⟩
      · exact hframe.1.trans h.slots
    | offline f =>
      have hlow : f % 2 ^ 8 = f := Nat.mod_eq_of_lt (hfunctions.vf_lt f (h.among he))
      have hpos : 0 < s.online.length := List.length_pos_of_mem he
      unfold Sriov.step
      dsimp only
      rw [hlow]
      refine ⟨h.tracked.rcvOffline he (by rw [h.count]; omega), ?_, h.missed, h.idle, ?_, ?_⟩
      · unfold rcvOffline
        dsimp only
        rw [if_pos h.idle, h.kept]
        rfl
      · exact fun g hg => h.among (List.mem_of_mem_erase hg)
      · exact (vfCount_offline f s.table).trans h.slots
  | resetStart => exact he.elim
  | resetWaited => exact he.elim

theorem Settled.funcId_lt (h : Settled vfs s) (hfunctions : Functions pf vfs) :
    ∀ f ∈ occupied s.table.vfInfo, f < 2 ^ 8 :=
  fun f hf => hfunctions.vf_lt f (h.among (h.occupied_perm.mem_iff.mp hf))

theorem funcId_eq {t : VfTable} {i : ℕ} (hi : i < t.vfInfo.length) :
    t.funcId i = t.vfInfo[i].funcId := by
  unfold VfTable.funcId
  rw [List.getElem?_eq_getElem hi]
  rfl

theorem Settled.slotsApart (h : Settled vfs s) (hfunctions : Functions pf vfs) :
    SlotsApart s.table where
  lt i hinvalid := by
    rcases Nat.lt_or_ge i s.table.vfInfo.length with hi | hi
    · rw [funcId_eq hi] at hinvalid ⊢
      exact h.funcId_lt hfunctions _
        (mem_occupied.mpr ⟨hinvalid, _, List.getElem_mem hi, rfl⟩)
    · unfold VfTable.funcId
      rw [List.getElem?_eq_none hi]
      exact Nat.two_pow_pos 8
  apart i hi j hj hinvalid hsame := by
    have hnodup := h.tracked.tableOk.once
    unfold occupied at hnodup
    rw [List.Nodup, List.pairwise_filter, List.pairwise_map, List.pairwise_iff_getElem] at hnodup
    unfold VfTable.vfCount at hi hj
    rw [funcId_eq hi] at hinvalid hsame
    rw [funcId_eq hj] at hsame
    rcases Nat.lt_trichotomy i j with hlt | heq | hgt
    · exact absurd hsame (hnodup i j hi hj hlt (by simpa using hinvalid)
        (by simpa [← hsame] using hinvalid))
    · exact heq
    · exact absurd hsame.symm (hnodup j i hj hi hgt (by simpa [← hsame] using hinvalid)
        (by simpa using hinvalid))

/-- A table without slots has no function online, and there the loop would have no pass. -/
theorem offline_notified (env : ℕ → PassEnv) {s : TriggerState}
    (hle : s.table.vfCountOnline ≤ s.table.vfCount) :
    (qdmaPfTriggerVfOffline env s).notified =
      (triggerLoop (fun _ t => t) env s.table.vfCountOnline 0 s).2.notified := by
  unfold qdmaPfTriggerVfOffline
  split_ifs with hnone
  · have hzero : s.table.vfCountOnline = 0 := Nat.le_zero.mp (hnone ▸ hle)
    rw [hzero]
    rfl
  · rfl

theorem reset_notified (env : ℕ → PassEnv) {s : TriggerState}
    (hle : s.table.vfCountOnline ≤ s.table.vfCount) :
    (qdmaPfTriggerVfReset env s).notified =
      (triggerLoop (countBye s.table.vfCountOnline) env s.table.vfCountOnline 0
        { s with table := { s.table with resetState := .pfWaitForByes } }).2.notified := by
  unfold qdmaPfTriggerVfReset
  split_ifs with hnone
  · have hzero : s.table.vfCountOnline = 0 := Nat.le_zero.mp (hnone ▸ hle)
    rw [hzero]
    rfl
  · dsimp only
    split_ifs <;> rfl

/-- The PF as it begins to tell its VFs. -/
def PfState.trigger (s : PfState) : TriggerState :=
  { table := s.table, online := s.online, notified := [] }

/-- When a loop tells each VF online: there is memory for its messages, and no slot beyond those it
reads is in use, but for one of function 255. -/
def TellsAll (env : ℕ → PassEnv) (t : VfTable) : Prop :=
  (∀ i < t.vfCountOnline, (env i).alloc = true) ∧
    ∀ f ∈ occupied (t.vfInfo.drop t.vfCountOnline), f = 2 ^ 8 - 1

theorem Settled.triggerLoop_iff (h : Settled vfs s) (hfunctions : Functions pf vfs)
    {afterWait : ℕ → VfTable → VfTable} (hafter : ∀ i t, (afterWait i t).vfInfo = t.vfInfo)
    (env : ℕ → PassEnv) {start : TriggerState} (hstart : start.table.vfInfo = s.table.vfInfo)
    (hnone : start.notified = []) :
    (triggerLoop afterWait env s.table.vfCountOnline 0 start).2.notified.Perm s.online ↔
      TellsAll env s.table := by
  have hcount : s.table.vfCountOnline = (occupied s.table.vfInfo).length :=
    h.count.trans h.occupied_perm.length_eq.symm
  have hreads : ReadsOn s.table 0 start := by
    refine ⟨congrArg List.length hstart, fun j _ _ => Or.inl ?_, hnone⟩
    unfold VfTable.funcId
    rw [hstart]
  have hspec := triggerLoop_spec hafter (h.slotsApart hfunctions) env hreads
    (n := s.table.vfCountOnline) (by rw [Nat.zero_add]; exact h.tracked.count_le)
  rw [Nat.zero_add] at hspec
  unfold TellsAll
  by_cases halloc : ∀ i < s.table.vfCountOnline, (env i).alloc = true
  · rw [if_pos fun j hj _ => halloc j hj] at hspec
    have hread : (List.range s.table.vfCountOnline).map (fun j => s.table.funcId j % 2 ^ 8) =
        (s.table.vfInfo.take s.table.vfCountOnline).map fun vf => vf.funcId % 2 ^ 8 := by
      have hle : s.table.vfCountOnline ≤ s.table.vfInfo.length := h.tracked.count_le
      apply List.ext_getElem
      · rw [List.length_map, List.length_range, List.length_map, List.length_take,
          Nat.min_eq_left hle]
      · intro j hj _
        rw [List.length_map, List.length_range] at hj
        rw [List.getElem_map, List.getElem_map, List.getElem_range, List.getElem_take,
          funcId_eq (hj.trans_le hle)]
    rw [hspec.2, hread, ← h.occupied_perm.congr_right, hcount,
      take_low_perm_iff (h.funcId_lt hfunctions), and_iff_right (hcount ▸ halloc)]
  · rw [if_neg fun hall => halloc fun i hi => hall i hi (Nat.zero_le i)] at hspec
    constructor
    · intro hperm
      have hlength := hperm.length_eq
      rw [← h.count] at hlength
      exact absurd hlength hspec.2.ne
    · exact fun htells => absurd htells.1 halloc

end Settled

/-- After any arrivals and departures of VFs, telling them that the PF goes offline or resets sends
one message to each VF online and none to another function exactly when there is memory for the
messages and no slot beyond the first ones, as many as VFs are online, is in use, but for one of
function 255. -/
theorem vfNotification_iff {pf : ℕ} {vfs : List ℕ} (hfunctions : Functions pf vfs)
    {raw : List QdmaVfInfo} (hraw : raw.length = vfs.length) {es : List PfEvent}
    (hes : Admitted step (ComesOrGoes vfs) (.init raw) es) (env : ℕ → PassEnv) :
    let s := run step (.init raw) es
    ((qdmaPfTriggerVfOffline env s.trigger).notified.Perm s.online ↔ TellsAll env s.table) ∧
      ((qdmaPfTriggerVfReset env s.trigger).notified.Perm s.online ↔ TellsAll env s.table) := by
  intro s
  have hs : Settled vfs s :=
    hes.invariant (fun _ _ h he => h.step hfunctions he) (.init hraw)
  constructor
  · rw [offline_notified env (s := s.trigger) hs.tracked.count_le]
    exact hs.triggerLoop_iff hfunctions (fun _ _ => rfl) env rfl rfl
  · rw [reset_notified env (s := s.trigger) hs.tracked.count_le]
    exact hs.triggerLoop_iff hfunctions (vfInfo_countBye _) env rfl rfl

/-- Memory for all messages, and the VFs say goodbye once they are told. -/
def goodbyes (fs : List ℕ) (i : ℕ) : PassEnv :=
  { alloc := true, byes := (fs[i]?).toList }

/-- Three VFs come online and the last one departs. -/
def lastDeparts : List PfEvent :=
  [.rcv (.online 4), .rcv (.online 5), .rcv (.online 6), .rcv (.offline 6)]

theorem lastDeparts_told :
    let s := run step (.init (rawSlots 3)) lastDeparts
    (qdmaPfTriggerVfOffline (goodbyes [4, 5]) s.trigger).notified.Perm s.online ∧
      (qdmaPfTriggerVfReset (goodbyes [4, 5]) s.trigger).notified.Perm s.online := by
  intro s
  have htold : TellsAll (goodbyes [4, 5]) s.table := by
    unfold TellsAll
    decide +kernel
  have hfunctions : Functions 0 [4, 5, 6] := ⟨by decide, by decide, by decide⟩
  have hes : Admitted step (ComesOrGoes [4, 5, 6]) (.init (rawSlots 3)) lastDeparts := by decide
  have hiff := vfNotification_iff hfunctions rfl hes (goodbyes [4, 5])
  exact ⟨hiff.1.mpr htold, hiff.2.mpr htold⟩

/-- Two VFs come online and the first one departs. -/
def firstDeparts : List PfEvent := [.rcv (.online 4), .rcv (.online 5), .rcv (.offline 4)]

/-- The slot that the first VF left is read, and the message goes to function 255. -/
theorem firstDeparts_not_told :
    let s := run step (.init (rawSlots 2)) firstDeparts
    Admitted step (ComesOrGoes [4, 5]) (.init (rawSlots 2)) firstDeparts ∧ s.online = [5] ∧
      (qdmaPfTriggerVfOffline (goodbyes []) s.trigger).notified = [255] ∧
      (qdmaPfTriggerVfReset (goodbyes []) s.trigger).notified = [255] := by
  decide +kernel

end OnicDriver.Sriov
