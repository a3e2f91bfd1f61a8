import OnicDriver.Queue.Descq
import OnicDriver.Lib.Runs
import Mathlib.Data.Set.Card

/-!
# Work threads

A queue that is started is given to the thread that polls for its completions or, when interrupts
are used, to a CPU. The two searches for the least loaded one are written differently: the one over
the CPUs keeps the best load beside its index, the one over the threads keeps the load of the first
thread.
-/

namespace OnicDriver.Queue

open Lib

/-! ## The two searches -/

/-- The loop of `qdma_thread_add_work` over the CPUs below `i`, from the last one on. -/
def leastCpuBelow (perCpuQcnt : ℕ → ℤ) : ℕ → ℕ → ℤ → ℕ
  | 0, idx, _ => idx
  | i + 1, idx, v =>
    if v = 0 then idx
    else if perCpuQcnt i < v then leastCpuBelow perCpuQcnt i i (perCpuQcnt i)
    else leastCpuBelow perCpuQcnt i idx v

/-- The CPU that `qdma_thread_add_work` picks. -/
def pickCpu (cpuCount : ℕ) (perCpuQcnt : ℕ → ℤ) : ℕ :=
  leastCpuBelow perCpuQcnt (cpuCount - 1) (cpuCount - 1) (perCpuQcnt (cpuCount - 1))

/-- The loop of `qdma_thread_add_work` over the threads. -/
def threadAmong (threadCnt : ℕ) (workCnt : ℕ → ℤ) : List ℕ → ℕ → ℤ → ℕ
  | [], idx, _ => idx
  | i :: is, idx, v =>
    if idx = threadCnt then threadAmong threadCnt workCnt is i (workCnt i)
    else if workCnt i = 0 then i
    else if workCnt i < v then threadAmong threadCnt workCnt is i v
    else threadAmong threadCnt workCnt is idx v

/-- The thread that `qdma_thread_add_work` picks. -/
def pickThread (threadCnt : ℕ) (workCnt : ℕ → ℤ) : ℕ :=
  threadAmong threadCnt workCnt (List.range threadCnt) threadCnt 0

/-- The load of the `idx`th of `n` is minimal. -/
def Least (n : ℕ) (load : ℕ → ℤ) (idx : ℕ) : Prop :=
  idx < n ∧ ∀ k < n, load idx ≤ load k

section Search

variable {n : ℕ} {load : ℕ → ℤ}

/-- The search over the CPUs: those from `i` on are not less loaded than the best one so far. -/
theorem least_leastCpuBelow (hpos : ∀ k < n, 0 ≤ load k) {i idx : ℕ} (hi : i ≤ n) (hidx : idx < n)
    (hbest : ∀ k < n, i ≤ k → load idx ≤ load k) :
    Least n load (leastCpuBelow load i idx (load idx)) := by
  induction i generalizing idx with
  | zero => exact ⟨hidx, fun k hk => hbest k hk k.zero_le⟩
  | succ i ih =>
    rw [leastCpuBelow]
    by_cases hzero : load idx = 0
    · rw [if_pos hzero]
      exact ⟨hidx, fun k hk => hzero.trans_le (hpos k hk)⟩
    · rw [if_neg hzero]
      by_cases hlt : load i < load idx
      · rw [if_pos hlt]
        refine ih (by omega) (by omega) fun k hk hik => ?_
        rcases Nat.eq_or_lt_of_le hik with rfl | hik
        · exact le_rfl
        · exact hlt.le.trans (hbest k hk hik)
      · rw [if_neg hlt]
        refine ih (by omega) hidx fun k hk hik => ?_
        rcases Nat.eq_or_lt_of_le hik with rfl | hik
        · exact not_lt.mp hlt
        · exact hbest k hk hik

/-- The CPU that is picked is a least loaded one. -/
theorem least_pickCpu (hn : 0 < n) (hpos : ∀ k < n, 0 ≤ load k) :
    Least n load (pickCpu n load) := by
  refine least_leastCpuBelow hpos (by omega) (by omega) fun k hk hle => ?_
  obtain rfl : k = n - 1 := by omega
  exact le_rfl

/-- What the loop over the threads leaves: the first thread without work after the first one, else
the last one with less work than `v`, else the one picked before. -/
theorem threadAmong_spec {is : List ℕ} (his : ∀ i ∈ is, i < n) {idx : ℕ} (hidx : idx ≠ n) (v : ℤ) :
    threadAmong n load is idx v =
      match is.find? (fun i => load i = 0) with
      | some i => i
      | none => ((is.filter fun i => load i < v).getLast?).getD idx := by
  induction is generalizing idx with
  | nil => rfl
  | cons i is ih =>
    have hin : i ≠ n := (his i List.mem_cons_self).ne
    have hrest : ∀ j ∈ is, j < n := fun j hj => his j (List.mem_cons_of_mem _ hj)
    rw [threadAmong, if_neg hidx]
    by_cases hzero : load i = 0
    · rw [if_pos hzero, List.find?_cons_of_pos (by simpa using hzero)]
    · rw [if_neg hzero, List.find?_cons_of_neg (by simpa using hzero)]
      by_cases hlt : load i < v
      · rw [if_pos hlt, ih hrest hin, List.filter_cons_of_pos (by simpa using hlt)]
        cases is.find? (fun i => load i = 0) with
        | some j => rfl
        | none => rw [List.getLast?_cons]; rfl
      · rw [if_neg hlt, ih hrest hidx, List.filter_cons_of_neg (by simpa using hlt)]

/-- One of the threads has no work, or the last of those with less work than the first one has the
least work of all. -/
def LastIsLeast (n : ℕ) (load : ℕ → ℤ) : Prop :=
  (∃ i < n, load i = 0) ∨
    ∀ i < n, load i < load 0 → (∀ j < n, i < j → load 0 ≤ load j) → Least n load i

/-- The last entry of an increasing list that meets a condition is its greatest one. -/
theorem le_getLast_filter {l : List ℕ} (hl : l.Pairwise (· < ·)) {p : ℕ → Bool} {i : ℕ}
    (h : (l.filter p).getLast? = some i) : ∀ j ∈ l, p j → j ≤ i := by
  intro j hj hp
  obtain ⟨ys, hys⟩ := List.getLast?_eq_some_iff.mp h
  have hsorted : (ys ++ [i]).Pairwise (· < ·) := hys ▸ hl.filter p
  have hmem : j ∈ ys ++ [i] := hys ▸ List.mem_filter.mpr ⟨hj, hp⟩
  rcases List.mem_append.mp hmem with hin | hin
  · exact ((List.pairwise_append.mp hsorted).2.2 j hin i (List.mem_singleton_self i)).le
  · exact (List.mem_singleton.mp hin).le

theorem pickThread_lt (hn : 0 < n) : pickThread n load < n := by
  obtain ⟨m, rfl⟩ := Nat.exists_eq_succ_of_ne_zero hn.ne'
  rw [pickThread, List.range_succ_eq_map, threadAmong, if_pos rfl,
    threadAmong_spec (by simp) (by omega)]
  cases hzero : (List.map Nat.succ (List.range m)).find? (fun i => load i = 0) with
  | some i =>
    have hmem := List.mem_of_find?_eq_some hzero
    simp only [List.mem_map, List.mem_range] at hmem
    change i < m + 1
    omega
  | none =>
    cases hlast : ((List.map Nat.succ (List.range m)).filter fun i => load i < load 0).getLast? with
    | none => exact hn
    | some i =>
      have hmem := (List.mem_filter.mp (List.mem_of_getLast? hlast)).1
      simp only [List.mem_map, List.mem_range] at hmem
      change i < m + 1
      omega

/-- When the thread that is picked is a least loaded one. -/
theorem least_pickThread_iff (hn : 0 < n) (hpos : ∀ k < n, 0 ≤ load k) :
    Least n load (pickThread n load) ↔ LastIsLeast n load := by
  obtain ⟨m, rfl⟩ := Nat.exists_eq_succ_of_ne_zero hn.ne'
  have hmem (i : ℕ) : i ∈ List.map Nat.succ (List.range m) ↔ 0 < i ∧ i < m + 1 := by
    simp only [List.mem_map, List.mem_range, Nat.succ_eq_add_one]
    constructor
    · rintro ⟨j, hj, rfl⟩
      omega
    · rintro ⟨hi, hlt⟩
      exact ⟨i - 1, by omega, by omega⟩
  have hsorted : (List.map Nat.succ (List.range m)).Pairwise (· < ·) := by
    rw [List.pairwise_map]
    exact List.pairwise_lt_range.imp Nat.succ_lt_succ
  rw [pickThread, List.range_succ_eq_map, threadAmong, if_pos rfl,
    threadAmong_spec (fun i hi => ((hmem i).mp hi).2) (by omega)]
  cases hzero : (List.map Nat.succ (List.range m)).find? (fun i => load i = 0) with
  | some i =>
    have hi := ((hmem i).mp (List.mem_of_find?_eq_some hzero)).2
    have hload : load i = 0 := by simpa using List.find?_some hzero
    exact iff_of_true ⟨hi, fun k hk => hload.trans_le (hpos k hk)⟩ (Or.inl ⟨i, hi, hload⟩)
  | none =>
    have hwork : ∀ i, 0 < i → i < m + 1 → load i ≠ 0 := fun i hi hlt => by
      simpa using List.find?_eq_none.mp hzero i ((hmem i).mpr ⟨hi, hlt⟩)
    cases hlast : ((List.map Nat.succ (List.range m)).filter fun i => load i < load 0).getLast? with
    | none =>
      have hleast : ∀ k < m + 1, load 0 ≤ load k := by
        intro k hk
        rcases Nat.eq_zero_or_pos k with rfl | hpk
        · exact le_rfl
        · have hnone := List.getLast?_eq_none_iff.mp hlast
          rw [List.filter_eq_nil_iff] at hnone
          simpa using hnone k ((hmem k).mpr ⟨hpk, hk⟩)
      exact iff_of_true ⟨hn, hleast⟩ (Or.inr fun i hi hlt => absurd hlt (hleast i hi).not_gt)
    | some i =>
      obtain ⟨hin, hless⟩ := List.mem_filter.mp (List.mem_of_getLast? hlast)
      have hless : load i < load 0 := by simpa using hless
      obtain ⟨hi, hlt⟩ := (hmem i).mp hin
      have hgreatest := le_getLast_filter hsorted hlast
      have hafter : ∀ j < m + 1, i < j → load 0 ≤ load j := by
        intro j hj hij
        by_contra hnot
        have := hgreatest j ((hmem j).mpr ⟨by omega, hj⟩) (by simpa using hnot)
        omega
      constructor
      · intro hleast
        refine Or.inr fun k hk hkless hkafter => ?_
        have hik : k = i := by
          rcases lt_trichotomy k i with hki | rfl | hki
          · exact absurd hless (hkafter i hlt hki).not_gt
          · rfl
          · exact absurd hkless (hafter k hk hki).not_gt
        rw [hik]
        exact hleast
      · rintro (⟨k, hk, hidle⟩ | hall)
        · rcases Nat.eq_zero_or_pos k with rfl | hpk
          · have := hpos i hlt
            omega
          · exact absurd hidle (hwork k hpk hk)
        · exact hall i hlt hless hafter

end Search

/-! ## Adding and removing queues -/

/-- The fields of `struct qdma_descq` that the assignment of its work uses. -/
structure WorkFields where
  cmplthp : Option ℕ := none
  cpuAssigned : Bool := false
  intrWorkCpu : ℕ := 0
  deriving DecidableEq, Repr

/-- The fields of `struct qdma_kthread` that the assignment uses. -/
structure Kthread (Q : Type) where
  workList : List Q := []
  workCnt : ℤ := 0

/-- The threads, the counts of the CPUs and the queues. -/
structure WorkState (Q : Type) where
  csThreads : ℕ → Kthread Q := fun _ => {}
  perCpuQcnt : ℕ → ℤ := fun _ => 0
  descq : Q → WorkFields := fun _ => {}

/-- `thread_cnt` as `qdma_threads_create` sets it. -/
def threadCount (cpuCount numThreads : ℕ) : ℕ := if numThreads = 0 then cpuCount else numThreads

section Assignment

variable {Q : Type} [DecidableEq Q] (cpuCount threadCnt : ℕ)

/-- `qdma_thread_remove_work`. -/
def qdmaThreadRemoveWork (descq : Q) (s : WorkState Q) : WorkState Q :=
  let q := s.descq descq
  let cpuIdx := if q.cpuAssigned then q.intrWorkCpu else cpuCount
  let s := { s with
    descq := Function.update s.descq descq { q with cmplthp := none, cpuAssigned := false } }
  let s :=
    if cpuIdx < cpuCount then
      { s with perCpuQcnt := Function.update s.perCpuQcnt cpuIdx (s.perCpuQcnt cpuIdx - 1) }
    else s
  match q.cmplthp with
  | none => s
  | some t =>
    let thp := s.csThreads t
    { s with
      csThreads := Function.update s.csThreads t
        { workList := thp.workList.erase descq, workCnt := thp.workCnt - 1 } }

/-- `qdma_thread_add_work` for a queue of a device in the given mode. -/
def qdmaThreadAddWork (mode : DrvMode) (descq : Q) (s : WorkState Q) : WorkState Q :=
  if mode ≠ .poll then
    let idx := pickCpu cpuCount s.perCpuQcnt
    { s with
      perCpuQcnt := Function.update s.perCpuQcnt idx (s.perCpuQcnt idx + 1)
      descq := Function.update s.descq descq
        { s.descq descq with cpuAssigned := true, intrWorkCpu := idx } }
  else
    let idx := pickThread threadCnt fun t => (s.csThreads t).workCnt
    let thp := s.csThreads idx
    { s with
      csThreads := Function.update s.csThreads idx
        { workList := thp.workList ++ [descq], workCnt := thp.workCnt + 1 }
      descq := Function.update s.descq descq
        { s.descq descq with intrWorkCpu := idx, cmplthp := some idx } }

end Assignment

/-! ## Exact counters -/

section Counters

variable {Q : Type} {cpuCount threadCnt : ℕ} {s : WorkState Q}

/-- The queues that are assigned to a CPU. -/
def WorkState.onCpu (s : WorkState Q) (cpu : ℕ) : Set Q :=
  {q | (s.descq q).cpuAssigned = true ∧ (s.descq q).intrWorkCpu = cpu}

/-- The queue has been added and not been removed since. -/
def WorkState.Added (s : WorkState Q) (q : Q) : Prop :=
  (s.descq q).cpuAssigned = true ∨ (s.descq q).cmplthp ≠ none

instance (s : WorkState Q) (q : Q) : Decidable (s.Added q) :=
  inferInstanceAs (Decidable (_ ∨ _))

/-- A queue is on the work list of its thread, once, and on no other; the threads count their
lists. -/
structure ThreadsCount (threadCnt : ℕ) (s : WorkState Q) : Prop where
  count : ∀ t < threadCnt, (s.csThreads t).workCnt = (s.csThreads t).workList.length
  mem : ∀ t < threadCnt, ∀ q, q ∈ (s.csThreads t).workList ↔ (s.descq q).cmplthp = some t
  nodup : ∀ t < threadCnt, (s.csThreads t).workList.Nodup
  thread : ∀ q t, (s.descq q).cmplthp = some t → t < threadCnt

/-- The count of a CPU is the number of the queues assigned to it. -/
structure CpusCount (cpuCount : ℕ) (s : WorkState Q) : Prop where
  finite : ∀ c < cpuCount, (s.onCpu c).Finite
  count : ∀ c < cpuCount, s.perCpuQcnt c = (s.onCpu c).ncard
  cpu : ∀ q, (s.descq q).cpuAssigned = true → (s.descq q).intrWorkCpu < cpuCount

theorem ThreadsCount.nonneg (h : ThreadsCount threadCnt s) :
    ∀ t < threadCnt, 0 ≤ (s.csThreads t).workCnt := fun t ht =>
  (h.count t ht).symm ▸ Int.natCast_nonneg _

theorem CpusCount.nonneg (h : CpusCount cpuCount s) : ∀ c < cpuCount, 0 ≤ s.perCpuQcnt c :=
  fun c hc => (h.count c hc).symm ▸ Int.natCast_nonneg _

/-- Calls that leave the threads and the thread of every queue alone. -/
theorem ThreadsCount.congr (h : ThreadsCount threadCnt s) {s' : WorkState Q}
    (hthreads : s'.csThreads = s.csThreads)
    (hdescq : ∀ q, (s'.descq q).cmplthp = (s.descq q).cmplthp) : ThreadsCount threadCnt s' where
  count := hthreads ▸ h.count
  mem t ht q := by rw [hthreads, hdescq, h.mem t ht q]
  nodup := hthreads ▸ h.nodup
  thread q t hq := h.thread q t (hdescq q ▸ hq)

/-- Calls that leave the counts and the CPU of every assigned queue alone. -/
theorem CpusCount.congr (h : CpusCount cpuCount s) {s' : WorkState Q}
    (hcnt : s'.perCpuQcnt = s.perCpuQcnt) (hcpu : ∀ c, s'.onCpu c = s.onCpu c) :
    CpusCount cpuCount s' where
  finite c hc := hcpu c ▸ h.finite c hc
  count c hc := by rw [hcnt, hcpu, h.count c hc]
  cpu q hq := by
    have hmem : q ∈ s.onCpu (s'.descq q).intrWorkCpu := hcpu _ ▸ ⟨hq, rfl⟩
    exact hmem.2 ▸ h.cpu q hmem.1

/-- A queue without a CPU gets one. -/
theorem CpusCount.add (h : CpusCount cpuCount s) {q : Q} {c : ℕ} (hc : c < cpuCount)
    (hfree : (s.descq q).cpuAssigned = false) {s' : WorkState Q}
    (hcnt : s'.perCpuQcnt = Function.update s.perCpuQcnt c (s.perCpuQcnt c + 1))
    (hcpu : ∀ d, s'.onCpu d = if d = c then insert q (s.onCpu c) else s.onCpu d) :
    CpusCount cpuCount s' where
  finite d hd := by
    rw [hcpu]
    split
    · exact (h.finite c hc).insert q
    · exact h.finite d hd
  count d hd := by
    have hnot : q ∉ s.onCpu c := fun hin => absurd hin.1 (by simp [hfree])
    rw [hcnt, hcpu]
    by_cases hdc : d = c
    · rw [hdc, Function.update_self, if_pos rfl, Set.ncard_insert_of_notMem hnot (h.finite c hc),
        h.count c hc]
      rfl
    · rw [Function.update_of_ne hdc, if_neg hdc, h.count d hd]
  cpu p hp := by
    have hmem : p ∈ s'.onCpu (s'.descq p).intrWorkCpu := ⟨hp, rfl⟩
    rw [hcpu] at hmem
    split at hmem
    next heq => exact heq ▸ hc
    next => exact hmem.2 ▸ h.cpu p hmem.1

/-- A queue leaves its CPU. -/
theorem CpusCount.remove (h : CpusCount cpuCount s) {q : Q}
    (hassigned : (s.descq q).cpuAssigned = true) {s' : WorkState Q}
    (hcnt : s'.perCpuQcnt = Function.update s.perCpuQcnt (s.descq q).intrWorkCpu
      (s.perCpuQcnt (s.descq q).intrWorkCpu - 1))
    (hcpu : ∀ d, s'.onCpu d = s.onCpu d \ {q}) : CpusCount cpuCount s' where
  finite d hd := hcpu d ▸ (h.finite d hd).sdiff
  count d hd := by
    rw [hcnt, hcpu]
    by_cases hdc : d = (s.descq q).intrWorkCpu
    · have hmem : q ∈ s.onCpu d := ⟨hassigned, hdc.symm⟩
      have hpos : 0 < (s.onCpu d).ncard := (Set.ncard_pos (h.finite d hd)).mpr ⟨q, hmem⟩
      rw [← hdc, Function.update_self, h.count d hd, Set.ncard_sdiff_singleton_of_mem hmem]
      omega
    · have hnot : q ∉ s.onCpu d := fun hin => hdc hin.2.symm
      rw [Function.update_of_ne hdc, h.count d hd, Set.sdiff_singleton_eq_self hnot]
  cpu p hp := by
    have hmem : p ∈ s'.onCpu (s'.descq p).intrWorkCpu := ⟨hp, rfl⟩
    rw [hcpu] at hmem
    exact hmem.1.2 ▸ h.cpu p hmem.1.1

variable [DecidableEq Q]

/-- A queue that no thread has is put on the list of one. -/
theorem ThreadsCount.add (h : ThreadsCount threadCnt s) {q : Q} {t : ℕ} (ht : t < threadCnt)
    (hfree : (s.descq q).cmplthp = none) {s' : WorkState Q}
    (hthreads : s'.csThreads = Function.update s.csThreads t
      { workList := (s.csThreads t).workList ++ [q], workCnt := (s.csThreads t).workCnt + 1 })
    (hq : (s'.descq q).cmplthp = some t)
    (hother : ∀ p ≠ q, (s'.descq p).cmplthp = (s.descq p).cmplthp) :
    ThreadsCount threadCnt s' where
  count u hu := by
    rw [hthreads]
    by_cases hut : u = t
    · rw [hut, Function.update_self, List.length_append, h.count t ht]
      rfl
    · rw [Function.update_of_ne hut, h.count u hu]
  mem u hu p := by
    rw [hthreads]
    by_cases hpq : p = q
    · subst hpq
      have hnot : p ∉ (s.csThreads u).workList := fun hin =>
        absurd ((h.mem u hu p).mp hin) (by simp [hfree])
      rw [hq, Option.some.injEq]
      by_cases hut : u = t
      · rw [hut, Function.update_self]
        simp
      · rw [Function.update_of_ne hut]
        exact iff_of_false hnot (Ne.symm hut)
    · rw [hother p hpq, ← h.mem u hu p]
      by_cases hut : u = t
      · rw [hut, Function.update_self]
        simp [hpq]
      · rw [Function.update_of_ne hut]
  nodup u hu := by
    rw [hthreads]
    by_cases hut : u = t
    · have hnot : q ∉ (s.csThreads t).workList := fun hin =>
        absurd ((h.mem t ht q).mp hin) (by simp [hfree])
      rw [hut, Function.update_self]
      exact List.nodup_append_comm.mp (List.nodup_cons.mpr ⟨hnot, h.nodup t ht⟩)
    · rw [Function.update_of_ne hut]
      exact h.nodup u hu
  thread p u hp := by
    by_cases hpq : p = q
    · subst hpq
      exact Option.some.inj (hq.symm.trans hp) ▸ ht
    · exact h.thread p u (hother p hpq ▸ hp)

/-- A queue is taken off the list of its thread. -/
theorem ThreadsCount.remove (h : ThreadsCount threadCnt s) {q : Q} {t : ℕ}
    (hthread : (s.descq q).cmplthp = some t) {s' : WorkState Q}
    (hthreads : s'.csThreads = Function.update s.csThreads t
      { workList := (s.csThreads t).workList.erase q, workCnt := (s.csThreads t).workCnt - 1 })
    (hq : (s'.descq q).cmplthp = none)
    (hother : ∀ p ≠ q, (s'.descq p).cmplthp = (s.descq p).cmplthp) :
    ThreadsCount threadCnt s' := by
  have ht := h.thread q t hthread
  have hin : q ∈ (s.csThreads t).workList := (h.mem t ht q).mpr hthread
  refine ⟨fun u hu => ?_, fun u hu p => ?_, fun u hu => ?_, fun p u hp => ?_⟩
  · rw [hthreads]
    by_cases hut : u = t
    · have hpos := List.length_pos_of_mem hin
      rw [hut, Function.update_self, List.length_erase_of_mem hin, h.count t ht,
        Nat.cast_sub hpos]
      rfl
    · rw [Function.update_of_ne hut, h.count u hu]
  · rw [hthreads]
    by_cases hpq : p = q
    · subst hpq
      rw [hq]
      by_cases hut : u = t
      · rw [hut, Function.update_self]
        exact iff_of_false (h.nodup t ht).not_mem_erase (by simp)
      · rw [Function.update_of_ne hut, h.mem u hu p, hthread]
        simpa using Ne.symm hut
    · rw [hother p hpq, ← h.mem u hu p]
      by_cases hut : u = t
      · rw [hut, Function.update_self]
        exact List.mem_erase_of_ne hpq
      · rw [Function.update_of_ne hut]
  · rw [hthreads]
    by_cases hut : u = t
    · rw [hut, Function.update_self]
      exact (h.nodup t ht).erase q
    · rw [Function.update_of_ne hut]
      exact h.nodup u hu
  · have hpq : p ≠ q := by
      rintro rfl
      rw [hq] at hp
      cases hp
    exact h.thread p u (hother p hpq ▸ hp)

end Counters

/-! ## Sequences of calls -/

section Calls

variable {Q : Type} [DecidableEq Q] (cpuCount threadCnt : ℕ)

/-- A call of the thread functions. -/
inductive WorkCall (Q : Type)
  | add (mode : DrvMode) (descq : Q)
  | remove (descq : Q)
  deriving DecidableEq, Repr

/-- The state after a call. -/
def workCall (s : WorkState Q) : WorkCall Q → WorkState Q
  | .add mode descq => qdmaThreadAddWork cpuCount threadCnt mode descq s
  | .remove descq => qdmaThreadRemoveWork cpuCount descq s

omit [DecidableEq Q] in
/-- A queue is added only when it is not added yet. -/
def Fresh (s : WorkState Q) : WorkCall Q → Prop
  | .add _ descq => ¬ s.Added descq
  | .remove _ => True

instance : ∀ (s : WorkState Q) (call : WorkCall Q), Decidable (Fresh s call)
  | s, .add _ descq => inferInstanceAs (Decidable (¬ s.Added descq))
  | _, .remove _ => inferInstanceAs (Decidable True)

/-- The queue that is added is given to a thread or a CPU whose load before the call is minimal. -/
def GivenToLeast (s : WorkState Q) : WorkCall Q → Prop
  | .add mode descq =>
    let q := (qdmaThreadAddWork cpuCount threadCnt mode descq s).descq descq
    if mode ≠ .poll then q.cpuAssigned = true ∧ Least cpuCount s.perCpuQcnt q.intrWorkCpu
    else ∃ t, q.cmplthp = some t ∧ Least threadCnt (fun t => (s.csThreads t).workCnt) t
  | .remove _ => True

omit [DecidableEq Q] in
/-- In poll mode, the search over the threads ends at a least loaded one. -/
def SearchEnds (s : WorkState Q) : WorkCall Q → Prop
  | .add mode _ => mode = .poll → LastIsLeast threadCnt fun t => (s.csThreads t).workCnt
  | .remove _ => True

omit [DecidableEq Q] in
/-- Every counter is the number of queues that it counts, and not below zero. -/
structure CountersExact (s : WorkState Q) : Prop where
  work : ∀ t < threadCnt, (s.csThreads t).workCnt = (s.csThreads t).workList.length
  cpu : ∀ c < cpuCount, (s.onCpu c).Finite ∧ s.perCpuQcnt c = (s.onCpu c).ncard
  work_nonneg : ∀ t < threadCnt, 0 ≤ (s.csThreads t).workCnt
  cpu_nonneg : ∀ c < cpuCount, 0 ≤ s.perCpuQcnt c

variable {cpuCount threadCnt} {s : WorkState Q}

omit [DecidableEq Q] in
theorem countersExact (hthreads : ThreadsCount threadCnt s) (hcpus : CpusCount cpuCount s) :
    CountersExact cpuCount threadCnt s where
  work := hthreads.count
  cpu c hc := ⟨hcpus.finite c hc, hcpus.count c hc⟩
  work_nonneg := hthreads.nonneg
  cpu_nonneg := hcpus.nonneg

omit [DecidableEq Q] in
/-- Nothing is counted before the first queue is added. -/
theorem counts_start : ThreadsCount threadCnt ({} : WorkState Q) ∧
    CpusCount cpuCount ({} : WorkState Q) := by
  have hnone (c : ℕ) : ({} : WorkState Q).onCpu c = ∅ := by simp [WorkState.onCpu]
  refine ⟨⟨fun _ _ => rfl, fun _ _ _ => by simp, fun _ _ => List.nodup_nil, by simp⟩,
    ⟨fun c _ => hnone c ▸ Set.finite_empty, fun c _ => ?_, by simp⟩⟩
  rw [hnone, Set.ncard_empty]
  rfl

theorem addWork_intr {mode : DrvMode} (hmode : mode ≠ .poll) (hcpu : 0 < cpuCount) {q : Q}
    (hfree : ¬ s.Added q) (hthreads : ThreadsCount threadCnt s) (hcpus : CpusCount cpuCount s) :
    ThreadsCount threadCnt (qdmaThreadAddWork cpuCount threadCnt mode q s) ∧
      CpusCount cpuCount (qdmaThreadAddWork cpuCount threadCnt mode q s) := by
  have hfree : (s.descq q).cpuAssigned = false := by
    simpa using fun h => hfree (Or.inl h)
  rw [qdmaThreadAddWork, if_pos hmode]
  refine ⟨hthreads.congr rfl fun p => ?_,
    hcpus.add (least_pickCpu hcpu hcpus.nonneg).1 hfree rfl fun c => Set.ext fun p => ?_⟩
  · by_cases hpq : p = q
    · subst hpq
      simp
    · simp [Function.update_of_ne hpq]
  · by_cases hpq : p = q
    · subst hpq
      simp only [WorkState.onCpu, Set.mem_ofPred_eq, Function.update_self, true_and]
      split
      next heq => simp [heq]
      next hne => simp [Ne.symm hne, hfree]
    · simp only [WorkState.onCpu, Set.mem_ofPred_eq, Function.update_of_ne hpq]
      split
      next heq => simp [heq, hpq]
      next => rfl

theorem addWork_poll (hcnt : 0 < threadCnt) {q : Q} (hfree : ¬ s.Added q)
    (hthreads : ThreadsCount threadCnt s) (hcpus : CpusCount cpuCount s) :
    ThreadsCount threadCnt (qdmaThreadAddWork cpuCount threadCnt .poll q s) ∧
      CpusCount cpuCount (qdmaThreadAddWork cpuCount threadCnt .poll q s) := by
  have hcpufree : (s.descq q).cpuAssigned = false := by
    simpa using fun h => hfree (Or.inl h)
  have hfree : (s.descq q).cmplthp = none := by
    by_contra h
    exact hfree (Or.inr h)
  rw [qdmaThreadAddWork, if_neg (by simp)]
  refine ⟨hthreads.add (pickThread_lt hcnt) hfree rfl (by simp) fun p hpq => ?_,
    hcpus.congr rfl fun c => Set.ext fun p => ?_⟩
  · simp [Function.update_of_ne hpq]
  · by_cases hpq : p = q
    · subst hpq
      simp [WorkState.onCpu, hcpufree]
    · simp [WorkState.onCpu, Function.update_of_ne hpq]

theorem removeWork_descq (q : Q) : (qdmaThreadRemoveWork cpuCount q s).descq =
    Function.update s.descq q { s.descq q with cmplthp := none, cpuAssigned := false } := by
  rw [qdmaThreadRemoveWork]
  cases (s.descq q).cmplthp <;> dsimp only <;> split_ifs <;> rfl

theorem removeWork_csThreads (q : Q) : (qdmaThreadRemoveWork cpuCount q s).csThreads =
    match (s.descq q).cmplthp with
    | none => s.csThreads
    | some t => Function.update s.csThreads t
      { workList := (s.csThreads t).workList.erase q, workCnt := (s.csThreads t).workCnt - 1 } := by
  rw [qdmaThreadRemoveWork]
  cases (s.descq q).cmplthp <;> dsimp only <;> split_ifs <;> rfl

theorem removeWork_perCpuQcnt (q : Q) : (qdmaThreadRemoveWork cpuCount q s).perCpuQcnt =
    if (s.descq q).cpuAssigned = true ∧ (s.descq q).intrWorkCpu < cpuCount then
      Function.update s.perCpuQcnt (s.descq q).intrWorkCpu
        (s.perCpuQcnt (s.descq q).intrWorkCpu - 1)
    else s.perCpuQcnt := by
  rw [qdmaThreadRemoveWork]
  cases (s.descq q).cmplthp <;> cases (s.descq q).cpuAssigned <;>
    by_cases hlt : (s.descq q).intrWorkCpu < cpuCount <;> simp [hlt]

theorem removeWork_counts (q : Q) (hthreads : ThreadsCount threadCnt s)
    (hcpus : CpusCount cpuCount s) :
    ThreadsCount threadCnt (qdmaThreadRemoveWork cpuCount q s) ∧
      CpusCount cpuCount (qdmaThreadRemoveWork cpuCount q s) := by
  have hother : ∀ p ≠ q, (qdmaThreadRemoveWork cpuCount q s).descq p = s.descq p := fun p hpq => by
    rw [removeWork_descq, Function.update_of_ne hpq]
  have hown : (qdmaThreadRemoveWork cpuCount q s).descq q =
      { s.descq q with cmplthp := none, cpuAssigned := false } := by
    rw [removeWork_descq, Function.update_self]
  have hmem (c : ℕ) : (qdmaThreadRemoveWork cpuCount q s).onCpu c = s.onCpu c \ {q} := by
    ext p
    by_cases hpq : p = q
    · subst hpq
      simp [WorkState.onCpu, hown]
    · simp [WorkState.onCpu, hother p hpq, hpq]
  constructor
  · cases hthread : (s.descq q).cmplthp with
    | none =>
      refine hthreads.congr (by rw [removeWork_csThreads, hthread]) fun p => ?_
      by_cases hpq : p = q
      · subst hpq
        rw [hown, hthread]
      · rw [hother p hpq]
    | some t =>
      refine hthreads.remove hthread (by rw [removeWork_csThreads, hthread]) (by rw [hown]) ?_
      intro p hpq
      rw [hother p hpq]
  · cases hassigned : (s.descq q).cpuAssigned with
    | false =>
      refine hcpus.congr (by simp [removeWork_perCpuQcnt, hassigned]) fun c => ?_
      have hnot : q ∉ s.onCpu c := fun hin => absurd hin.1 (by simp [hassigned])
      rw [hmem, Set.sdiff_singleton_eq_self hnot]
    | true =>
      refine hcpus.remove hassigned ?_ hmem
      rw [removeWork_perCpuQcnt, if_pos ⟨hassigned, hcpus.cpu q hassigned⟩]

/-- A call keeps the counters exact. -/
theorem workCall_counts (hcpu : 0 < cpuCount) (hcnt : 0 < threadCnt) {call : WorkCall Q}
    (hfresh : Fresh s call) (hthreads : ThreadsCount threadCnt s) (hcpus : CpusCount cpuCount s) :
    ThreadsCount threadCnt (workCall cpuCount threadCnt s call) ∧
      CpusCount cpuCount (workCall cpuCount threadCnt s call) := by
  cases call with
  | add mode q =>
    by_cases hmode : mode = .poll
    · subst hmode
      exact addWork_poll hcnt hfresh hthreads hcpus
    · exact addWork_intr hmode hcpu hfresh hthreads hcpus
  | remove q => exact removeWork_counts q hthreads hcpus

/-- A queue is given to a least loaded thread or CPU exactly if the search ends at one. -/
theorem givenToLeast_iff (hcpu : 0 < cpuCount) (hcnt : 0 < threadCnt) (call : WorkCall Q)
    (hthreads : ThreadsCount threadCnt s) (hcpus : CpusCount cpuCount s) :
    GivenToLeast cpuCount threadCnt s call ↔ SearchEnds threadCnt s call := by
  cases call with
  | remove q => exact Iff.rfl
  | add mode q =>
    by_cases hmode : mode = .poll
    · subst hmode
      have hq : ((qdmaThreadAddWork cpuCount threadCnt .poll q s).descq q).cmplthp =
          some (pickThread threadCnt fun t => (s.csThreads t).workCnt) := by
        simp [qdmaThreadAddWork]
      have hpick := least_pickThread_iff hcnt hthreads.nonneg
      constructor
      · intro h _
        obtain ⟨t, ht, hleast⟩ := h
        rw [hq, Option.some.injEq] at ht
        exact hpick.mp (ht ▸ hleast)
      · intro h
        exact ⟨_, hq, hpick.mpr (h rfl)⟩
    · have hq : (qdmaThreadAddWork cpuCount threadCnt mode q s).descq q =
          { s.descq q with cpuAssigned := true, intrWorkCpu := pickCpu cpuCount s.perCpuQcnt } := by
        simp [qdmaThreadAddWork, hmode]
      refine iff_of_true ?_ fun h => absurd h hmode
      rw [GivenToLeast, if_pos hmode, hq]
      exact ⟨rfl, least_pickCpu hcpu hcpus.nonneg⟩

/-- In every sequence of calls from the start on, in which a queue is added only when it is not
added yet, the counters stay exact, and every queue is given to a least loaded thread or CPU exactly
if each search over the threads ends at a least loaded one. -/
theorem workCalls_balanced_iff {cpuCount numThreads : ℕ} (hcpu : 0 < cpuCount)
    {calls : List (WorkCall Q)}
    (hfresh : Admitted (workCall cpuCount (threadCount cpuCount numThreads)) Fresh {} calls) :
    (Admitted (workCall cpuCount (threadCount cpuCount numThreads))
        (GivenToLeast cpuCount (threadCount cpuCount numThreads)) {} calls ∧
      Always (workCall cpuCount (threadCount cpuCount numThreads))
        (CountersExact cpuCount (threadCount cpuCount numThreads)) {} calls) ↔
      Admitted (workCall cpuCount (threadCount cpuCount numThreads))
        (SearchEnds (threadCount cpuCount numThreads)) {} calls := by
  have hcnt : 0 < threadCount cpuCount numThreads := by
    unfold threadCount
    split <;> omega
  have hany : Admitted (workCall cpuCount (threadCount cpuCount numThreads)) (fun _ _ => True) {}
      calls := hfresh.imp fun _ _ _ => trivial
  have halways := Admitted.always (I := fun s => ThreadsCount _ s ∧ CpusCount cpuCount s)
    (P := CountersExact cpuCount (threadCount cpuCount numThreads))
    (fun s h => countersExact h.1 h.2)
    (fun s call h hfresh _ => workCall_counts hcpu hcnt hfresh h.1 h.2) counts_start hfresh hany
  rw [and_iff_left halways]
  exact hfresh.congr (I := fun s => ThreadsCount _ s ∧ CpusCount cpuCount s)
    (fun s call h hfresh _ => workCall_counts hcpu hcnt hfresh h.1 h.2)
    (fun s call h _ => givenToLeast_iff hcpu hcnt call h.1 h.2) counts_start

/-- Seven queues are added to three threads, and the first one is removed. -/
def sevenQueues : List (WorkCall ℕ) := (List.range 7).map (WorkCall.add .poll) ++ [.remove 0]

/-- With three, one and two queues on the threads, the next one is given to the third thread. -/
theorem eighthQueue_not_least :
    Admitted (workCall 1 (threadCount 1 3)) Fresh {} (sevenQueues ++ [.add .poll 7]) ∧
      ¬ Admitted (workCall 1 (threadCount 1 3)) (GivenToLeast 1 (threadCount 1 3)) {}
        (sevenQueues ++ [.add .poll 7]) := by
  refine ⟨by decide +kernel, fun h => ?_⟩
  obtain ⟨t, ht, hleast⟩ := (admitted_append.mp h).2.1
  have htwo : ((qdmaThreadAddWork 1 (threadCount 1 3) .poll 7
      (run (workCall 1 (threadCount 1 3)) {} sevenQueues)).descq 7).cmplthp = some 2 := by
    decide +kernel
  obtain rfl : t = 2 := Option.some.inj (ht.symm.trans htwo)
  have hload : ¬ ((run (workCall 1 (threadCount 1 3)) {} sevenQueues).csThreads 2).workCnt ≤
      ((run (workCall 1 (threadCount 1 3)) {} sevenQueues).csThreads 1).workCnt := by
    decide +kernel
  exact hload (hleast.2 1 (by decide))

/-- The first three of them. -/
theorem threeQueues_balanced :
    Admitted (workCall 1 (threadCount 1 3)) (GivenToLeast 1 (threadCount 1 3)) {}
        (sevenQueues.take 3) ∧
      Always (workCall 1 (threadCount 1 3)) (CountersExact 1 (threadCount 1 3)) {}
        (sevenQueues.take 3) := by
  refine (workCalls_balanced_iff (by decide) (by decide)).mpr ?_
  refine ⟨fun _ => Or.inl ⟨0, by decide, by decide⟩, fun _ => Or.inl ⟨0, by decide, by decide⟩,
    fun _ => Or.inl ⟨0, by decide, by decide⟩, trivial⟩

end Calls

end OnicDriver.Queue
