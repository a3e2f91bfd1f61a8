import OnicDriver.C2h.Completion
import OnicDriver.Lib.Runs
import Mathlib.Data.Finset.Card
import Mathlib.Order.Nat

/-!
# The adaptive completion counter

A streaming C2H queue in adaptive mode walks along the sorted table of counter
thresholds. The invariant is that the threshold of the place where the queue
stands lies between the two averages at which it looks down and up. A queue that
looks down because it stagnates may have an average above its threshold.
-/

namespace OnicDriver.C2h

open Lib

/-- One call of `descq_adjust_c2h_cntr_th`: both arguments are unsigned ints. -/
structure Observation where
  pend : ℕ
  budget : ℕ
  pend_lt : pend < 2 ^ 32 := by decide
  budget_lt : budget < 2 ^ 32 := by decide

/-- The threshold at a place of the sorted table. -/
def C2hConf.thAt (conf : C2hConf) (i : ℕ) : ℕ := conf.c2hCntTh (conf.sortedC2hCntrIdx i)

/-- The threshold that the device uses for the queue. -/
def C2hQueue.threshold (conf : C2hConf) (q : C2hQueue) : ℕ :=
  conf.c2hCntTh q.cmptCidxInfo.counterIdx

/-- The average once an observation is taken in. -/
def C2hQueue.average (q : C2hQueue) (o : Observation) : ℕ :=
  u32 (q.c2hPendPktMovingAvg + o.pend) / 2

/-- The queue takes in an observation. -/
def observe (conf : C2hConf) (q : C2hQueue) (o : Observation) : C2hQueue :=
  descqAdjustC2hCntrTh conf o.pend o.budget q

/-! ## The subtractions of a step -/

/-- The subtractions that `descq_incr_c2h_cntr_th` evaluates, minuend first. -/
def incrSubtractions (conf : C2hConf) (q : C2hQueue) : List (ℕ × ℕ) :=
  if q.sortedC2hCntrIdx = QDMA_GLOBAL_CSR_ARRAY_SZ - 1 then []
  else
    let i := q.sortedC2hCntrIdx
    let valCurr := conf.thAt i % 2 ^ 8
    let valNew := conf.thAt (i + 1) % 2 ^ 8
    if valNew ≥ q.c2hPendPktMovingAvg then
      [(valNew, q.c2hPendPktMovingAvg), (q.c2hPendPktMovingAvg, valCurr)]
    else []

/-- The subtractions that `descq_decr_c2h_cntr_th` evaluates, minuend first. -/
def decrSubtractions (conf : C2hConf) (budget : ℕ) (q : C2hQueue) : List (ℕ × ℕ) :=
  if q.sortedC2hCntrIdx = 0 then []
  else
    let i := q.sortedC2hCntrIdx
    let avg := q.c2hPendPktMovingAvg
    let valCurr : ℕ := conf.thAt i % 2 ^ 8
    let valNew : ℕ := conf.thAt (i - 1) % 2 ^ 8
    let closest := valNew ≤ avg ∧ u32 (avg - valNew) ≥ u32 (valCurr - avg)
    (if valNew ≤ avg then [(avg, valNew), (valCurr, avg)] else []) ++
      if ¬ closest ∧ conf.latencyOptimize = false then [(budget, 2)] else []

/-- The subtractions that the two steps evaluate when the queue takes in an observation. -/
def subtractions (conf : C2hConf) (q : C2hQueue) (o : Observation) : List (ℕ × ℕ) :=
  let q := { q with c2hPendPktMovingAvg := q.average o }
  if q.c2hPendPktAvgThrHi ≤ q.c2hPendPktMovingAvg then incrSubtractions conf q
  else if q.c2hPendPktAvgThrLo ≥ q.c2hPendPktMovingAvg then decrSubtractions conf o.budget q
  else if (q.c2hCntrMonitorCnt + 1) % 2 ^ 8 = MAX_C2H_CNTR_STAGNANT_CNT then
    decrSubtractions conf o.budget q
  else []

/-! ## What the queue should do -/

/-- The queue stands at a place of the table, and its two averages are in order. -/
structure Placed (conf : C2hConf) (q : C2hQueue) : Prop where
  idx_le : q.sortedC2hCntrIdx ≤ 15
  counterIdx : q.cmptCidxInfo.counterIdx = conf.sortedC2hCntrIdx q.sortedC2hCntrIdx
  thr_le : q.c2hPendPktAvgThrLo ≤ q.c2hPendPktAvgThrHi

/-- The queue takes in an observation as it should: it moves by one place at most, nothing wraps,
it goes up and down with the average, and not below the budget outside latency mode. -/
structure Adapts (conf : C2hConf) (q : C2hQueue) (o : Observation) : Prop where
  idx_le : (observe conf q o).sortedC2hCntrIdx ≤ q.sortedC2hCntrIdx + 1
  le_idx : q.sortedC2hCntrIdx ≤ (observe conf q o).sortedC2hCntrIdx + 1
  fits : ∀ s ∈ subtractions conf q o, s.2 ≤ s.1
  up : q.sortedC2hCntrIdx < (observe conf q o).sortedC2hCntrIdx → q.threshold conf ≤ q.average o
  down : (observe conf q o).sortedC2hCntrIdx < q.sortedC2hCntrIdx → q.average o ≤ q.threshold conf
  floor : conf.latencyOptimize = false →
    (observe conf q o).sortedC2hCntrIdx < q.sortedC2hCntrIdx →
      o.budget - 2 ≤ (observe conf q o).threshold conf

/-- The observation sends the queue to the decrease step. -/
def LooksDown (q : C2hQueue) (o : Observation) : Prop :=
  q.average o < q.c2hPendPktAvgThrHi ∧
    (q.average o ≤ q.c2hPendPktAvgThrLo ∨
      (q.c2hCntrMonitorCnt + 1) % 2 ^ 8 = MAX_C2H_CNTR_STAGNANT_CNT)

instance (q : C2hQueue) (o : Observation) : Decidable (LooksDown q o) := by
  unfold LooksDown
  infer_instance

/-- A step from the threshold `cur` down to `low` has an average that is not above `cur`, or is
below `low`, and outside latency mode a budget of at least 2, or an average closer to `cur`. -/
def DecrFits (latencyOptimize : Bool) (cur low avg budget : ℕ) : Prop :=
  (low ≤ avg → avg ≤ cur) ∧
    (latencyOptimize = false → 2 ≤ budget ∨ low ≤ avg ∧ low + cur ≤ 2 * avg)

/-- An observation that sends the queue to the decrease step fits the thresholds, which that step
reads as bytes. -/
def Steady (conf : C2hConf) (q : C2hQueue) (o : Observation) : Prop :=
  LooksDown q o → q.sortedC2hCntrIdx ≠ 0 →
    DecrFits conf.latencyOptimize (conf.thAt q.sortedC2hCntrIdx % 2 ^ 8)
      (conf.thAt (q.sortedC2hCntrIdx - 1) % 2 ^ 8) (q.average o) o.budget

instance (conf : C2hConf) (q : C2hQueue) (o : Observation) : Decidable (Steady conf q o) := by
  unfold Steady DecrFits
  infer_instance

/-! ## One step -/

/-- The thresholds increase along the sorted table. -/
structure SortedTable (conf : C2hConf) : Prop where
  index_lt : ∀ i < QDMA_GLOBAL_CSR_ARRAY_SZ, conf.sortedC2hCntrIdx i < QDMA_GLOBAL_CSR_ARRAY_SZ
  increasing : ∀ i j, i < j → j < QDMA_GLOBAL_CSR_ARRAY_SZ → conf.thAt i < conf.thAt j

/-- The queue stands at a place of the table, whose threshold is between its two averages. -/
structure Tuned (conf : C2hConf) (q : C2hQueue) : Prop where
  idx_le : q.sortedC2hCntrIdx ≤ 15
  counterIdx : q.cmptCidxInfo.counterIdx = conf.sortedC2hCntrIdx q.sortedC2hCntrIdx
  lo_le : q.c2hPendPktAvgThrLo ≤ conf.thAt q.sortedC2hCntrIdx
  le_hi : conf.thAt q.sortedC2hCntrIdx ≤ q.c2hPendPktAvgThrHi

/-- The queue moves to a place of the table, before its averages are adjusted. -/
def C2hQueue.moveTo (conf : C2hConf) (i : ℕ) (q : C2hQueue) : C2hQueue :=
  { q with
    cmptCidxInfo := { q.cmptCidxInfo with counterIdx := conf.sortedC2hCntrIdx i }
    sortedC2hCntrIdx := i, c2hCntrMonitorCnt := 0 }

/-- The queue stays, with another average and count. -/
def C2hQueue.settle (avg cnt : ℕ) (q : C2hQueue) : C2hQueue :=
  { q with c2hPendPktMovingAvg := avg, c2hCntrMonitorCnt := cnt }

section

variable {conf : C2hConf} {q : C2hQueue} {o : Observation}

theorem average_lt (q : C2hQueue) (o : Observation) : q.average o < 2 ^ 31 := by
  have := u32_lt (q.c2hPendPktMovingAvg + o.pend)
  unfold C2hQueue.average
  omega

theorem u32_natSub {a b : ℕ} (hle : b ≤ a) (ha : a < 2 ^ 32) : u32 ((a : ℤ) - b) = a - b := by
  unfold u32
  omega

theorem Tuned.placed (h : Tuned conf q) : Placed conf q :=
  ⟨h.idx_le, h.counterIdx, h.lo_le.trans h.le_hi⟩

theorem Tuned.threshold (h : Tuned conf q) :
    q.threshold conf = conf.thAt q.sortedC2hCntrIdx := by
  rw [C2hQueue.threshold, h.counterIdx, C2hConf.thAt]

theorem Tuned.settle (h : Tuned conf q) (avg cnt : ℕ) : Tuned conf (q.settle avg cnt) :=
  ⟨h.idx_le, h.counterIdx, h.lo_le, h.le_hi⟩

theorem SortedTable.le (h : SortedTable conf) {i j : ℕ} (hij : i ≤ j) (hj : j ≤ 15) :
    conf.thAt i ≤ conf.thAt j := by
  rcases Nat.eq_or_lt_of_le hij with rfl | hlt
  · exact le_rfl
  · exact (h.increasing i j hlt (Nat.lt_succ_of_le hj)).le

/-! ### The shape of a step -/

theorem descqIncrC2hCntrTh_cases (conf : C2hConf) (q : C2hQueue) :
    (∃ cnt, descqIncrC2hCntrTh conf q = q.settle q.c2hPendPktMovingAvg cnt) ∨
      q.sortedC2hCntrIdx ≠ 15 ∧ descqIncrC2hCntrTh conf q =
        descqAdjustC2hCntrAvgs conf (q.moveTo conf (q.sortedC2hCntrIdx + 1)) := by
  unfold descqIncrC2hCntrTh
  dsimp only
  split_ifs with hlast hclosest hhalf
  · exact Or.inl ⟨q.c2hCntrMonitorCnt, rfl⟩
  · exact Or.inl ⟨0, rfl⟩
  · exact Or.inr ⟨hlast, rfl⟩
  · exact Or.inl ⟨0, rfl⟩

/-- A queue moves down when it is not closest to its threshold, and not below the budget. -/
theorem descqDecrC2hCntrTh_cases (conf : C2hConf) (budget : ℕ) (q : C2hQueue) :
    (∃ cnt, descqDecrC2hCntrTh conf budget q = q.settle q.c2hPendPktMovingAvg cnt) ∨
      q.sortedC2hCntrIdx ≠ 0 ∧
      (conf.latencyOptimize = false →
        u32 (budget - 2) ≤ conf.thAt (q.sortedC2hCntrIdx - 1) % 2 ^ 8) ∧
      descqDecrC2hCntrTh conf budget q =
        descqAdjustC2hCntrAvgs conf (q.moveTo conf (q.sortedC2hCntrIdx - 1)) := by
  unfold descqDecrC2hCntrTh
  dsimp only
  split_ifs with hfirst hclosest hbudget
  · exact Or.inl ⟨q.c2hCntrMonitorCnt, rfl⟩
  · exact Or.inl ⟨0, rfl⟩
  · exact Or.inl ⟨0, rfl⟩
  · refine Or.inr ⟨hfirst, fun hlatency => ?_, rfl⟩
    exact not_lt.mp fun hlt => hbudget ⟨hlatency, hlt⟩

/-- The averages of a queue that moves depend on its place only. -/
theorem moveTo_settle (conf : C2hConf) (q : C2hQueue) (i avg cnt : ℕ) :
    descqAdjustC2hCntrAvgs conf ((q.settle avg cnt).moveTo conf i) =
      descqAdjustC2hCntrAvgs conf (q.moveTo conf i) := rfl

/-- What an observation does: the queue stays, it moves up from an average that is not below the
upper one, or it looks down and moves. -/
theorem observe_cases (conf : C2hConf) (q : C2hQueue) (o : Observation) :
    (∃ avg cnt, observe conf q o = q.settle avg cnt) ∨
      (q.c2hPendPktAvgThrHi ≤ q.average o ∧ q.sortedC2hCntrIdx ≠ 15 ∧
        observe conf q o =
          descqAdjustC2hCntrAvgs conf (q.moveTo conf (q.sortedC2hCntrIdx + 1))) ∨
      (LooksDown q o ∧ q.sortedC2hCntrIdx ≠ 0 ∧
        (conf.latencyOptimize = false →
          u32 (o.budget - 2) ≤ conf.thAt (q.sortedC2hCntrIdx - 1) % 2 ^ 8) ∧
        observe conf q o =
          descqAdjustC2hCntrAvgs conf (q.moveTo conf (q.sortedC2hCntrIdx - 1))) := by
  by_cases hhi : q.c2hPendPktAvgThrHi ≤ q.average o
  · have hobserve : observe conf q o =
        descqIncrC2hCntrTh conf (q.settle (q.average o) q.c2hCntrMonitorCnt) := if_pos hhi
    rw [hobserve]
    rcases descqIncrC2hCntrTh_cases conf (q.settle (q.average o) q.c2hCntrMonitorCnt) with
      ⟨cnt, hstay⟩ | ⟨hlast, hmove⟩
    · exact Or.inl ⟨_, cnt, hstay⟩
    · exact Or.inr (Or.inl ⟨hhi, hlast, hmove⟩)
  · by_cases hlo : q.average o ≤ q.c2hPendPktAvgThrLo
    · have hobserve : observe conf q o =
          descqDecrC2hCntrTh conf o.budget (q.settle (q.average o) q.c2hCntrMonitorCnt) :=
        (if_neg hhi).trans (if_pos hlo)
      rw [hobserve]
      rcases descqDecrC2hCntrTh_cases conf o.budget
        (q.settle (q.average o) q.c2hCntrMonitorCnt) with ⟨cnt, hstay⟩ | ⟨hfirst, hbudget, hmove⟩
      · exact Or.inl ⟨_, cnt, hstay⟩
      · exact Or.inr (Or.inr ⟨⟨not_le.mp hhi, Or.inl hlo⟩, hfirst, hbudget, hmove⟩)
    · by_cases hcnt : (q.c2hCntrMonitorCnt + 1) % 2 ^ 8 = MAX_C2H_CNTR_STAGNANT_CNT
      · have hobserve : observe conf q o =
            { descqDecrC2hCntrTh conf o.budget (q.settle (q.average o)
              ((q.c2hCntrMonitorCnt + 1) % 2 ^ 8)) with c2hCntrMonitorCnt := 0 } :=
          (if_neg hhi).trans ((if_neg hlo).trans (if_pos hcnt))
        rw [hobserve]
        rcases descqDecrC2hCntrTh_cases conf o.budget (q.settle (q.average o)
          ((q.c2hCntrMonitorCnt + 1) % 2 ^ 8)) with ⟨cnt, hstay⟩ | ⟨hfirst, hbudget, hmove⟩
        · rw [hstay]
          exact Or.inl ⟨_, 0, rfl⟩
        · rw [hmove]
          exact Or.inr (Or.inr ⟨⟨not_le.mp hhi, Or.inr hcnt⟩, hfirst, hbudget, rfl⟩)
      · exact Or.inl ⟨_, _, (if_neg hhi).trans ((if_neg hlo).trans (if_neg hcnt))⟩

/-! ### The invariant -/

/-- Half the sum of two values that are not below `c` is not below `c`. -/
theorem le_u32_half {a b c : ℕ} (ha : c ≤ a) (hb : c ≤ b) (ha' : a < 2 ^ 31) (hb' : b < 2 ^ 31) :
    c ≤ u32 ((a : ℤ) + b) / 2 := by
  unfold u32
  omega

/-- Half the sum of two values that are not above `c` is not above `c`. -/
theorem u32_half_le {a b c : ℕ} (ha : a ≤ c) (hb : b ≤ c) : u32 ((a : ℤ) + b) / 2 ≤ c := by
  unfold u32
  omega

/-- The threshold at the place above is not below the one at a place. -/
theorem SortedTable.le_above (h : SortedTable conf) {i : ℕ} (hi : i ≤ 15) :
    (if i = QDMA_GLOBAL_CSR_ARRAY_SZ - 1 then i else i + 1) ≤ 15 ∧
      conf.thAt i ≤ conf.thAt (if i = QDMA_GLOBAL_CSR_ARRAY_SZ - 1 then i else i + 1) := by
  split_ifs with hlast
  · exact ⟨hi, le_rfl⟩
  · have hi' : i + 1 ≤ 15 := by
      unfold QDMA_GLOBAL_CSR_ARRAY_SZ at hlast
      omega
    exact ⟨hi', h.le (Nat.le_succ i) hi'⟩

/-- The averages are adjusted around the threshold of the place. -/
theorem adjustAvgs_tuned (h : SortedTable conf) (hlt : ∀ i ≤ 15, conf.thAt i < 2 ^ 31)
    (hidx : q.sortedC2hCntrIdx ≤ 15)
    (hcounter : q.cmptCidxInfo.counterIdx = conf.sortedC2hCntrIdx q.sortedC2hCntrIdx) :
    Tuned conf (descqAdjustC2hCntrAvgs conf q) := by
  have hcur : conf.c2hCntTh q.cmptCidxInfo.counterIdx = conf.thAt q.sortedC2hCntrIdx := by
    rw [hcounter, C2hConf.thAt]
  obtain ⟨habove, hhi⟩ := h.le_above hidx
  have hlo : conf.thAt (if q.sortedC2hCntrIdx > 0 then q.sortedC2hCntrIdx - 1
      else q.sortedC2hCntrIdx) ≤ conf.thAt q.sortedC2hCntrIdx := by
    split_ifs
    · exact h.le (Nat.sub_le _ _) hidx
    · exact le_rfl
  by_cases hlatency : conf.latencyOptimize = true
  · refine ⟨hidx, hcounter, ?_, ?_⟩
    · simp only [descqAdjustC2hCntrAvgs, if_pos hlatency]
      exact u32_half_le hlo hlo
    · simp only [descqAdjustC2hCntrAvgs, if_pos hlatency]
      exact le_u32_half hhi hhi (hlt _ habove) (hlt _ habove)
  · refine ⟨hidx, hcounter, ?_, ?_⟩
    · simp only [descqAdjustC2hCntrAvgs, if_neg hlatency]
      exact u32_half_le hcur.le hlo
    · simp only [descqAdjustC2hCntrAvgs, if_neg hlatency]
      exact le_u32_half hcur.ge hhi (hcur ▸ hlt _ hidx) (hlt _ habove)

/-- The invariant is kept by every observation. -/
theorem Tuned.step (h : SortedTable conf) (hlt : ∀ i ≤ 15, conf.thAt i < 2 ^ 31)
    (hq : Tuned conf q) (o : Observation) : Tuned conf (observe conf q o) := by
  have hidx := hq.idx_le
  rcases observe_cases conf q o with ⟨avg, cnt, hstay⟩ | ⟨-, hlast, hup⟩ | ⟨-, -, -, hdown⟩
  · rw [hstay]
    exact hq.settle avg cnt
  · rw [hup]
    have hnext : q.sortedC2hCntrIdx + 1 ≤ 15 := by omega
    exact adjustAvgs_tuned h hlt hnext rfl
  · rw [hdown]
    have hnext : q.sortedC2hCntrIdx - 1 ≤ 15 := by omega
    exact adjustAvgs_tuned h hlt hnext rfl

/-- Every configured counter has a place in the table. -/
theorem SortedTable.exists_place (h : SortedTable conf)
    (hconf : conf.cmplCntThIdx < QDMA_GLOBAL_CSR_ARRAY_SZ) :
    ∃ i < QDMA_GLOBAL_CSR_ARRAY_SZ, conf.sortedC2hCntrIdx i = conf.cmplCntThIdx := by
  have hinj : Set.InjOn conf.sortedC2hCntrIdx (Finset.range QDMA_GLOBAL_CSR_ARRAY_SZ) := by
    intro i hi j hj hij
    rw [Finset.mem_coe, Finset.mem_range] at hi hj
    have hth : conf.thAt i = conf.thAt j := congrArg conf.c2hCntTh hij
    rcases lt_trichotomy i j with hlt | heq | hlt
    · exact absurd hth (h.increasing i j hlt hj).ne
    · exact heq
    · exact absurd hth (h.increasing j i hlt hi).ne'
  have hmaps : Set.MapsTo conf.sortedC2hCntrIdx (Finset.range QDMA_GLOBAL_CSR_ARRAY_SZ)
      (Finset.range QDMA_GLOBAL_CSR_ARRAY_SZ) := by
    intro i hi
    rw [Finset.mem_coe, Finset.mem_range] at hi ⊢
    exact h.index_lt i hi
  have hsurj := Finset.surjOn_of_injOn_of_card_le _ hmaps hinj le_rfl
  obtain ⟨i, hi, heq⟩ := hsurj (Finset.mem_coe.mpr (Finset.mem_range.mpr hconf))
  exact ⟨i, Finset.mem_range.mp (Finset.mem_coe.mp hi), heq⟩

/-- The search for the configured counter finds its place. -/
theorem SortedTable.find?_place (h : SortedTable conf)
    (hconf : conf.cmplCntThIdx < QDMA_GLOBAL_CSR_ARRAY_SZ) :
    ∃ i ≤ 15, conf.sortedC2hCntrIdx i = conf.cmplCntThIdx ∧
      (List.range QDMA_GLOBAL_CSR_ARRAY_SZ).find? (fun i =>
        decide (conf.cmplCntThIdx = conf.sortedC2hCntrIdx i)) = some i := by
  obtain ⟨j, hj, heq⟩ := h.exists_place hconf
  have hsome : ((List.range QDMA_GLOBAL_CSR_ARRAY_SZ).find? fun i =>
      decide (conf.cmplCntThIdx = conf.sortedC2hCntrIdx i)).isSome :=
    List.find?_isSome.mpr ⟨j, List.mem_range.mpr hj, decide_eq_true heq.symm⟩
  obtain ⟨i, hfind⟩ := Option.isSome_iff_exists.mp hsome
  have hi := List.mem_range.mp (List.mem_of_find?_eq_some hfind)
  have hplace : conf.cmplCntThIdx = conf.sortedC2hCntrIdx i := by
    simpa using List.find?_some hfind
  exact ⟨i, Nat.le_of_lt_succ hi, hplace.symm, hfind⟩

/-- A configured queue stands at the place of its counter, with its averages around it. -/
theorem SortedTable.configured (h : SortedTable conf) (hlt : ∀ i ≤ 15, conf.thAt i < 2 ^ 31)
    (hconf : conf.cmplCntThIdx < QDMA_GLOBAL_CSR_ARRAY_SZ) (q : C2hQueue) :
    Tuned conf (qdmaDescqConfigComplete conf q) := by
  obtain ⟨i, hi, hplace, hfind⟩ := h.find?_place hconf
  have hcur : conf.c2hCntTh conf.cmplCntThIdx = conf.thAt i := by rw [C2hConf.thAt, hplace]
  have hidx : (qdmaDescqConfigComplete conf q).sortedC2hCntrIdx = i := by
    simp only [qdmaDescqConfigComplete, hfind, Option.getD_some]
  have hlo : conf.thAt (if i = 0 then 0 else i - 1) ≤ conf.thAt i := by
    split_ifs
    · exact h.le (Nat.zero_le i) hi
    · exact h.le (Nat.sub_le _ _) hi
  obtain ⟨habove, hhi⟩ := h.le_above hi
  constructor
  · rwa [hidx]
  · rw [hidx]
    exact hplace.symm
  · rw [hidx]
    simp only [qdmaDescqConfigComplete, hfind, Option.getD_some]
    exact u32_half_le hcur.le hlo
  · rw [hidx]
    simp only [qdmaDescqConfigComplete, hfind, Option.getD_some]
    exact le_u32_half hcur.ge hhi (hcur ▸ hlt _ hi) (hlt _ habove)

/-! ### The steps that go as they should -/

/-- An average that is not below the threshold leaves the increase step without a wrap. -/
theorem incrSubtractions_fit {s : ℕ × ℕ}
    (havg : conf.thAt q.sortedC2hCntrIdx ≤ q.c2hPendPktMovingAvg)
    (hs : s ∈ incrSubtractions conf q) : s.2 ≤ s.1 := by
  unfold incrSubtractions at hs
  dsimp only at hs
  split_ifs at hs with hlast hnew
  · simp at hs
  · have hcur := Nat.mod_le (conf.thAt q.sortedC2hCntrIdx) (2 ^ 8)
    rcases List.mem_pair.mp hs with rfl | rfl
    · exact hnew
    · exact hcur.trans havg
  · simp at hs

/-- A value is closest to the upper one when it is at least halfway up from the lower one. -/
theorem closest_iff {avg low cur : ℕ} (havg : avg < 2 ^ 31) (hcur : cur < 2 ^ 8)
    (hfit : low ≤ avg → avg ≤ cur) :
    low ≤ avg ∧ u32 ((avg : ℤ) - low) ≥ u32 ((cur : ℤ) - avg) ↔
      low ≤ avg ∧ low + cur ≤ 2 * avg := by
  refine and_congr_right fun hlow => ?_
  rw [u32_natSub hlow (by omega), u32_natSub (hfit hlow) (by omega)]
  omega

/-- The subtractions of the decrease step, where it is reached. -/
theorem decrSubtractions_fit_iff (conf : C2hConf) (budget : ℕ) {q : C2hQueue}
    (havg : q.c2hPendPktMovingAvg < 2 ^ 31) (hfirst : q.sortedC2hCntrIdx ≠ 0) :
    (∀ s ∈ decrSubtractions conf budget q, s.2 ≤ s.1) ↔
      DecrFits conf.latencyOptimize (conf.thAt q.sortedC2hCntrIdx % 2 ^ 8)
        (conf.thAt (q.sortedC2hCntrIdx - 1) % 2 ^ 8) q.c2hPendPktMovingAvg budget := by
  have hcur : conf.thAt q.sortedC2hCntrIdx % 2 ^ 8 < 2 ^ 8 := Nat.mod_lt _ (by decide)
  rw [decrSubtractions, if_neg hfirst, List.forall_mem_append]
  generalize conf.thAt q.sortedC2hCntrIdx % 2 ^ 8 = cur at hcur ⊢
  generalize conf.thAt (q.sortedC2hCntrIdx - 1) % 2 ^ 8 = low
  generalize q.c2hPendPktMovingAvg = avg at havg ⊢
  have hthresholds : (∀ s ∈ (if low ≤ avg then [(avg, low), (cur, avg)] else []), s.2 ≤ s.1) ↔
      (low ≤ avg → avg ≤ cur) := by
    split_ifs with hlow
    · simp [hlow]
    · simp [hlow]
  refine (and_congr_left' hthresholds).trans (and_congr_right fun hfit => ?_)
  simp only [closest_iff havg hcur hfit]
  by_cases hclosest : low ≤ avg ∧ low + cur ≤ 2 * avg
  · simp [hclosest]
  · by_cases hlatency : conf.latencyOptimize = false
    · simp [hclosest, hlatency]
    · simp [hlatency]

/-! ### The exact condition of a step -/

/-- The step that the queue reaches decides which subtractions are evaluated. -/
theorem subtractions_eq (conf : C2hConf) (q : C2hQueue) (o : Observation) :
    subtractions conf q o =
      if q.c2hPendPktAvgThrHi ≤ q.average o then
        incrSubtractions conf (q.settle (q.average o) q.c2hCntrMonitorCnt)
      else if LooksDown q o then
        decrSubtractions conf o.budget (q.settle (q.average o) q.c2hCntrMonitorCnt)
      else [] := by
  unfold subtractions
  dsimp only
  by_cases hhi : q.c2hPendPktAvgThrHi ≤ q.average o
  · rw [if_pos hhi, if_pos hhi]
    rfl
  · rw [if_neg hhi, if_neg hhi]
    by_cases hlo : q.average o ≤ q.c2hPendPktAvgThrLo
    · rw [if_pos hlo, if_pos ⟨not_le.mp hhi, Or.inl hlo⟩]
      rfl
    · rw [if_neg hlo]
      by_cases hcnt : (q.c2hCntrMonitorCnt + 1) % 2 ^ 8 = MAX_C2H_CNTR_STAGNANT_CNT
      · rw [if_pos hcnt, if_pos ⟨not_le.mp hhi, Or.inr hcnt⟩]
        rfl
      · rw [if_neg hcnt, if_neg fun hdown => hdown.2.elim hlo hcnt]

/-- Nothing wraps in a tuned queue exactly when the observation is steady. -/
theorem Tuned.fits_iff (hq : Tuned conf q) (o : Observation) :
    (∀ s ∈ subtractions conf q o, s.2 ≤ s.1) ↔ Steady conf q o := by
  rw [subtractions_eq]
  by_cases hhi : q.c2hPendPktAvgThrHi ≤ q.average o
  · rw [if_pos hhi]
    refine iff_of_true (fun s hs => ?_) fun hdown => absurd hhi (not_le.mpr hdown.1)
    have havg : conf.thAt q.sortedC2hCntrIdx ≤ q.average o := hq.le_hi.trans hhi
    exact incrSubtractions_fit (q := q.settle (q.average o) q.c2hCntrMonitorCnt) havg hs
  · rw [if_neg hhi]
    by_cases hdown : LooksDown q o
    · rw [if_pos hdown]
      by_cases hfirst : q.sortedC2hCntrIdx = 0
      · refine iff_of_true (fun s hs => ?_) fun _ hne => absurd hfirst hne
        have hnil : decrSubtractions conf o.budget (q.settle (q.average o) q.c2hCntrMonitorCnt) =
            [] := if_pos hfirst
        rw [hnil] at hs
        exact absurd hs List.not_mem_nil
      · have hiff := decrSubtractions_fit_iff conf o.budget
          (q := q.settle (q.average o) q.c2hCntrMonitorCnt) (average_lt q o) hfirst
        exact hiff.trans ⟨fun hfits _ _ => hfits, fun hsteady => hsteady hdown hfirst⟩
    · rw [if_neg hdown]
      exact iff_of_true (fun s hs => absurd hs List.not_mem_nil) fun h => absurd h hdown

/-- A queue that looks down on a steady observation has an average that is not above its
threshold. -/
theorem Steady.average_le (hsteady : Steady conf q o) (h : SortedTable conf) (hq : Tuned conf q)
    (hdown : LooksDown q o) (hfirst : q.sortedC2hCntrIdx ≠ 0) :
    q.average o ≤ conf.thAt q.sortedC2hCntrIdx := by
  have hcur := Nat.mod_le (conf.thAt q.sortedC2hCntrIdx) (2 ^ 8)
  have hlow := Nat.mod_le (conf.thAt (q.sortedC2hCntrIdx - 1)) (2 ^ 8)
  have hsorted := h.le (Nat.sub_le q.sortedC2hCntrIdx 1) hq.idx_le
  have hfit := (hsteady hdown hfirst).1
  omega

/-- A queue that is tuned adapts to an observation exactly when the observation is steady. -/
theorem Tuned.adapts_iff (h : SortedTable conf) (hq : Tuned conf q) (o : Observation) :
    Adapts conf q o ↔ Steady conf q o := by
  refine ⟨fun hadapts => (hq.fits_iff o).mp hadapts.fits, fun hsteady => ?_⟩
  have hfits := (hq.fits_iff o).mpr hsteady
  have hth := hq.threshold
  rcases observe_cases conf q o with ⟨avg, cnt, hstay⟩ | ⟨hhi, hlast, hup⟩ |
    ⟨hlooks, hfirst, hbudget, hdown⟩
  · have hidx : (observe conf q o).sortedC2hCntrIdx = q.sortedC2hCntrIdx := by
      rw [hstay]
      rfl
    exact ⟨by omega, by omega, hfits, by omega, by omega, by omega⟩
  · have hidx : (observe conf q o).sortedC2hCntrIdx = q.sortedC2hCntrIdx + 1 := by
      rw [hup]
      rfl
    have hle := hq.le_hi
    exact ⟨by omega, by omega, hfits, by omega, by omega, by omega⟩
  · have hidx : (observe conf q o).sortedC2hCntrIdx = q.sortedC2hCntrIdx - 1 := by
      rw [hdown]
      rfl
    have hle := hsteady.average_le h hq hlooks hfirst
    refine ⟨by omega, by omega, hfits, by omega, by omega, fun hlatency _ => ?_⟩
    have hnew : (observe conf q o).threshold conf = conf.thAt (q.sortedC2hCntrIdx - 1) := by
      rw [hdown]
      rfl
    rw [hnew]
    have hmod := Nat.mod_le (conf.thAt (q.sortedC2hCntrIdx - 1)) (2 ^ 8)
    have hfloor : o.budget - 2 ≤ u32 (o.budget - 2) := by
      have := o.budget_lt
      unfold u32
      omega
    exact (hfloor.trans (hbudget hlatency)).trans hmod

/-- With thresholds below 2³¹, a queue configured with any counter of an increasing table stays
placed and adapts to every observation exactly when none of them sends it to the decrease step with
an average above its threshold, or, outside latency mode, with a budget below 2 and an average
closer to the lower threshold. -/
theorem adaptive_iff (h : SortedTable conf) (hlt : ∀ i ≤ 15, conf.thAt i < 2 ^ 31)
    (hconf : conf.cmplCntThIdx < QDMA_GLOBAL_CSR_ARRAY_SZ) (q : C2hQueue) (os : List Observation) :
    Always (observe conf) (Placed conf) (qdmaDescqConfigComplete conf q) os ∧
        Admitted (observe conf) (Adapts conf) (qdmaDescqConfigComplete conf q) os ↔
      Admitted (observe conf) (Steady conf) (qdmaDescqConfigComplete conf q) os := by
  have hstart := h.configured hlt hconf q
  have hany : Admitted (observe conf) (fun _ _ => True) (qdmaDescqConfigComplete conf q) os :=
    admitted_of_forall (fun _ _ => trivial) _
  have hplaced : Always (observe conf) (Placed conf) (qdmaDescqConfigComplete conf q) os :=
    hany.always (fun _ hq => hq.placed) (fun _ o hq _ _ => hq.step h hlt o) hstart hany
  have hadapts := hany.congr (fun _ o hq _ _ => hq.step h hlt o)
    (fun _ o hq _ => hq.adapts_iff h o) hstart
  exact (and_iff_right hplaced).trans hadapts

end

/-- A queue with sixteen thresholds at distance 16, which starts at the sixth one. -/
def steps16 : C2hConf :=
  { rngsz := 2048, rngszCmpt := 2048, cmptEntryLen := 8, c2hBufsz := 4096, cmplCntThIdx := 5
    c2hCntTh := fun i => 16 * (i + 1) }

/-- A queue before it is configured. -/
def idleQueue : C2hQueue :=
  { rx := { flq := { size := 2048, descBufSize := 4096, descPgShift := 12, maxPgOffset := 4096 } } }

theorem steps16_sorted : SortedTable steps16 := by
  refine ⟨fun i hi => hi, fun i j hij _ => ?_⟩
  unfold C2hConf.thAt steps16
  dsimp only [id]
  omega

/-- The queue goes up on many pending packets, and down again on few. -/
theorem steps16_adapts :
    Always (observe steps16) (Placed steps16) (qdmaDescqConfigComplete steps16 idleQueue)
        [⟨200, 64, by decide, by decide⟩, ⟨20, 64, by decide, by decide⟩] ∧
      Admitted (observe steps16) (Adapts steps16) (qdmaDescqConfigComplete steps16 idleQueue)
        [⟨200, 64, by decide, by decide⟩, ⟨20, 64, by decide, by decide⟩] := by
  have hlt : ∀ i ≤ 15, steps16.thAt i < 2 ^ 31 := by decide
  exact (adaptive_iff steps16_sorted hlt (by decide) idleQueue _).mpr (by decide +kernel)

/-- Observations that keep the average one above the threshold. -/
def stagnant : List Observation :=
  ⟨98, 64, by decide, by decide⟩ :: List.replicate 14 ⟨97, 64, by decide, by decide⟩

/-- The sixteenth such observation sends the queue down: `96 - 97` wraps, and the queue goes from 96
to 80 on an average of 97. -/
theorem stagnant_goes_down :
    let q := run (observe steps16) (qdmaDescqConfigComplete steps16 idleQueue) stagnant
    let o : Observation := ⟨97, 64, by decide, by decide⟩
    q.threshold steps16 = 96 ∧ q.average o = 97 ∧ (96, 97) ∈ subtractions steps16 q o ∧
      (observe steps16 q o).threshold steps16 = 80 ∧
      ¬ Admitted (observe steps16) (Adapts steps16) (qdmaDescqConfigComplete steps16 idleQueue)
        (stagnant ++ [o]) := by
  intro q o
  refine ⟨by decide +kernel, by decide +kernel, by decide +kernel, by decide +kernel, ?_⟩
  intro hadapts
  have hlast : Adapts steps16 q o := (admitted_append.mp hadapts).2.1
  have hdown : (observe steps16 q o).sortedC2hCntrIdx < q.sortedC2hCntrIdx := by decide +kernel
  have habove : ¬ q.average o ≤ q.threshold steps16 := by decide +kernel
  exact habove (hlast.down hdown)

end OnicDriver.C2h
