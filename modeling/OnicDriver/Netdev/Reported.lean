import Mathlib.Algebra.BigOperators.Group.Finset.Piecewise
import OnicDriver.Netdev.Sessions

/-!
# What an interface reports

`onic_get_stats64` adds up the counters of the queues. While the interface is
up, they are those of the packets since it was brought up; packets that were
dropped are counted and not reported.
-/

namespace OnicDriver.Netdev

open Lib Access Queue Setup Resource Lifecycle

/-- The sum of one counter over `n` entries. -/
def counterSum (f : LinkStats → UInt64) (qstats : ℕ → LinkStats) (first n : ℕ) : UInt64 :=
  ∑ k ∈ Finset.range n, f (qstats (first + k))

/-- The counters of all queues add up to the traffic. -/
structure CountsTraffic (conf : OnicConf) (qstats : ℕ → LinkStats) (traffic : LinkStats) :
    Prop where
  rxPackets : counterSum LinkStats.rxPackets qstats conf.realNumTxQueues conf.realNumRxQueues =
    traffic.rxPackets
  rxBytes : counterSum LinkStats.rxBytes qstats conf.realNumTxQueues conf.realNumRxQueues =
    traffic.rxBytes
  txPackets : counterSum LinkStats.txPackets qstats 0 conf.realNumTxQueues = traffic.txPackets
  txBytes : counterSum LinkStats.txBytes qstats 0 conf.realNumTxQueues = traffic.txBytes

section

variable {x : Xdev} {grant : Grant} {conf : OnicConf} {σ : Session} {lost : Multiset ℕ}
  {f : LinkStats → UInt64} {g : LinkStats → LinkStats} {qstats : ℕ → LinkStats} {p q n m : ℕ}

/-! ## Sums of counters -/

theorem counterSum_zero (f : LinkStats → UInt64) (p n : ℕ) (hzero : f {} = 0) :
    counterSum f (fun _ => {}) p n = 0 :=
  Finset.sum_eq_zero fun _ _ => hzero

/-- An entry of the sum is counted up. -/
theorem counterSum_update {d : UInt64} (hg : ∀ l, f (g l) = f l + d) (hq : q < n) :
    counterSum f (Function.update qstats (p + q) (g (qstats (p + q)))) p n =
      counterSum f qstats p n + d := by
  have hentry : ∀ k ∈ Finset.range n,
      f (Function.update qstats (p + q) (g (qstats (p + q))) (p + k)) =
        f (qstats (p + k)) + if k = q then d else 0 := by
    intro k _
    by_cases hk : k = q
    · rw [hk, Function.update_self, if_pos rfl, hg]
    · rw [Function.update_of_ne (by omega), if_neg hk, add_zero]
  unfold counterSum
  rw [Finset.sum_congr rfl hentry, Finset.sum_add_distrib, Finset.sum_ite_eq',
    if_pos (Finset.mem_range.mpr hq)]

/-- An entry outside the sum is counted up. -/
theorem counterSum_update_of_apart (l : LinkStats) (hm : m < p ∨ p + n ≤ m) :
    counterSum f (Function.update qstats m l) p n = counterSum f qstats p n := by
  refine Finset.sum_congr rfl fun k hk => ?_
  have hlt := Finset.mem_range.mp hk
  rw [Function.update_of_ne (by omega)]

/-! ## Reading -/

/-- The loops over the counters read entries that they do not change. -/
theorem addStats_fst (n : ℕ) (p : StatsPtr) (add : LinkStats → LinkStats → LinkStats)
    (res : LinkStats × Onic) :
    (addStats n p add res).1 =
      (List.range n).foldl (fun stats q => add stats (res.2.qstats (p.entry + q))) res.1 := by
  have hboth : (addStats n p add res).2.qstats = res.2.qstats ∧ (addStats n p add res).1 =
      (List.range n).foldl (fun stats q => add stats (res.2.qstats (p.entry + q))) res.1 := by
    unfold addStats
    refine foldl_range_invariant (I := fun k (res' : LinkStats × Onic) =>
      res'.2.qstats = res.2.qstats ∧ res'.1 =
        (List.range k).foldl (fun stats q => add stats (res.2.qstats (p.entry + q))) res.1)
      ⟨rfl, rfl⟩ fun k _ res' hres => ⟨hres.1, ?_⟩
    dsimp only [Onic.statsAt]
    rw [List.range_succ, List.foldl_append, ← hres.2, hres.1]
    rfl
  exact hboth.2

/-- The loop over the transmit queues. -/
theorem foldl_txStats (stats : LinkStats) (n : ℕ) :
    (List.range n).foldl (fun stats q => { stats with
        txBytes := stats.txBytes + (qstats (p + q)).txBytes
        txPackets := stats.txPackets + (qstats (p + q)).txPackets }) stats =
      { stats with
        txBytes := stats.txBytes + counterSum LinkStats.txBytes qstats p n
        txPackets := stats.txPackets + counterSum LinkStats.txPackets qstats p n } := by
  induction n with
  | zero => simp [counterSum]
  | succ n ih =>
    rw [List.range_succ, List.foldl_append, ih]
    simp [counterSum, Finset.sum_range_succ, add_assoc]

/-- The loop over the receive queues. -/
theorem foldl_rxStats (stats : LinkStats) (n : ℕ) :
    (List.range n).foldl (fun stats q => { stats with
        rxBytes := stats.rxBytes + (qstats (p + q)).rxBytes
        rxPackets := stats.rxPackets + (qstats (p + q)).rxPackets }) stats =
      { stats with
        rxBytes := stats.rxBytes + counterSum LinkStats.rxBytes qstats p n
        rxPackets := stats.rxPackets + counterSum LinkStats.rxPackets qstats p n } := by
  induction n with
  | zero => simp [counterSum]
  | succ n ih =>
    rw [List.range_succ, List.foldl_append, ih]
    simp [counterSum, Finset.sum_range_succ, add_assoc]

/-- What is reported on an interface that is up. -/
theorem SessionInv.reported (h : SessionInv x conf lost σ) (hup : σ.up = true)
    (hcounts : CountsTraffic conf σ.onic.qstats σ.traffic) (stats : LinkStats) :
    (onicGetStats64 conf σ.onic stats).1 =
      { stats with
        rxPackets := stats.rxPackets + σ.traffic.rxPackets
        rxBytes := stats.rxBytes + σ.traffic.rxBytes
        txPackets := stats.txPackets + σ.traffic.txPackets
        txBytes := stats.txBytes + σ.traffic.txBytes } := by
  obtain ⟨hne, hentry, hrx⟩ := h.pointers.some (by rw [(h.up hup).counters]; decide)
  unfold onicGetStats64
  rw [hrx, if_pos ⟨hne, hne⟩]
  dsimp only
  rw [addStats_fst, addStats_fst, addStats_snd, hentry]
  dsimp only
  rw [foldl_txStats, foldl_rxStats, hcounts.rxPackets, hcounts.rxBytes, hcounts.txPackets,
    hcounts.txBytes]

/-! ## Steps -/

theorem countAt_qstats (s : Onic) (p : StatsPtr) (q : ℕ) (g : LinkStats → LinkStats) :
    (s.countAt p q g).qstats =
      Function.update s.qstats (p.entry + q) (g (s.qstats (p.entry + q))) := rfl

/-- A packet that is received is counted. -/
theorem CountsTraffic.received {traffic : LinkStats} (h : CountsTraffic conf qstats traffic)
    (hq : q < conf.realNumRxQueues) (len : UInt64) :
    CountsTraffic conf
      (Function.update qstats (conf.realNumTxQueues + q)
        { qstats (conf.realNumTxQueues + q) with
          rxPackets := (qstats (conf.realNumTxQueues + q)).rxPackets + 1
          rxBytes := (qstats (conf.realNumTxQueues + q)).rxBytes + len })
      { traffic with rxPackets := traffic.rxPackets + 1, rxBytes := traffic.rxBytes + len } := by
  refine ⟨?_, ?_, ?_, ?_⟩
  · rw [← h.rxPackets]
    exact counterSum_update (g := fun l => { l with
      rxPackets := l.rxPackets + 1, rxBytes := l.rxBytes + len }) (fun _ => rfl) hq
  · rw [← h.rxBytes]
    exact counterSum_update (g := fun l => { l with
      rxPackets := l.rxPackets + 1, rxBytes := l.rxBytes + len }) (fun _ => rfl) hq
  · rw [counterSum_update_of_apart _ (.inr (by omega))]
    exact h.txPackets
  · rw [counterSum_update_of_apart _ (.inr (by omega))]
    exact h.txBytes

/-- A packet that is sent is counted. -/
theorem CountsTraffic.sent {traffic : LinkStats} (h : CountsTraffic conf qstats traffic)
    (hq : q < conf.realNumTxQueues) (len : UInt64) :
    CountsTraffic conf
      (Function.update qstats (0 + q)
        { qstats (0 + q) with
          txPackets := (qstats (0 + q)).txPackets + 1
          txBytes := (qstats (0 + q)).txBytes + len })
      { traffic with txPackets := traffic.txPackets + 1, txBytes := traffic.txBytes + len } := by
  refine ⟨?_, ?_, ?_, ?_⟩
  · rw [counterSum_update_of_apart _ (.inl (by omega))]
    exact h.rxPackets
  · rw [counterSum_update_of_apart _ (.inl (by omega))]
    exact h.rxBytes
  · rw [← h.txPackets]
    exact counterSum_update (g := fun l => { l with
      txPackets := l.txPackets + 1, txBytes := l.txBytes + len }) (fun _ => rfl) hq
  · rw [← h.txBytes]
    exact counterSum_update (g := fun l => { l with
      txPackets := l.txPackets + 1, txBytes := l.txBytes + len }) (fun _ => rfl) hq

/-- A packet that is dropped is not among those that are reported. -/
theorem CountsTraffic.dropped {traffic : LinkStats} (h : CountsTraffic conf qstats traffic)
    (hq : q < conf.realNumTxQueues) :
    CountsTraffic conf
      (Function.update qstats (0 + q)
        { qstats (0 + q) with txDropped := (qstats (0 + q)).txDropped + 1 })
      { traffic with txDropped := traffic.txDropped + 1 } := by
  refine ⟨?_, ?_, ?_, ?_⟩
  · rw [counterSum_update_of_apart _ (.inl (by omega))]
    exact h.rxPackets
  · rw [counterSum_update_of_apart _ (.inl (by omega))]
    exact h.rxBytes
  · rw [← h.txPackets]
    exact (counterSum_update (g := fun l => { l with txDropped := l.txDropped + 1 }) (d := 0)
      (fun _ => (add_zero _).symm) hq).trans (add_zero _)
  · rw [← h.txBytes]
    exact (counterSum_update (g := fun l => { l with txDropped := l.txDropped + 1 }) (d := 0)
      (fun _ => (add_zero _).symm) hq).trans (add_zero _)

/-- Every step that is allowed leaves the counters of an interface that is up in order. -/
theorem SessionInv.countsTraffic (h : SessionInv x conf lost σ) (hfits : Fits x conf)
    (hcounts : σ.up = true → CountsTraffic conf σ.onic.qstats σ.traffic) (e : NetEvent)
    (hok : SessionAllowed x conf σ e) (hup : (sessionStep x grant conf σ e).up = true) :
    CountsTraffic conf (sessionStep x grant conf σ e).onic.qstats
      (sessionStep x grant conf σ e).traffic := by
  have hpointers : σ.up = true → σ.onic.txQstats.entry = 0 ∧
      σ.onic.rxQstats = { block := σ.onic.txQstats.block, entry := conf.realNumTxQueues } :=
    fun hwas => (h.pointers.some (by rw [(h.up hwas).counters]; decide)).2
  cases e with
  | ndoOpen env =>
    have hopen := (h.partDown hok.1).open grant hfits hok.2
    unfold sessionStep at hup ⊢
    dsimp only at hup ⊢
    generalize onicOpen x grant conf env σ.onic = res at hopen hup ⊢
    cases hopen with
    | noStats hret _ => exact absurd (of_decide_eq_true hup) hret
    | freed hret _ _ => exact absurd (of_decide_eq_true hup) hret
    | lost hret _ _ => exact absurd (of_decide_eq_true hup) hret
    | opened hopened =>
      obtain ⟨d, m, rfl, -⟩ := hopened
      exact ⟨counterSum_zero _ _ _ rfl, counterSum_zero _ _ _ rfl, counterSum_zero _ _ _ rfl,
        counterSum_zero _ _ _ rfl⟩
  | ndoStop => exact absurd hup Bool.false_ne_true
  | ndoGetStats64 =>
    unfold sessionStep
    dsimp only
    rw [h.pointers.getStats]
    exact hcounts hup
  | received q len =>
    have hcounted := (hcounts hok.1).received hok.2 (UInt64.ofNat len)
    unfold sessionStep countReceived
    dsimp only
    rw [countAt_qstats, Nat.add_sub_cancel_left, (hpointers hok.1).2]
    exact hcounted
  | sent q len =>
    have hcounted := (hcounts hok.1).sent hok.2 (UInt64.ofNat len)
    unfold sessionStep countSent
    dsimp only
    rw [countAt_qstats, (hpointers hok.1).1]
    exact hcounted
  | dropped q =>
    have hcounted := (hcounts hok.1).dropped hok.2
    unfold sessionStep countDropped
    dsimp only
    rw [countAt_qstats, (hpointers hok.1).1]
    exact hcounted
  | others rm => exact hcounts hup

end

/-- In every run, what is reported on an interface that is up is the traffic since it was brought
up, without the packets that were dropped. -/
theorem session_reports {x : Xdev} {conf : OnicConf} (hfits : Fits x conf) (grant : Grant)
    {rm : ResourceState} (other : ℕ → Slot) {e : DevEntry}
    (hentry : qdmaGetDevEntry rm x.dmaDeviceIndex x.funcId = some e)
    (hzero : ∀ t, e.activeQcnt t = 0) (hroom : x.qmax ≤ e.entry.totalQ) {es : List NetEvent}
    (h : Admitted (sessionStep x grant conf) (SessionAllowed x conf)
      (newSession (qdmaDeviceInit x rm other)) es) :
    let σ := run (sessionStep x grant conf) (newSession (qdmaDeviceInit x rm other)) es
    σ.up = true → ∀ stats, (onicGetStats64 conf σ.onic stats).1 =
      { stats with
        rxPackets := stats.rxPackets + σ.traffic.rxPackets
        rxBytes := stats.rxBytes + σ.traffic.rxBytes
        txPackets := stats.txPackets + σ.traffic.txPackets
        txBytes := stats.txBytes + σ.traffic.txBytes } := by
  intro σ hup stats
  have hstep : ∀ (σ : Session) (e : NetEvent),
      (∃ lost, SessionInv x conf lost σ) ∧
          (σ.up = true → CountsTraffic conf σ.onic.qstats σ.traffic) →
      SessionAllowed x conf σ e →
      (∃ lost, SessionInv x conf lost (sessionStep x grant conf σ e)) ∧
        ((sessionStep x grant conf σ e).up = true →
          CountsTraffic conf (sessionStep x grant conf σ e).onic.qstats
            (sessionStep x grant conf σ e).traffic) := by
    rintro σ e ⟨⟨lost, hσ⟩, hcounts⟩ hok
    exact ⟨hσ.step hfits e hok, hσ.countsTraffic hfits hcounts e hok⟩
  have hnone : Admitted (sessionStep x grant conf) (SessionAllowed x conf)
      (newSession (qdmaDeviceInit x rm other)) [] := trivial
  have hinit := session_inv hfits grant other hentry hzero hroom hnone
  obtain ⟨⟨lost, hinv⟩, hcounts⟩ := h.invariant hstep
    ⟨hinit, fun hnew => absurd hnew Bool.false_ne_true⟩
  exact hinv.reported hup (hcounts hup) stats

/-- A packet of each kind: the one that is dropped is not reported. -/
theorem packets_reported :
    (onicGetStats64 twoByTwo (run (sessionStep pollingPf (fun _ => true) twoByTwo)
      (newSession (qdmaDeviceInit pollingPf fourQueues fun _ => newSlot))
      [.ndoOpen {}, .received 1 64, .dropped 0, .sent 1 60]).onic {}).1 =
      { rxPackets := 1, rxBytes := 64, txPackets := 1, txBytes := 60 } := by
  have hadmitted : Admitted (sessionStep pollingPf (fun _ => true) twoByTwo)
      (SessionAllowed pollingPf twoByTwo)
      (newSession (qdmaDeviceInit pollingPf fourQueues fun _ => newSlot))
      [.ndoOpen {}, .received 1 64, .dropped 0, .sent 1 60] := by
    refine ⟨⟨rfl, rangeSet_of_zero (fun _ => rfl) fun _ => rfl⟩, ⟨?_, by decide⟩, ⟨?_, by decide⟩,
      ⟨?_, by decide⟩, trivial⟩
    · decide +kernel
    · decide +kernel
    · decide +kernel
  refine (session_reports twoByTwo_fits (fun _ => true) (fun _ => newSlot)
    (e := { funcId := 0, entry := { qbase := 0, totalQ := 4 } }) (by decide +kernel)
    (fun t => by cases t <;> rfl) (by decide) hadmitted ?_ {}).trans ?_
  · decide +kernel
  · decide +kernel

end OnicDriver.Netdev
