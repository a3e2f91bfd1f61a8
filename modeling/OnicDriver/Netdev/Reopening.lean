import OnicDriver.Netdev.Sessions

/-!
# Opening an interface again

What failed in an earlier open does not stand in the way of a later one, with
one exception: where the range of the function could not be set for the first
queue, its slot stays marked, and the interface never comes up again.
-/

namespace OnicDriver.Netdev

open Lib Access Queue Setup Resource Lifecycle

/-- In every run, an interface that is down is opened as far as the start of its queues exactly if
their setup gets what it asks for. -/
theorem session_opens {x : Xdev} {conf : OnicConf} (hfits : Fits x conf)
    (haccepted : Accepted x conf) (grant : Grant) {rm : ResourceState} (other : ℕ → Slot)
    {e : DevEntry} (hentry : qdmaGetDevEntry rm x.dmaDeviceIndex x.funcId = some e)
    (hzero : ∀ t, e.activeQcnt t = 0) (hroom : x.qmax ≤ e.entry.totalQ) {es : List NetEvent}
    (h : Admitted (sessionStep x grant conf) (SessionAllowed x conf)
      (newSession (qdmaDeviceInit x rm other)) es) :
    let σ := run (sessionStep x grant conf) (newSession (qdmaDeviceInit x rm other)) es
    σ.up = false → ∀ env, RangeSet conf env →
      (((onicOpen x grant conf env σ.onic).2.1 = .start ∨
          (onicOpen x grant conf env σ.onic).2.1 = .done) ↔ SetUp x conf env) := by
  intro σ hup env hrange
  obtain ⟨lost, hinv⟩ := session_inv hfits grant other hentry hzero hroom h
  exact (hinv.partDown hup).open_stage hfits haccepted hrange

/-- The second transmit queue cannot be started. -/
def failedStart : List NetEvent :=
  [.ndoOpen { ctxtTx := fun k => if k = 1 then -EINVAL else 0 }, .ndoGetStats64]

theorem failedStart_opens :
    let σ := run (sessionStep pollingPf (fun _ => true) twoByTwo)
      (newSession (qdmaDeviceInit pollingPf fourQueues fun _ => newSlot)) failedStart
    (onicOpen pollingPf (fun _ => true) twoByTwo {} σ.onic).2.1 = .start ∨
      (onicOpen pollingPf (fun _ => true) twoByTwo {} σ.onic).2.1 = .done := by
  have hadmitted : Admitted (sessionStep pollingPf (fun _ => true) twoByTwo)
      (SessionAllowed pollingPf twoByTwo)
      (newSession (qdmaDeviceInit pollingPf fourQueues fun _ => newSlot)) failedStart :=
    ⟨⟨rfl, rangeSet_of_zero (fun _ => rfl) fun _ => rfl⟩, trivial, trivial⟩
  refine (session_opens twoByTwo_fits ⟨fun _ => rfl, fun _ => rfl⟩ (fun _ => true)
    (fun _ => newSlot) (e := { funcId := 0, entry := { qbase := 0, totalQ := 4 } })
    (by decide +kernel) (fun t => by cases t <;> rfl) (by decide) hadmitted ?_ {}
    (rangeSet_of_zero (fun _ => rfl) fun _ => rfl)).mpr ?_
  · decide +kernel
  · exact ⟨rfl, rfl, fun _ _ hfails => hfails.2.2 rfl, fun _ _ hfails => hfails.2.2 rfl⟩

/-! ## The slot that stays marked -/

/-- The network stack opens what is down and stops what is up, whatever the opens meet. -/
def SessionOrdered (conf : OnicConf) (σ : Session) : NetEvent → Prop
  | .ndoOpen _ => σ.up = false
  | .ndoStop => σ.up = true
  | .ndoGetStats64 => True
  | .received q _ => σ.up = true ∧ q < conf.realNumRxQueues
  | .sent q _ => σ.up = true ∧ q < conf.realNumTxQueues
  | .dropped q => σ.up = true ∧ q < conf.realNumTxQueues
  | .others _ => True

/-- An interface that is down, with a queue in the slot of its first receive queue. -/
structure Stuck (x : Xdev) (σ : Session) : Prop where
  down : σ.up = false
  marked : (σ.onic.dev.slots (x.base .c2h)).qState ≠ .disabled

section

variable {x : Xdev} {grant : Grant} {conf : OnicConf} {env : OpenEnv} {s : Onic} {σ : Session}

theorem rxQueueSetup_failed {k : ℕ}
    (h : (qdmaQueueAdd x s.dev (rxQconf conf k) (env.addRx k)).1 ≠ 0) :
    rxQueueSetup x conf env s k = ((qdmaQueueAdd x s.dev (rxQconf conf k) (env.addRx k)).1,
      { s with dev := (qdmaQueueAdd x s.dev (rxQconf conf k) (env.addRx k)).2.2 }) := by
  unfold rxQueueSetup onicQdmaRxQueueAdd
  generalize qdmaQueueAdd x s.dev (rxQconf conf k) (env.addRx k) = res at h ⊢
  obtain ⟨ret, qHandle, d⟩ := res
  dsimp only at h ⊢
  rw [if_pos h]
  exact if_pos h

/-- Receive queues of which the first cannot be added. -/
theorem rxSetup_first {d : Device} (hpos : 0 < conf.realNumRxQueues)
    (hret : (qdmaQueueAdd x s.dev (rxQconf conf 0) (env.addRx 0)).1 ≠ 0)
    (hdev : (qdmaQueueAdd x s.dev (rxQconf conf 0) (env.addRx 0)).2.2 = d) :
    (onicQdmaRxQueueSetup x conf env s).1 ≠ 0 ∧
      (onicQdmaRxQueueSetup x conf env s).2.dev = if env.napi then d else s.dev := by
  unfold onicQdmaRxQueueSetup
  rcases acquire_granted s.mem env.napi with ⟨hnapi, hacquire⟩ | ⟨hnapi, hacquire⟩
  · have hloop : ∀ s' : Onic, s'.dev = s.dev →
        untilFailure (rxQueueSetup x conf env) conf.realNumRxQueues 0 s' =
          ((qdmaQueueAdd x s.dev (rxQconf conf 0) (env.addRx 0)).1, 0, { s' with dev := d }) := by
      intro s' heq
      rw [← heq] at hret hdev ⊢
      have hfailed := rxQueueSetup_failed hret
      rw [untilFailure_first hpos (by rwa [hfailed]), hfailed, hdev]
    rw [hacquire, hnapi]
    dsimp only
    rw [if_neg (Nat.succ_ne_zero _), hloop]
    · dsimp only
      rw [if_pos hret]
      exact ⟨hret, rfl⟩
    · rfl
  · rw [hacquire, hnapi]
    dsimp only
    rw [if_pos rfl]
    have hneg : -ENOMEM ≠ 0 := by decide
    exact ⟨hneg, rfl⟩

/-- The counters do not touch the device. -/
theorem onicStatsAlloc_dev : (onicStatsAlloc conf env s).2.dev = s.dev := by
  unfold onicStatsAlloc
  dsimp only
  split
  · rfl
  · rfl

theorem onicStatsAlloc_ret : (onicStatsAlloc conf env s).1 = 0 ↔ env.stats = true := by
  unfold onicStatsAlloc
  rcases acquire_granted s.mem env.stats with ⟨hstats, hacquire⟩ | ⟨hstats, hacquire⟩
  · rw [hacquire]
    dsimp only
    rw [if_neg (Nat.succ_ne_zero _)]
    exact iff_of_true rfl hstats
  · rw [hacquire]
    dsimp only
    rw [if_pos rfl, hstats]
    have hneg : -ENOMEM ≠ 0 := by decide
    exact iff_of_false hneg Bool.false_ne_true

variable (grant) in
/-- An open of which the first receive queue cannot be added. -/
theorem open_first {d : Device} (hpos : 0 < conf.realNumRxQueues)
    (hret : (qdmaQueueAdd x s.dev (rxQconf conf 0) (env.addRx 0)).1 ≠ 0)
    (hdev : (qdmaQueueAdd x s.dev (rxQconf conf 0) (env.addRx 0)).2.2 = d) :
    (onicOpen x grant conf env s).1 ≠ 0 ∧
      (onicOpen x grant conf env s).2.2.dev =
        if env.stats = true ∧ env.napi = true then d else s.dev := by
  have hstatsDev : (onicStatsAlloc conf env s).2.dev = s.dev := onicStatsAlloc_dev
  have hstatsRet : (onicStatsAlloc conf env s).1 = 0 ↔ env.stats = true := onicStatsAlloc_ret
  unfold onicOpen
  generalize onicStatsAlloc conf env s = res at hstatsDev hstatsRet ⊢
  obtain ⟨ret, s₁⟩ := res
  dsimp only at hstatsDev hstatsRet ⊢
  by_cases hok : ret = 0
  · rw [← hstatsDev] at hret hdev ⊢
    have hrx := rxSetup_first hpos hret hdev
    rw [if_neg (not_not.mpr hok)]
    generalize onicQdmaRxQueueSetup x conf env s₁ = res at hrx ⊢
    obtain ⟨retRx, s₂⟩ := res
    dsimp only at hrx ⊢
    rw [if_pos hrx.1]
    simp only [hstatsRet.mp hok, true_and]
    exact hrx
  · rw [if_pos hok, if_neg fun hall => hok (hstatsRet.mpr hall.1)]
    exact ⟨hok, hstatsDev⟩

theorem onicGetStats64_dev (conf : OnicConf) (s : Onic) (stats : LinkStats) :
    (onicGetStats64 conf s stats).2.dev = s.dev := by
  unfold onicGetStats64
  split
  · dsimp only
    rw [addStats_snd, addStats_snd]
  · rfl

/-- A device that is stuck cannot be opened. -/
theorem Stuck.open_fails (h : Stuck x σ) (hpos : 0 < conf.realNumRxQueues) (hfits : Fits x conf)
    (grant : Grant) (env : OpenEnv) :
    (onicOpen x grant conf env σ.onic).1 ≠ 0 ∧
      (onicOpen x grant conf env σ.onic).2.2.dev = σ.onic.dev := by
  have hstreaming : Streaming x .c2h 0 (rxQconf conf 0) := ⟨rfl, rfl, rfl, hpos.trans_le hfits.rx⟩
  obtain ⟨hret, hdev⟩ := add_taken (env.addRx 0) hstreaming h.marked
  have hopen := open_first grant hpos hret hdev
  rwa [ite_self] at hopen

/-- An interface that is stuck stays so. -/
theorem Stuck.step (h : Stuck x σ) (hpos : 0 < conf.realNumRxQueues) (hfits : Fits x conf)
    (grant : Grant) (e : NetEvent) (hok : SessionOrdered conf σ e) :
    Stuck x (sessionStep x grant conf σ e) := by
  cases e with
  | ndoOpen env =>
    obtain ⟨hret, hdev⟩ := h.open_fails hpos hfits grant env
    refine ⟨decide_eq_false hret, ?_⟩
    have hmarked := h.marked
    rwa [← hdev] at hmarked
  | ndoStop => exact absurd h.down (ne_false_of_eq_true hok)
  | ndoGetStats64 =>
    refine ⟨h.down, ?_⟩
    have hmarked := h.marked
    rwa [← onicGetStats64_dev conf σ.onic {}] at hmarked
  | received q len => exact absurd h.down (ne_false_of_eq_true hok.1)
  | sent q len => exact absurd h.down (ne_false_of_eq_true hok.1)
  | dropped q => exact absurd h.down (ne_false_of_eq_true hok.1)
  | others rm => exact ⟨h.down, h.marked⟩

/-- An open in which the range cannot be set for the first receive queue leaves its slot marked. -/
theorem Part.open_stuck {held : Multiset Thing} {f a : ℕ} {r : Onic}
    (h : Part x noQueues noInstances held f a r σ.onic) (hfits : Fits x conf)
    (haccepted : Accepted x conf) (hpos : 0 < conf.realNumRxQueues) (hstats : env.stats = true)
    (hnapi : env.napi = true) (hprep : PrepFails σ.onic.dev (env.addRx 0)) (grant : Grant) :
    Stuck x (sessionStep x grant conf σ (.ndoOpen env)) := by
  have hstreaming : Streaming x .c2h 0 (rxQconf conf 0) := ⟨rfl, rfl, rfl, hpos.trans_le hfits.rx⟩
  obtain ⟨hret, hdev⟩ := h.queues.add_prepFails hfits.pf hstreaming (by decide) rfl
    (haccepted.rx 0) hprep
  obtain ⟨hfailed, hleft⟩ := open_first grant hpos hret hdev
  rw [if_pos ⟨hstats, hnapi⟩] at hleft
  refine ⟨decide_eq_false hfailed, ?_⟩
  have hmarked : (((σ.onic.dev.setState (x.base .c2h + 0) .enabled).slots (x.base .c2h)).qState)
      = .enabled := congrArg Slot.qState (σ.onic.dev.setSlot_self _ _)
  unfold sessionStep
  dsimp only
  rw [hleft, hmarked]
  decide

end

/-- Where the range of the function cannot be set for the first receive queue in an open, the
interface never comes up again: its slot stays marked, and every later open fails. -/
theorem session_stuck {x : Xdev} {conf : OnicConf} (hfits : Fits x conf)
    (haccepted : Accepted x conf) (hpos : 0 < conf.realNumRxQueues) (grant : Grant)
    {rm : ResourceState} (other : ℕ → Slot) {e : DevEntry}
    (hentry : qdmaGetDevEntry rm x.dmaDeviceIndex x.funcId = some e)
    (hzero : ∀ t, e.activeQcnt t = 0) (hroom : x.qmax ≤ e.entry.totalQ) (es : List NetEvent)
    (h : Admitted (sessionStep x grant conf) (SessionAllowed x conf)
      (newSession (qdmaDeviceInit x rm other)) es) (env : OpenEnv) (hstats : env.stats = true)
    (hnapi : env.napi = true) :
    let σ := run (sessionStep x grant conf) (newSession (qdmaDeviceInit x rm other)) es
    σ.up = false → PrepFails σ.onic.dev (env.addRx 0) → ∀ es',
      Admitted (sessionStep x grant conf) (SessionOrdered conf)
        (sessionStep x grant conf σ (.ndoOpen env)) es' →
      let σ' := run (sessionStep x grant conf) (sessionStep x grant conf σ (.ndoOpen env)) es'
      σ'.up = false ∧ ∀ env', (onicOpen x grant conf env' σ'.onic).1 ≠ 0 := by
  intro σ hup hprep es' hordered σ'
  obtain ⟨lost, hinv⟩ := session_inv hfits grant other hentry hzero hroom h
  have hstuck := (hinv.partDown hup).open_stuck hfits haccepted hpos hstats hnapi hprep grant
  have hstays : Stuck x σ' := hordered.invariant
    (fun _ e' hσ hok => hσ.step hpos hfits grant e' hok) hstuck
  exact ⟨hstays.down, fun env' => (hstays.open_fails hpos hfits grant env').1⟩

/-- The range cannot be set in the first open, and the second one fails. -/
theorem rangeRun_stuck :
    let σ := run (sessionStep pollingPf (fun _ => true) twoByTwo)
      (sessionStep pollingPf (fun _ => true) twoByTwo
        (newSession (qdmaDeviceInit pollingPf fourQueues fun _ => newSlot))
        (.ndoOpen { addRx := fun _ => { prep := -EINVAL } }))
      [.ndoGetStats64, .ndoOpen {}]
    σ.up = false ∧ ∀ env, (onicOpen pollingPf (fun _ => true) twoByTwo env σ.onic).1 ≠ 0 := by
  refine session_stuck twoByTwo_fits ⟨fun _ => rfl, fun _ => rfl⟩ (by decide) (fun _ => true)
    (fun _ => newSlot) (e := { funcId := 0, entry := { qbase := 0, totalQ := 4 } })
    (by decide +kernel) (fun t => by cases t <;> rfl) (by decide) [] trivial
    { addRx := fun _ => { prep := -EINVAL } } rfl rfl rfl ⟨rfl, by decide⟩
    [.ndoGetStats64, .ndoOpen {}] ⟨trivial, ?_, trivial⟩
  change Session.up _ = false
  decide +kernel

end OnicDriver.Netdev
