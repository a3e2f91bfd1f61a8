import OnicDriver.Netdev.UpDown

/-!
# Opening and stopping an interface

What `onic_open` leaves for each function that may fail on its way, and what
`onic_stop` leaves of an interface that is up.
-/

namespace OnicDriver.Netdev

open Lib Access Queue Setup Resource Lifecycle

/-- The queues of an interface that is up are online. -/
def upQueues (conf : OnicConf) : QType → ℕ → QState :=
  setUpTo (setUpTo noQueues .c2h conf.realNumRxQueues .online) .h2c conf.realNumTxQueues .online

/-- The instances of an interface that is up are enabled, and scheduled if it polls. -/
def upInstances (conf : OnicConf) : ℕ → NapiState :=
  upTo conf.realNumRxQueues (if conf.pollMode then .scheduled else .enabled) noInstances

/-- An interface with new counters in a block of memory. -/
def Onic.withStats (conf : OnicConf) (s : Onic) (block : ℕ) : Onic :=
  { s with
    txQstats := { block := block }
    rxQstats := { block := block, entry := conf.realNumTxQueues }
    qstats := fun _ => {} }

/-- An interface with other NAPI instances and handles. -/
def Onic.withQueues (s : Onic) (napi baseRx baseTx : ℕ) : Onic :=
  { s with napi := napi, baseRxQHandle := baseRx, baseTxQHandle := baseTx }

/-- The ends of `onic_open` on an interface that is down: there are no counters; they have been
freed again; they are lost; or the interface is up. -/
inductive OpenResult (x : Xdev) (conf : OnicConf) (held : Multiset Thing) (f a : ℕ) (r : Onic) :
    ℤ × OpenStage × Onic → Prop
  | noStats {ret : ℤ} {s : Onic} (hret : ret ≠ 0)
      (h : Part x noQueues noInstances held f a { r with txQstats := {} } s) :
      OpenResult x conf held f a r (ret, .statsAlloc, s)
  | freed {ret : ℤ} {s : Onic} {p b a' : ℕ} (hret : ret ≠ 0) (ha : a + 1 ≤ a')
      (h : Part x noQueues noInstances held f a'
        ((r.withStats conf (a + 1)).withQueues p b r.baseTxQHandle) s) :
      OpenResult x conf held f a r (ret, .rxQueueSetup, s)
  | lost {ret : ℤ} {stage : OpenStage} {s : Onic} {b c : ℕ} (hret : ret ≠ 0)
      (hstage : stage = .txQueueSetup ∨ stage = .start)
      (h : Part x noQueues noInstances (.slab (a + 1) ::ₘ held) f (a + 2)
        ((r.withStats conf (a + 1)).withQueues (a + 2) b c) s) :
      OpenResult x conf held f a r (ret, stage, s)
  | opened {s : Onic}
      (h : Part x (upQueues conf) (upInstances conf)
        (.slab (a + 2) ::ₘ .slab (a + 1) ::ₘ held) f (a + 2)
        { (r.withStats conf (a + 1)).withQueues (a + 2)
            (baseAfter x .c2h r.baseRxQHandle conf.realNumRxQueues)
            (baseAfter x .h2c r.baseTxQHandle conf.realNumTxQueues) with
          txStarted := true
          carrierOk := true } s) :
      OpenResult x conf held f a r (0, .done, s)

section

variable {x : Xdev} {grant : Grant} {conf : OnicConf} {qs : QType → ℕ → QState}
  {inst : ℕ → NapiState} {held : Multiset Thing} {f a : ℕ} {r s : Onic} {n : ℕ}

/-! ## Parts -/

/-- The first instances get a new state. -/
theorem Part.setInstances (h : Part x qs inst held f a r s) (hnapi : Thing.slab r.napi ∈ held)
    (ok : NapiState → Bool) (hok : ∀ k < n, ok (inst k) = true) (new : NapiState) :
    Part x qs (upTo n new inst) held f a r
      ((List.range n).foldl (Onic.setInstance ok new) s) := by
  refine foldl_range_invariant (I := fun k s => Part x qs (upTo k new inst) held f a r s) ?_
    fun k hk s hs => ?_
  · rwa [upTo_zero]
  · have hset := hs.setInstance hnapi ok (k := k)
      (by rw [upTo_of_le (le_refl k)]; exact hok k hk) new
    rwa [update_upTo] at hset

/-- What holds in any order of the things that are held. -/
theorem Part.congr {held' : Multiset Thing} (h : Part x qs inst held f a r s)
    (heq : held = held') : Part x qs inst held' f a r s := heq ▸ h

theorem Part.txQstats (h : Part x qs inst held f a r s) : s.txQstats = r.txQstats := by
  rw [h.rest]

/-- The counters are freed. -/
theorem Part.freeStats {b : ℕ} (h : Part x qs inst (.slab b ::ₘ held) f a r s)
    (hstats : r.txQstats.block = b) (hb : b ≠ 0) :
    Part x qs inst held f a r { s with mem := Lifecycle.kfree s.txQstats.block s.mem } := by
  subst hstats
  have hfree := h.kfree hb
  rwa [← h.txQstats] at hfree

variable (conf) in
/-- The counters are obtained, or refused. -/
theorem Part.statsAlloc (h : Part x qs inst held f a r s) (env : OpenEnv) :
    (env.stats = true ∧ (onicStatsAlloc conf env s).1 = 0 ∧
        Part x qs inst (.slab (a + 1) ::ₘ held) f (a + 1) (r.withStats conf (a + 1))
          (onicStatsAlloc conf env s).2) ∨
      (env.stats = false ∧ (onicStatsAlloc conf env s).1 ≠ 0 ∧
        Part x qs inst held f a { r with txQstats := {} } (onicStatsAlloc conf env s).2) := by
  obtain ⟨d, m, rfl, hd, hm, rfl⟩ := h
  unfold onicStatsAlloc
  dsimp only
  rcases acquire_granted m env.stats with ⟨hstats, hacquire⟩ | ⟨hstats, hacquire⟩
  · rw [hacquire]
    dsimp only
    rw [if_neg (Nat.succ_ne_zero _)]
    exact .inl ⟨hstats, rfl, d, _, rfl, hd, ⟨congrArg (_ ::ₘ ·) hm.held, hm.faults⟩, rfl⟩
  · rw [hacquire]
    dsimp only
    rw [if_pos rfl]
    have hneg : -ENOMEM ≠ 0 := by decide
    exact .inr ⟨hstats, hneg, d, _, rfl, hd, ⟨hm.held, hm.faults⟩, rfl⟩

/-- The instances are enabled and, in poll mode, scheduled. -/
theorem Part.openDone
    (h : Part x qs (upTo conf.realNumRxQueues .added noInstances) held f a r s)
    (hnapi : Thing.slab r.napi ∈ held) :
    Part x qs (upInstances conf) held f a { r with txStarted := true, carrierOk := true }
      (openDone conf s) := by
  have henabled := h.setInstances (n := conf.realNumRxQueues) hnapi (· == .added)
    (fun k hk => by rw [upTo_of_lt hk]; decide) .enabled
  rw [upTo_upTo] at henabled
  have hall : Part x qs (upInstances conf) held f a r
      (if conf.pollMode then
        (List.range conf.realNumRxQueues).foldl napiSchedule
          ((List.range conf.realNumRxQueues).foldl napiEnable s)
      else (List.range conf.realNumRxQueues).foldl napiEnable s) := by
    unfold upInstances
    split
    · have hscheduled := henabled.setInstances (n := conf.realNumRxQueues) hnapi
        (· == .enabled) (fun k hk => by rw [upTo_of_lt hk]; decide) .scheduled
      rwa [upTo_upTo] at hscheduled
    · exact henabled
  unfold Netdev.openDone
  dsimp only
  obtain ⟨d, m, heq, hd, hm, ha⟩ := hall
  rw [heq]
  exact ⟨d, m, rfl, hd, hm, ha⟩

/-! ## Opening -/

/-- The queues of an interface fit the device. -/
structure Fits (x : Xdev) (conf : OnicConf) : Prop where
  pf : x.isVf = false
  rx : conf.realNumRxQueues ≤ x.qmax
  tx : conf.realNumTxQueues ≤ x.qmax

/-- The range of the function can be set when a queue is added. -/
structure RangeSet (conf : OnicConf) (env : OpenEnv) : Prop where
  rx : ∀ k < conf.realNumRxQueues, ¬ (env.addRx k).prep < 0
  tx : ∀ k < conf.realNumTxQueues, ¬ (env.addTx k).prep < 0

/-- All receive queues are given up. -/
theorem Part.releaseRx
    (h : Part x (setUpTo noQueues .c2h conf.realNumRxQueues .enabled)
      (upTo conf.realNumRxQueues .added noInstances) (.slab r.napi ::ₘ held) f a r s)
    (hfits : Fits x conf)
    (hbase : 0 < conf.realNumRxQueues → r.baseRxQHandle = x.base .c2h) (hnapi : r.napi ≠ 0) :
    Part x noQueues noInstances held f a r
      (onicQdmaRxQueueRelease x conf.realNumRxQueues s) := by
  have hback := h.rxQueueRelease hfits.pf hfits.rx hbase (fun k hk => setUpTo_of_lt hk)
    (fun k hk => upTo_of_lt hk) hnapi
  rwa [setUpTo_setUpTo, setUpTo_noQueues, upTo_upTo, upTo_noInstances] at hback

variable (grant) in
/-- `onic_open` on an interface that is down. -/
theorem Part.open (h : Part x noQueues noInstances held f a r s) (hfits : Fits x conf)
    {env : OpenEnv} (hrange : RangeSet conf env) :
    OpenResult x conf held f a r (onicOpen x grant conf env s) := by
  unfold onicOpen
  have hstats := h.statsAlloc conf env
  generalize onicStatsAlloc conf env s = res at hstats ⊢
  obtain ⟨ret, s₁⟩ := res
  dsimp only at hstats ⊢
  rcases hstats with ⟨-, rfl, h₁⟩ | ⟨-, hne, h₁⟩
  · rw [if_neg (not_not.mpr rfl)]
    have hrx := h₁.rxSetup conf hfits.pf hfits.rx hrange.rx
    generalize onicQdmaRxQueueSetup x conf env s₁ = res at hrx ⊢
    obtain ⟨ret, s₂⟩ := res
    dsimp only at hrx ⊢
    rcases hrx with ⟨rfl, h₂⟩ | ⟨hne, p, b, a', ha, h₂⟩
    · rw [if_neg (not_not.mpr rfl)]
      have htx := h₂.txSetup conf hfits.pf hfits.tx
        (fun k => setUpTo_of_ne (by decide)) hrange.tx
      generalize onicQdmaTxQueueSetup x conf env s₂ = res at htx ⊢
      obtain ⟨ret, s₃⟩ := res
      dsimp only at htx ⊢
      rcases htx with ⟨rfl, h₃⟩ | ⟨hne, b, h₃⟩
      · rw [if_neg (not_not.mpr rfl)]
        have hstart := h₃.qdmaStart grant conf hfits.rx hfits.tx
          baseAfter_pos baseAfter_pos
          (fun k hk => by rw [setUpTo_of_ne (by decide), setUpTo_of_lt hk])
          (fun k hk => setUpTo_of_lt hk) env
        generalize onicQdmaStart x grant conf env s₃ = res at hstart ⊢
        obtain ⟨ret, s₄⟩ := res
        dsimp only at hstart ⊢
        rcases hstart with ⟨rfl, h₄⟩ | ⟨hne, h₄⟩
        · rw [if_neg (not_not.mpr rfl)]
          rw [setUpTo_comm (t := .h2c) (u := .c2h) (by decide), setUpTo_setUpTo noQueues .c2h,
            setUpTo_setUpTo] at h₄
          exact .opened (h₄.openDone (Multiset.mem_cons_self _ _))
        · rw [if_pos hne]
          have hnoTx := h₄.txQueueRelease (n := conf.realNumTxQueues) hfits.pf hfits.tx
            baseAfter_pos (fun k hk => setUpTo_of_lt hk)
          rw [setUpTo_setUpTo, setUpTo_same fun k _ => setUpTo_of_ne (by decide)] at hnoTx
          exact .lost hne (.inr rfl) (hnoTx.releaseRx hfits baseAfter_pos (Nat.succ_ne_zero _))
      · rw [if_pos hne]
        exact .lost hne (.inl rfl) (h₃.releaseRx hfits baseAfter_pos (Nat.succ_ne_zero _))
    · rw [if_pos hne]
      exact .freed hne ha (h₂.freeStats rfl (Nat.succ_ne_zero a))
  · rw [if_pos hne]
    exact .noStats hne h₁

/-! ## Stopping -/

/-- `onic_stop` on an interface that is up. -/
theorem Part.stop {b : ℕ} (h : Part x (upQueues conf) (upInstances conf)
      (.slab r.napi ::ₘ .slab b ::ₘ held) f a r s) (hfits : Fits x conf)
    (hbaseRx : 0 < conf.realNumRxQueues → r.baseRxQHandle = x.base .c2h)
    (hbaseTx : 0 < conf.realNumTxQueues → r.baseTxQHandle = x.base .h2c) (hnapi : r.napi ≠ 0)
    (hstats : r.txQstats.block = b) (hb : b ≠ 0) :
    (onicStop x conf s).1 = 0 ∧ Part x noQueues noInstances held f a
      { r with txStarted := false, carrierOk := false } (onicStop x conf s).2 := by
  have hdown : Part x (upQueues conf) (upInstances conf) (.slab r.napi ::ₘ .slab b ::ₘ held) f a
      { r with txStarted := false, carrierOk := false }
      { s with txStarted := false, carrierOk := false } := by
    obtain ⟨d, m, rfl, hd, hm, ha⟩ := h
    exact ⟨d, m, rfl, hd, hm, ha⟩
  have hdisabled := hdown.setInstances (n := conf.realNumRxQueues) (Multiset.mem_cons_self _ _)
    (fun st => st == .enabled || st == .scheduled)
    (fun k hk => by
      unfold upInstances
      rw [upTo_of_lt hk]
      split <;> decide) .added
  unfold upInstances at hdisabled
  rw [upTo_upTo] at hdisabled
  unfold onicStop
  dsimp only
  have hstop := hdisabled.qdmaStop hfits.rx hfits.tx hbaseRx hbaseTx
    (fun k hk => by
      unfold upQueues
      rw [setUpTo_of_ne (by decide), setUpTo_of_lt hk])
    (fun k hk => by
      unfold upQueues
      rw [setUpTo_of_lt hk])
  unfold upQueues at hstop
  rw [setUpTo_comm (t := .h2c) (u := .c2h) (by decide), setUpTo_setUpTo noQueues .c2h,
    setUpTo_setUpTo] at hstop
  obtain ⟨hret, hstopped⟩ := hstop
  have hnoRx := hstopped.rxQueueRelease (n := conf.realNumRxQueues) hfits.pf hfits.rx hbaseRx
    (fun k hk => by rw [setUpTo_of_ne (by decide), setUpTo_of_lt hk])
    (fun k hk => upTo_of_lt hk) hnapi
  rw [setUpTo_comm (t := .h2c) (u := .c2h) (by decide), setUpTo_setUpTo, setUpTo_noQueues,
    upTo_upTo, upTo_noInstances] at hnoRx
  have hnone := hnoRx.txQueueRelease (n := conf.realNumTxQueues) hfits.pf hfits.tx hbaseTx
    (fun k hk => setUpTo_of_lt hk)
  rw [setUpTo_setUpTo, setUpTo_noQueues] at hnone
  exact ⟨hret, hnone.freeStats hstats hb⟩

/-! ## How far opening gets -/

/-- The device accepts the configurations of the queues. -/
structure Accepted (x : Xdev) (conf : OnicConf) : Prop where
  rx : ∀ k, qdmaQueueAddAccepts x.attributes x.ipType (rxQconf conf k).conf = true
  tx : ∀ k, qdmaQueueAddAccepts x.attributes x.ipType (txQconf conf k).conf = true

/-- A queue cannot be added where its legacy interrupt cannot be set up. -/
theorem add_legacyFails {d : Device} {c : ClientConf} {env : AddEnv} (hlegacy : LegacyFails x env)
    (hprep : ¬ env.prep < 0) : (qdmaQueueAdd x d c env).1 ≠ 0 := by
  have hadd := qdmaQueueAdd_result x d c env
  generalize qdmaQueueAdd x d c env = res at hadd ⊢
  cases hadd with
  | refused hneg => exact hneg.ne
  | unwound hslot hneg => exact hneg.ne
  | marked hslot hpf hfails => exact absurd hfails.2 hprep
  | uncounted hslot hfails hno hcount hneg => exact hneg.ne
  | added hslot hfails hno hcount hok => exact absurd hlegacy hno

theorem rxQueueSetup_ret (env : OpenEnv) (s : Onic) (k : ℕ) :
    (rxQueueSetup x conf env s k).1 = 0 ↔
      (qdmaQueueAdd x s.dev (rxQconf conf k) (env.addRx k)).1 = 0 := by
  unfold rxQueueSetup onicQdmaRxQueueAdd
  generalize qdmaQueueAdd x s.dev (rxQconf conf k) (env.addRx k) = res
  obtain ⟨ret, qHandle, d⟩ := res
  by_cases hret : ret = 0 <;> simp [hret]

theorem txQueueAdd_ret (env : OpenEnv) (s : Onic) (k : ℕ) :
    (txQueueAdd x conf env s k).1 = 0 ↔
      (qdmaQueueAdd x s.dev (txQconf conf k) (env.addTx k)).1 = 0 := by
  unfold txQueueAdd
  generalize qdmaQueueAdd x s.dev (txQconf conf k) (env.addTx k) = res
  obtain ⟨ret, qHandle, d⟩ := res
  by_cases hret : ret = 0 <;> simp [hret]

/-- Receive queues can be added exactly up to the first legacy interrupt that fails. -/
theorem Part.addRxQueues_ret (h : Part x noQueues noInstances held f a r s) (hfits : Fits x conf)
    (haccepted : Accepted x conf) (hnapi : Thing.slab r.napi ∈ held) {env : OpenEnv}
    (hrange : RangeSet conf env) :
    (untilFailure (Netdev.rxQueueSetup x conf env) conf.realNumRxQueues 0 s).1 = 0 ↔
      ∀ k < conf.realNumRxQueues, ¬ LegacyFails x (env.addRx k) := by
  apply untilFailure_eq_zero_iff (I := fun k s => Part x (setUpTo noQueues .c2h k .enabled)
    (upTo k .added noInstances) held f a
    { r with baseRxQHandle := baseAfter x .c2h r.baseRxQHandle k } s)
  · rw [setUpTo_zero, upTo_zero]
    exact h
  · intro k hk s hs
    have hlt := hk.trans_le hfits.rx
    have hadd := hs.rxQueueSetup conf hfits.pf hlt (setUpTo_of_le (le_refl k))
      (upTo_of_le (le_refl k)) hnapi (hrange.rx k hk)
    rw [setState_setUpTo, update_upTo] at hadd
    rcases hadd with ⟨hret, hnext⟩ | ⟨hret, -⟩
    · exact .inl ⟨hret, fun hlegacy => add_legacyFails hlegacy (hrange.rx k hk)
        ((rxQueueSetup_ret env s k).mp hret), hnext⟩
    · refine .inr ⟨hret, fun hok => hret ((rxQueueSetup_ret env s k).mpr ?_)⟩
      exact hs.queues.add_succeeds (t := .c2h) hfits.pf ⟨rfl, rfl, rfl, hlt⟩ (by decide)
        (setUpTo_of_le (le_refl k)) (haccepted.rx k) (hrange.rx k hk) hok

/-- Transmit queues can be added exactly up to the first legacy interrupt that fails. -/
theorem Part.addTxQueues_ret (h : Part x qs inst held f a r s) (hfits : Fits x conf)
    (haccepted : Accepted x conf) (hqs : ∀ k, qs .h2c k = .disabled) {env : OpenEnv}
    (hrange : RangeSet conf env) :
    (untilFailure (Netdev.txQueueAdd x conf env) conf.realNumTxQueues 0 s).1 = 0 ↔
      ∀ k < conf.realNumTxQueues, ¬ LegacyFails x (env.addTx k) := by
  apply untilFailure_eq_zero_iff (I := fun k s => Part x (setUpTo qs .h2c k .enabled) inst held f a
    { r with baseTxQHandle := baseAfter x .h2c r.baseTxQHandle k } s)
  · rw [setUpTo_zero]
    exact h
  · intro k hk s hs
    have hlt := hk.trans_le hfits.tx
    have hfree : setUpTo qs .h2c k .enabled .h2c k = .disabled :=
      (setUpTo_of_le (le_refl k)).trans (hqs k)
    have hadd := hs.txQueueAdd conf hfits.pf hlt hfree (hrange.tx k hk)
    rw [setState_setUpTo] at hadd
    rcases hadd with ⟨hret, hnext⟩ | ⟨hret, -⟩
    · exact .inl ⟨hret, fun hlegacy => add_legacyFails hlegacy (hrange.tx k hk)
        ((txQueueAdd_ret env s k).mp hret), hnext⟩
    · refine .inr ⟨hret, fun hok => hret ((txQueueAdd_ret env s k).mpr ?_)⟩
      exact hs.queues.add_succeeds (t := .h2c) hfits.pf ⟨rfl, rfl, rfl, hlt⟩ (by decide) hfree
        (haccepted.tx k) (hrange.tx k hk) hok

/-- The receive queues are set up exactly if there is memory for their instances and no legacy
interrupt fails. -/
theorem Part.rxSetup_ret (h : Part x noQueues noInstances held f a r s) (hfits : Fits x conf)
    (haccepted : Accepted x conf) {env : OpenEnv} (hrange : RangeSet conf env) :
    (onicQdmaRxQueueSetup x conf env s).1 = 0 ↔
      env.napi = true ∧ ∀ k < conf.realNumRxQueues, ¬ LegacyFails x (env.addRx k) := by
  obtain ⟨d, m, rfl, hd, hm, rfl⟩ := h
  unfold onicQdmaRxQueueSetup
  dsimp only
  rcases acquire_granted m env.napi with ⟨hnapi, hacquire⟩ | ⟨hnapi, hacquire⟩
  · rw [hacquire]
    dsimp only
    rw [if_neg (Nat.succ_ne_zero _), hnapi]
    have hloop := (newInstances (r := r) hd hm).addRxQueues_ret hfits haccepted
      (Multiset.mem_cons_self _ _) hrange
    generalize untilFailure (Netdev.rxQueueSetup x conf env) conf.realNumRxQueues 0 _ = res
      at hloop ⊢
    obtain ⟨ret, qNo, s'⟩ := res
    dsimp only at hloop ⊢
    by_cases hret : ret = 0
    · rw [if_neg (not_not.mpr hret)]
      exact iff_of_true rfl ⟨rfl, hloop.mp hret⟩
    · rw [if_pos hret]
      exact iff_of_false hret fun hall => hret (hloop.mpr hall.2)
  · rw [hacquire]
    dsimp only
    rw [if_pos rfl, hnapi]
    have hneg : -ENOMEM ≠ 0 := by decide
    exact iff_of_false hneg fun hall => Bool.false_ne_true hall.1

/-- The transmit queues are set up exactly if no legacy interrupt fails. -/
theorem Part.txSetup_ret (h : Part x qs inst held f a r s) (hfits : Fits x conf)
    (haccepted : Accepted x conf) (hqs : ∀ k, qs .h2c k = .disabled) {env : OpenEnv}
    (hrange : RangeSet conf env) :
    (onicQdmaTxQueueSetup x conf env s).1 = 0 ↔
      ∀ k < conf.realNumTxQueues, ¬ LegacyFails x (env.addTx k) := by
  have hloop := h.addTxQueues_ret hfits haccepted hqs hrange
  unfold onicQdmaTxQueueSetup
  generalize untilFailure (Netdev.txQueueAdd x conf env) conf.realNumTxQueues 0 s = res
    at hloop ⊢
  obtain ⟨ret, qNo, s'⟩ := res
  dsimp only at hloop ⊢
  rw [← hloop]
  by_cases hret : ret = 0
  · rw [if_neg (not_not.mpr hret)]
    exact iff_of_true rfl hret
  · rw [if_pos hret]

/-- What the setup of the queues of an interface asks for. -/
structure SetUp (x : Xdev) (conf : OnicConf) (env : OpenEnv) : Prop where
  stats : env.stats = true
  napi : env.napi = true
  rx : ∀ k < conf.realNumRxQueues, ¬ LegacyFails x (env.addRx k)
  tx : ∀ k < conf.realNumTxQueues, ¬ LegacyFails x (env.addTx k)

/-- `onic_open` on an interface that is down gets to the start of the queues exactly if their setup
gets what it asks for. -/
theorem Part.open_stage (h : Part x noQueues noInstances held f a r s) (hfits : Fits x conf)
    (haccepted : Accepted x conf) {env : OpenEnv} (hrange : RangeSet conf env) :
    ((onicOpen x grant conf env s).2.1 = .start ∨ (onicOpen x grant conf env s).2.1 = .done) ↔
      SetUp x conf env := by
  unfold onicOpen
  have hstats := h.statsAlloc conf env
  generalize onicStatsAlloc conf env s = res at hstats ⊢
  obtain ⟨ret, s₁⟩ := res
  dsimp only at hstats ⊢
  rcases hstats with ⟨hgranted, rfl, h₁⟩ | ⟨hrefused, hne, -⟩
  · rw [if_neg (not_not.mpr rfl)]
    have hrx := h₁.rxSetup conf hfits.pf hfits.rx hrange.rx
    have hrxRet := h₁.rxSetup_ret hfits haccepted hrange
    generalize onicQdmaRxQueueSetup x conf env s₁ = res at hrx hrxRet ⊢
    obtain ⟨ret, s₂⟩ := res
    dsimp only at hrx hrxRet ⊢
    rcases hrx with ⟨rfl, h₂⟩ | ⟨hne, -⟩
    · rw [if_neg (not_not.mpr rfl)]
      obtain ⟨hnapi, hokRx⟩ := hrxRet.mp rfl
      have htxRet := h₂.txSetup_ret hfits haccepted (fun k => setUpTo_of_ne (by decide)) hrange
      generalize onicQdmaTxQueueSetup x conf env s₂ = res at htxRet ⊢
      obtain ⟨ret, s₃⟩ := res
      dsimp only at htxRet ⊢
      by_cases hret : ret = 0
      · rw [if_neg (not_not.mpr hret)]
        refine iff_of_true ?_ ⟨hgranted, hnapi, hokRx, htxRet.mp hret⟩
        split
        · exact .inl rfl
        · exact .inr rfl
      · rw [if_pos hret]
        exact iff_of_false (by simp) fun hall => hret (htxRet.mpr hall.tx)
    · rw [if_pos hne]
      exact iff_of_false (by simp) fun hall => hne (hrxRet.mpr ⟨hall.napi, hall.rx⟩)
  · rw [if_pos hne]
    refine iff_of_false (by simp) fun hall => ?_
    rw [hall.stats] at hrefused
    cases hrefused

end

end OnicDriver.Netdev
