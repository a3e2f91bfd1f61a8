import OnicDriver.Netdev.OpenStop

/-!
# Sessions of an interface

The network stack opens an interface that is down and stops one that is up,
and asks for the counters at any time. An open that fails after the receive
queues were set up loses the counters, and a stop leaves a pointer to them.
-/

namespace OnicDriver.Netdev

open Lib Access Queue Setup Resource Lifecycle

/-- What `tx_qstats` leads to: nothing, counters that are held, or memory that was freed. -/
inductive Counters
  | none
  | held
  | freed
  deriving DecidableEq, Repr

/-- An interface in the hands of the network stack: whether it is up, how many blocks of counters
have been lost, what became of the last one, the reads of freed memory, and the traffic since it was
last brought up. -/
structure Session where
  onic : Onic
  up : Bool := false
  lost : ℕ := 0
  counters : Counters := .none
  badReads : ℕ := 0
  traffic : LinkStats := {}

/-- A call of the network stack, a packet on a queue, or a step of the resource manager that is not
for the function. -/
inductive NetEvent
  | ndoOpen (env : OpenEnv)
  | ndoStop
  | ndoGetStats64
  | received (q len : ℕ)
  | sent (q len : ℕ)
  | dropped (q : ℕ)
  | others (rm : ResourceState)

/-- The counters after an open: lost once the receive queues were set up, unless all went well. -/
def countersAfter : OpenStage → Counters
  | .statsAlloc => .none
  | .rxQueueSetup => .freed
  | .txQueueSetup => .held
  | .start => .held
  | .done => .held

/-- Whether an open loses the counters. -/
def losesCounters : OpenStage → Bool
  | .txQueueSetup => true
  | .start => true
  | _ => false

/-- The session after an event. -/
def sessionStep (x : Xdev) (grant : Grant) (conf : OnicConf) (σ : Session) : NetEvent → Session
  | .ndoOpen env =>
    let (ret, stage, onic) := onicOpen x grant conf env σ.onic
    { onic := onic
      up := decide (ret = 0)
      lost := if losesCounters stage then σ.lost + 1 else σ.lost
      counters := countersAfter stage
      badReads := σ.badReads
      traffic := {} }
  | .ndoStop => { σ with onic := (onicStop x conf σ.onic).2, up := false, counters := .freed }
  | .ndoGetStats64 =>
    { σ with
      onic := (onicGetStats64 conf σ.onic {}).2
      badReads := σ.badReads +
        if σ.counters = .freed then conf.realNumTxQueues + conf.realNumRxQueues else 0 }
  | .received q len =>
    { σ with
      onic := countReceived (σ.onic.baseRxQHandle + q) len σ.onic
      traffic := { σ.traffic with
        rxPackets := σ.traffic.rxPackets + 1
        rxBytes := σ.traffic.rxBytes + UInt64.ofNat len } }
  | .sent q len =>
    { σ with
      onic := countSent q len σ.onic
      traffic := { σ.traffic with
        txPackets := σ.traffic.txPackets + 1
        txBytes := σ.traffic.txBytes + UInt64.ofNat len } }
  | .dropped q =>
    { σ with
      onic := countDropped q σ.onic
      traffic := { σ.traffic with txDropped := σ.traffic.txDropped + 1 } }
  | .others rm => { σ with onic := { σ.onic with dev := { σ.onic.dev with rm := rm } } }

/-- The network stack opens what is down and stops what is up, packets go through queues of an
interface that is up, and the range of the function can be set when a queue is added. -/
def SessionAllowed (x : Xdev) (conf : OnicConf) (σ : Session) : NetEvent → Prop
  | .ndoOpen env => σ.up = false ∧ RangeSet conf env
  | .ndoStop => σ.up = true
  | .ndoGetStats64 => True
  | .received q _ => σ.up = true ∧ q < conf.realNumRxQueues
  | .sent q _ => σ.up = true ∧ q < conf.realNumTxQueues
  | .dropped q => σ.up = true ∧ q < conf.realNumTxQueues
  | .others rm => qdmaGetDevEntry rm x.dmaDeviceIndex x.funcId =
      qdmaGetDevEntry σ.onic.dev.rm x.dmaDeviceIndex x.funcId

/-- The number of queues that are online, by the way the resource manager counts them. -/
def activeCount (conf : OnicConf) (up : Bool) : QType → ℕ
  | .h2c => if up then conf.realNumTxQueues else 0
  | .c2h => if up then conf.realNumRxQueues else 0
  | .cmpt => if up then conf.realNumRxQueues else 0

/-- Exactly the queues and instances of an interface that is up are there, under their handles; of
the memory nothing is left but the counters that were lost; and nothing is used but what is held,
other than the counters read after they were freed. -/
structure InSession (x : Xdev) (conf : OnicConf) (σ : Session) : Prop where
  rx : ∀ k < x.qmax, (σ.onic.dev.slots (x.base .c2h + k)).qState =
    if σ.up = true ∧ k < conf.realNumRxQueues then .online else .disabled
  tx : ∀ k < x.qmax, (σ.onic.dev.slots (x.base .h2c + k)).qState =
    if σ.up = true ∧ k < conf.realNumTxQueues then .online else .disabled
  cmpt : ∀ k < x.qmax, (σ.onic.dev.slots (x.base .cmpt + k)).qState = .disabled
  counts : ∃ e, qdmaGetDevEntry σ.onic.dev.rm x.dmaDeviceIndex x.funcId = some e ∧
    ∀ t, e.activeQcnt (devQType t) = activeCount conf σ.up t
  handles : σ.up = true →
    (∀ k < conf.realNumRxQueues, qdmaDeviceGetDescqById x σ.onic.dev (σ.onic.baseRxQHandle + k) true
      = some (x.base .c2h + k)) ∧
    ∀ k < conf.realNumTxQueues, qdmaDeviceGetDescqById x σ.onic.dev (σ.onic.baseTxQHandle + k) true
      = some (x.base .h2c + k)
  instances : ∀ q, σ.onic.instances q =
    if σ.up = true ∧ q < conf.realNumRxQueues then
      if conf.pollMode then .scheduled else .enabled
    else .absent
  stack : σ.onic.txStarted = σ.up ∧ σ.onic.carrierOk = σ.up
  memory : σ.onic.mem.held.card = σ.lost + if σ.up then 2 else 0
  faults : σ.onic.mem.faults = σ.badReads

/-- The session before the interface is first brought up. -/
def newSession (d : Device) : Session := { onic := { dev := d } }

/-! ## The invariant -/

/-- What is held of the memory of an interface. -/
def Session.held (σ : Session) (lost : Multiset ℕ) : Multiset Thing :=
  if σ.up then
    .slab σ.onic.napi ::ₘ .slab σ.onic.txQstats.block ::ₘ lost.map .slab
  else lost.map .slab

/-- The pointers to the counters are what the session takes them for. -/
structure PointersOk (conf : OnicConf) (σ : Session) : Prop where
  none : σ.counters = .none → σ.onic.txQstats.block = 0
  some : σ.counters ≠ .none → σ.onic.txQstats.block ≠ 0 ∧ σ.onic.txQstats.entry = 0 ∧
    σ.onic.rxQstats = { block := σ.onic.txQstats.block, entry := conf.realNumTxQueues }
  held : σ.counters = .held → Thing.slab σ.onic.txQstats.block ∈ σ.onic.mem.held
  freed : σ.counters = .freed → ∀ t ∈ σ.onic.mem.held, Thing.isAt σ.onic.txQstats.block t = false

/-- An interface that is up has its handles and its memory. -/
structure UpOk (x : Xdev) (conf : OnicConf) (lost : Multiset ℕ) (σ : Session) : Prop where
  rx : 0 < conf.realNumRxQueues → σ.onic.baseRxQHandle = x.base .c2h
  tx : 0 < conf.realNumTxQueues → σ.onic.baseTxQHandle = x.base .h2c
  napi : σ.onic.napi ≠ 0
  counters : σ.counters = .held
  kept : σ.onic.txQstats.block ∉ lost

/-- The invariant of the sessions, with the blocks of counters that were lost. -/
structure SessionInv (x : Xdev) (conf : OnicConf) (lost : Multiset ℕ) (σ : Session) : Prop where
  card : lost.card = σ.lost
  old : ∀ b ∈ lost, b ≤ σ.onic.mem.addresses
  part : Part x (if σ.up then upQueues conf else noQueues)
    (if σ.up then upInstances conf else noInstances) (σ.held lost) σ.badReads
    σ.onic.mem.addresses σ.onic σ.onic
  stack : σ.onic.txStarted = σ.up ∧ σ.onic.carrierOk = σ.up
  pointers : PointersOk conf σ
  up : σ.up = true → UpOk x conf lost σ

section

variable {x : Xdev} {grant : Grant} {conf : OnicConf} {qs : QType → ℕ → QState}
  {inst : ℕ → NapiState} {held : Multiset Thing} {f a : ℕ} {r s : Onic} {σ : Session}
  {lost : Multiset ℕ}

theorem Part.self (h : Part x qs inst held f a r s) :
    Part x qs inst held f s.mem.addresses s s := by
  obtain ⟨d, m, rfl, hd, hm, rfl⟩ := h
  exact ⟨d, m, rfl, hd, hm, rfl⟩

theorem Part.of_fields (hd : Queues x qs s.dev) (hinst : s.instances = inst)
    (hm : s.mem.Are held f) : Part x qs inst held f s.mem.addresses s s :=
  ⟨s.dev, s.mem, by rw [← hinst], hd, hm, rfl⟩

theorem Part.are (h : Part x qs inst held f a r s) : s.mem.Are held f := by
  obtain ⟨d, m, rfl, -, hm, -⟩ := h
  exact hm

theorem Part.addresses (h : Part x qs inst held f a r s) : s.mem.addresses = a := by
  obtain ⟨d, m, rfl, -, -, ha⟩ := h
  exact ha

theorem Part.instances (h : Part x qs inst held f a r s) : s.instances = inst := by
  obtain ⟨d, m, rfl, -⟩ := h
  rfl

/-- Memory of another block. -/
theorem isAt_of_ne {b c : ℕ} (h : c ≠ b) : Thing.isAt b (.slab c) = false :=
  beq_eq_false_iff_ne.mpr h

/-! ## What the invariant says -/

/-- The number of the first indices below a limit. -/
theorem count_lt {n m : ℕ} (h : n ≤ m) : Nat.count (fun k => k < n) m = n := by
  induction m with
  | zero => exact (Nat.count_zero _).trans (Nat.le_zero.mp h).symm
  | succ m ih =>
    rw [Nat.count_succ]
    rcases Nat.le_succ_iff.mp h with hle | rfl
    · rw [ih hle, if_neg (by omega), Nat.add_zero]
    · have hall : Nat.count (fun k => k < m + 1) m = m :=
        Nat.count_iff_forall.mpr fun k hk => by omega
      rw [hall, if_pos (Nat.lt_succ_self m)]

theorem SessionInv.queueState (h : SessionInv x conf lost σ) :
    (∀ k < x.qmax, (σ.onic.dev.slots (x.base .c2h + k)).qState =
        if σ.up = true ∧ k < conf.realNumRxQueues then .online else .disabled) ∧
      (∀ k < x.qmax, (σ.onic.dev.slots (x.base .h2c + k)).qState =
        if σ.up = true ∧ k < conf.realNumTxQueues then .online else .disabled) := by
  have hstate := h.part.queues.state
  cases hup : σ.up with
  | false =>
    rw [hup] at hstate
    simp only [Bool.false_eq_true, if_false, false_and] at hstate ⊢
    exact ⟨hstate .c2h, hstate .h2c⟩
  | true =>
    rw [hup] at hstate
    simp only [if_true, true_and] at hstate ⊢
    refine ⟨fun k hk => ?_, fun k hk => ?_⟩
    · rw [hstate .c2h k hk, upQueues, setUpTo_of_ne (by decide)]
      simp only [setUpTo, true_and]
      rfl
    · rw [hstate .h2c k hk, upQueues]
      simp only [setUpTo, true_and]
      rfl

theorem SessionInv.counts (h : SessionInv x conf lost σ) (hfits : Fits x conf) :
    ∃ e, qdmaGetDevEntry σ.onic.dev.rm x.dmaDeviceIndex x.funcId = some e ∧
      ∀ t, e.activeQcnt (devQType t) = activeCount conf σ.up t := by
  obtain ⟨q, ⟨e, hentry, -, hn⟩, -⟩ := h.part.queues.counts.counted
  obtain ⟨hrx, htx⟩ := h.queueState
  have hnum : ∀ n, n ≤ x.qmax → ∀ P : ℕ → Prop, ∀ [DecidablePred P],
      (∀ k < x.qmax, P k ↔ σ.up = true ∧ k < n) → Nat.count P x.qmax = if σ.up then n else 0 := by
    intro n hn P _ hP
    have hcongr : Nat.count P x.qmax = Nat.count (fun k => σ.up = true ∧ k < n) x.qmax :=
      le_antisymm (Nat.count_mono_left fun k hk => (hP k hk).mp)
        (Nat.count_mono_left fun k hk => (hP k hk).mpr)
    rw [hcongr]
    cases σ.up with
    | false => simp
    | true => simpa using count_lt hn
  have hon : ∀ (st : Bool) (n k : ℕ), (if st = true ∧ k < n then QState.online else .disabled) ≠
      .disabled ↔ st = true ∧ k < n := by
    intro st n k
    split
    · rename_i hall
      exact iff_of_true (by decide) hall
    · rename_i hall
      exact iff_of_false (by simp) hall
  have hcmpt : numQueues x σ.onic.dev .cmpt = 0 := Nat.count_iff_forall_not.mpr fun k hk hne =>
    hne ((h.part.queues.state .cmpt k hk).trans (h.part.queues.cmpt k))
  refine ⟨e, hentry, fun t => ?_⟩
  rw [hn t]
  cases t with
  | h2c =>
    refine hnum _ hfits.tx _ fun k hk => ?_
    dsimp only
    rw [htx k hk]
    exact hon _ _ _
  | c2h =>
    refine hnum _ hfits.rx _ fun k hk => ?_
    dsimp only
    rw [hrx k hk]
    exact hon _ _ _
  | cmpt =>
    have hstreaming : numStreaming x σ.onic.dev = if σ.up then conf.realNumRxQueues else 0 := by
      refine hnum _ hfits.rx _ fun k hk => ?_
      dsimp only
      rw [hrx k hk, hon]
      refine and_iff_left_of_imp fun hall => h.part.queues.st .c2h k hk ?_
      rw [← h.part.queues.state .c2h k hk, hrx k hk]
      exact (hon _ _ _).mpr hall
    unfold Device.expected
    rw [hcmpt, hstreaming, Nat.zero_add]
    rfl

theorem SessionInv.handles (h : SessionInv x conf lost σ) (hfits : Fits x conf)
    (hup : σ.up = true) :
    (∀ k < conf.realNumRxQueues,
        qdmaDeviceGetDescqById x σ.onic.dev (σ.onic.baseRxQHandle + k) true =
          some (x.base .c2h + k)) ∧
      ∀ k < conf.realNumTxQueues,
        qdmaDeviceGetDescqById x σ.onic.dev (σ.onic.baseTxQHandle + k) true =
          some (x.base .h2c + k) := by
  have hqueues := h.part.queues
  rw [hup, if_pos rfl] at hqueues
  constructor
  · intro k hk
    rw [(h.up hup).rx (by omega)]
    refine hqueues.found (hk.trans_le hfits.rx) ?_
    rw [upQueues, setUpTo_of_ne (by decide), setUpTo_of_lt hk]
    decide
  · intro k hk
    rw [(h.up hup).tx (by omega)]
    refine hqueues.found (hk.trans_le hfits.tx) ?_
    rw [upQueues, setUpTo_of_lt hk]
    decide

theorem SessionInv.inSession (h : SessionInv x conf lost σ) (hfits : Fits x conf) :
    InSession x conf σ := by
  obtain ⟨hrx, htx⟩ := h.queueState
  refine ⟨hrx, htx, ?_, h.counts hfits, h.handles hfits, fun q => ?_, h.stack, ?_,
    h.part.are.faults⟩
  · exact fun k hk => (h.part.queues.state .cmpt k hk).trans (h.part.queues.cmpt k)
  · rw [h.part.instances]
    cases σ.up with
    | false => rfl
    | true =>
      simp only [if_true, true_and]
      rfl
  · rw [h.part.are.held, Session.held, ← h.card]
    cases σ.up with
    | false => simp
    | true => simp

/-! ## Reading the counters -/

/-- Counters that are held are accessed. -/
theorem useStats_held {p : StatsPtr} (h : Thing.slab p.block ∈ s.mem.held) : s.useStats p = s := by
  have hsome : s.mem.held.countP (Thing.isAt p.block ·) ≠ 0 :=
    (Multiset.countP_pos.mpr ⟨_, h, beq_self_eq_true _⟩).ne'
  unfold Onic.useStats Holdings.use
  rw [if_neg hsome]

/-- Each read of counters that are not held is a fault. -/
theorem addStats_snd (n : ℕ) (p : StatsPtr) (add : LinkStats → LinkStats → LinkStats)
    (res : LinkStats × Onic) :
    (addStats n p add res).2 =
      { res.2 with
        mem :=
          { res.2.mem with
            faults := res.2.mem.faults +
              if res.2.mem.held.countP (Thing.isAt p.block ·) = 0 then n else 0 } } := by
  unfold addStats
  refine foldl_range_invariant (I := fun k (res' : LinkStats × Onic) => res'.2 =
    { res.2 with
      mem :=
        { res.2.mem with
          faults := res.2.mem.faults +
            if res.2.mem.held.countP (Thing.isAt p.block ·) = 0 then k else 0 } })
    ?_ fun k hk res' hres => ?_
  · simp
  · dsimp only
    rw [hres]
    unfold Onic.useStats Holdings.use Holdings.fault
    by_cases hnone : res.2.mem.held.countP (Thing.isAt p.block ·) = 0
    · simp [hnone, Nat.add_assoc]
    · simp [hnone]

/-- What `onic_get_stats64` does to the interface. -/
theorem PointersOk.getStats (h : PointersOk conf σ) (stats : LinkStats) :
    (onicGetStats64 conf σ.onic stats).2 =
      { σ.onic with
        mem :=
          { σ.onic.mem with
            faults := σ.onic.mem.faults +
              if σ.counters = .freed then conf.realNumTxQueues + conf.realNumRxQueues else 0 } } :=
    by
  unfold onicGetStats64
  cases hcounters : σ.counters with
  | none =>
    rw [if_neg fun hall => hall.1 (h.none hcounters)]
    simp
  | held =>
    obtain ⟨hne, -, hrx⟩ := h.some (by rw [hcounters]; decide)
    have hheld : σ.onic.mem.held.countP (Thing.isAt σ.onic.txQstats.block ·) ≠ 0 :=
      (Multiset.countP_pos.mpr ⟨_, h.held hcounters, beq_self_eq_true _⟩).ne'
    rw [hrx, if_pos ⟨hne, hne⟩]
    dsimp only
    rw [addStats_snd, addStats_snd]
    simp [hheld]
  | freed =>
    obtain ⟨hne, -, hrx⟩ := h.some (by rw [hcounters]; decide)
    have hnone : σ.onic.mem.held.countP (Thing.isAt σ.onic.txQstats.block ·) = 0 :=
      Multiset.countP_eq_zero.mpr fun t ht hat => by
        rw [h.freed hcounters t ht] at hat
        cases hat
    rw [hrx, if_pos ⟨hne, hne⟩]
    dsimp only
    rw [addStats_snd, addStats_snd]
    simp [hnone, Nat.add_assoc]

/-! ## Steps -/

/-- An interface that is down, with counters that are not held. -/
theorem SessionInv.down (hcard : lost.card = σ.lost) (hup : σ.up = false)
    (hpart : Part x noQueues noInstances (lost.map .slab) σ.badReads a r σ.onic)
    (hold : ∀ b ∈ lost, b ≤ a) (hstack : r.txStarted = false ∧ r.carrierOk = false)
    (hpointers : PointersOk conf σ) : SessionInv x conf lost σ := by
  refine ⟨hcard, fun b hb => (hold b hb).trans_eq hpart.addresses.symm, ?_, ?_, hpointers, ?_⟩
  · unfold Session.held
    rw [hup]
    exact hpart.self
  · rw [hup]
    obtain ⟨d, m, heq, -⟩ := hpart
    rw [heq]
    exact hstack
  · intro htrue
    rw [hup] at htrue
    cases htrue

/-- An interface that is down has nothing but the counters that were lost. -/
theorem SessionInv.partDown (h : SessionInv x conf lost σ) (hup : σ.up = false) :
    Part x noQueues noInstances (lost.map .slab) σ.badReads σ.onic.mem.addresses σ.onic σ.onic := by
  have hpart := h.part
  unfold Session.held at hpart
  rw [hup] at hpart
  exact hpart

/-- An open leaves a session in order. -/
theorem SessionInv.open (h : SessionInv x conf lost σ) (hfits : Fits x conf) {env : OpenEnv}
    (hup : σ.up = false) (hrange : RangeSet conf env) :
    ∃ lost', SessionInv x conf lost' (sessionStep x grant conf σ (.ndoOpen env)) := by
  have hstack := h.stack
  have hold := h.old
  rw [hup] at hstack
  have hopen := (h.partDown hup).open grant hfits hrange
  unfold sessionStep
  dsimp only
  generalize onicOpen x grant conf env σ.onic = res at hopen ⊢
  cases hopen with
  | noStats hret hnone =>
    refine ⟨lost, .down h.card (decide_eq_false hret) hnone hold hstack ?_⟩
    refine ⟨fun _ => ?_, fun hne => absurd rfl hne, nofun, nofun⟩
    rw [hnone.txQstats]
  | freed hret ha hfreed =>
    refine ⟨lost, .down h.card (decide_eq_false hret) hfreed
      (fun b hb => (hold b hb).trans (by omega)) hstack ?_⟩
    have hare := hfreed.are
    obtain ⟨d, m, rfl, -⟩ := hfreed
    refine ⟨nofun, fun _ => ⟨Nat.succ_ne_zero _, rfl, rfl⟩, nofun, fun _ t ht => ?_⟩
    rw [hare.held] at ht
    obtain ⟨b, hb, rfl⟩ := Multiset.mem_map.mp ht
    have hle := hold b hb
    exact isAt_of_ne (by dsimp only [Onic.withQueues, Onic.withStats]; omega)
  | @lost ret stage s b c hret hstage hlost =>
    have hafter : losesCounters stage = true ∧ countersAfter stage = .held := by
      rcases hstage with rfl | rfl
      · exact ⟨rfl, rfl⟩
      · exact ⟨rfl, rfl⟩
    have hare := hlost.are
    rw [hafter.1, hafter.2, if_pos rfl]
    refine ⟨(σ.onic.mem.addresses + 1) ::ₘ lost, .down ?_ (decide_eq_false hret)
      (hlost.congr (Multiset.map_cons _ _ _).symm) ?_ hstack ?_⟩
    · rw [Multiset.card_cons, h.card]
    · intro b hb
      rcases Multiset.mem_cons.mp hb with rfl | hb
      · omega
      · exact (hold b hb).trans (by omega)
    · obtain ⟨d, m, rfl, -⟩ := hlost
      refine ⟨nofun, fun _ => ⟨Nat.succ_ne_zero _, rfl, rfl⟩, fun _ => ?_, nofun⟩
      rw [hare.held]
      exact Multiset.mem_cons_self _ _
  | opened hopened =>
    have hare := hopened.are
    obtain ⟨d, m, rfl, hd, hm, ha⟩ := hopened
    refine ⟨lost, h.card, ?_, ⟨d, m, rfl, hd, hm, rfl⟩, ⟨rfl, rfl⟩, ?_, fun _ => ?_⟩
    · exact fun b hb => (hold b hb).trans (by dsimp only; omega)
    · refine ⟨nofun, fun _ => ⟨Nat.succ_ne_zero _, rfl, rfl⟩, fun _ => ?_, nofun⟩
      rw [hare.held]
      exact Multiset.mem_cons_of_mem (Multiset.mem_cons_self _ _)
    · refine ⟨baseAfter_pos, baseAfter_pos, Nat.succ_ne_zero _, rfl, fun hmem => ?_⟩
      have hle := hold _ hmem
      dsimp only [Onic.withQueues, Onic.withStats] at hle
      omega

/-- A stop leaves a session in order, with a pointer to counters that were freed. -/
theorem SessionInv.stop (h : SessionInv x conf lost σ) (hfits : Fits x conf)
    (hup : σ.up = true) : SessionInv x conf lost (sessionStep x grant conf σ .ndoStop) := by
  have hpart := h.part
  have hup' := h.up hup
  obtain ⟨hne, hentry, hrx⟩ := h.pointers.some (by rw [hup'.counters]; decide)
  unfold Session.held at hpart
  rw [hup] at hpart
  simp only [if_true] at hpart
  obtain ⟨-, hstopped⟩ := hpart.stop hfits hup'.rx hup'.tx hup'.napi rfl hne
  unfold sessionStep
  refine .down h.card rfl hstopped h.old ⟨rfl, rfl⟩ ?_
  have hare := hstopped.are
  obtain ⟨d, m, heq, -⟩ := hstopped
  dsimp only
  rw [heq] at hare ⊢
  refine ⟨nofun, fun _ => ⟨hne, hentry, hrx⟩, nofun, fun _ t ht => ?_⟩
  rw [hare.held] at ht
  obtain ⟨b, hb, rfl⟩ := Multiset.mem_map.mp ht
  refine isAt_of_ne ?_
  rintro rfl
  exact hup'.kept hb

/-- Reading the counters leaves a session in order. -/
theorem SessionInv.getStats (h : SessionInv x conf lost σ) :
    SessionInv x conf lost (sessionStep x grant conf σ .ndoGetStats64) := by
  unfold sessionStep
  dsimp only
  rw [h.pointers.getStats]
  have hm := h.part.are
  have hp := h.pointers
  refine ⟨h.card, h.old, .of_fields h.part.queues h.part.instances ⟨hm.held, ?_⟩, h.stack,
    ⟨hp.none, hp.some, hp.held, hp.freed⟩, fun hup => ?_⟩
  · dsimp only
    rw [hm.faults]
  · have hup' := h.up hup
    exact ⟨hup'.rx, hup'.tx, hup'.napi, hup'.counters, hup'.kept⟩

/-- A packet that is counted leaves a session in order. -/
theorem SessionInv.count (h : SessionInv x conf lost σ) (hup : σ.up = true) {p : StatsPtr}
    (hblock : p.block = σ.onic.txQstats.block) (q : ℕ) (g : LinkStats → LinkStats)
    (traffic : LinkStats) :
    SessionInv x conf lost { σ with onic := σ.onic.countAt p q g, traffic := traffic } := by
  have hup' := h.up hup
  have hp := h.pointers
  have hheld := hp.held hup'.counters
  rw [← hblock] at hheld
  unfold Onic.countAt
  rw [useStats_held hheld]
  refine ⟨h.card, h.old, .of_fields h.part.queues h.part.instances h.part.are, h.stack,
    ⟨hp.none, hp.some, hp.held, hp.freed⟩, fun _ => ?_⟩
  exact ⟨hup'.rx, hup'.tx, hup'.napi, hup'.counters, hup'.kept⟩

/-- The steps of the resource manager for other functions. -/
theorem SessionInv.others (h : SessionInv x conf lost σ) {rm : ResourceState}
    (hrm : qdmaGetDevEntry rm x.dmaDeviceIndex x.funcId =
      qdmaGetDevEntry σ.onic.dev.rm x.dmaDeviceIndex x.funcId) :
    SessionInv x conf lost (sessionStep x grant conf σ (.others rm)) := by
  have hd := h.part.queues
  have hp := h.pointers
  obtain ⟨q, n, ⟨e, hentry, he⟩, hle⟩ := hd.room
  have hqueues : Queues x (if σ.up then upQueues conf else noQueues)
      { σ.onic.dev with rm := rm } := by
    refine ⟨hd.state, hd.st, hd.cmpt, ?_, q, n, ⟨e, hrm.trans hentry, he⟩, hle⟩
    exact hd.counts.of_stays (fun p => .refl _) hrm
  refine ⟨h.card, h.old, .of_fields hqueues h.part.instances h.part.are, h.stack,
    ⟨hp.none, hp.some, hp.held, hp.freed⟩, fun hup => ?_⟩
  have hup' := h.up hup
  exact ⟨hup'.rx, hup'.tx, hup'.napi, hup'.counters, hup'.kept⟩

/-- Every step that is allowed leaves a session in order. -/
theorem SessionInv.step (h : SessionInv x conf lost σ) (hfits : Fits x conf) (e : NetEvent)
    (hok : SessionAllowed x conf σ e) :
    ∃ lost', SessionInv x conf lost' (sessionStep x grant conf σ e) := by
  cases e with
  | ndoOpen env => exact h.open hfits hok.1 hok.2
  | ndoStop => exact ⟨lost, h.stop hfits hok⟩
  | ndoGetStats64 => exact ⟨lost, h.getStats⟩
  | received q len =>
    obtain ⟨-, -, hrx⟩ := h.pointers.some (by rw [(h.up hok.1).counters]; decide)
    exact ⟨lost, h.count hok.1 (by rw [hrx]) _ _ _⟩
  | sent q len => exact ⟨lost, h.count hok.1 rfl _ _ _⟩
  | dropped q => exact ⟨lost, h.count hok.1 rfl _ _ _⟩
  | others rm => exact ⟨lost, h.others hok⟩

end

/-- A new device has no queues. -/
theorem Queues.init {x : Xdev} {rm : ResourceState} (other : ℕ → Slot) {e : DevEntry}
    (hentry : qdmaGetDevEntry rm x.dmaDeviceIndex x.funcId = some e)
    (hzero : ∀ t, e.activeQcnt t = 0) (hroom : x.qmax ≤ e.entry.totalQ) :
    Queues x noQueues (qdmaDeviceInit x rm other) := by
  have hoff : ∀ t, ∀ k < x.qmax,
      ((qdmaDeviceInit x rm other).slots (x.base t + k)).qState = .disabled := by
    intro t k hk
    unfold qdmaDeviceInit
    dsimp only
    rw [if_pos (base_add_lt hk)]
  refine ⟨hoff, fun t k hk hne => absurd rfl hne, fun _ => rfl,
    CountInv.init x rm other hentry hzero, _, _, ⟨e, hentry, rfl, fun t => rfl⟩, hroom⟩

/-- The invariant of every run. -/
theorem session_inv {x : Xdev} {conf : OnicConf} (hfits : Fits x conf) (grant : Grant)
    {rm : ResourceState} (other : ℕ → Slot) {e : DevEntry}
    (hentry : qdmaGetDevEntry rm x.dmaDeviceIndex x.funcId = some e)
    (hzero : ∀ t, e.activeQcnt t = 0) (hroom : x.qmax ≤ e.entry.totalQ) {es : List NetEvent}
    (h : Admitted (sessionStep x grant conf) (SessionAllowed x conf)
      (newSession (qdmaDeviceInit x rm other)) es) :
    ∃ lost, SessionInv x conf lost
      (run (sessionStep x grant conf) (newSession (qdmaDeviceInit x rm other)) es) := by
  have hinit : SessionInv x conf 0 (newSession (qdmaDeviceInit x rm other)) := by
    refine ⟨rfl, fun b hb => absurd hb (Multiset.notMem_zero b), ?_, ⟨rfl, rfl⟩, ?_, nofun⟩
    · exact .of_fields (.init other hentry hzero hroom) rfl ⟨rfl, rfl⟩
    · exact ⟨fun _ => rfl, fun hne => absurd rfl hne, nofun, nofun⟩
  refine h.invariant (I := fun σ => ∃ lost, SessionInv x conf lost σ) ?_ ⟨0, hinit⟩
  rintro σ e ⟨lost, hσ⟩ hok
  exact hσ.step hfits e hok

/-- In every run of opens that may fail anywhere, stops, packets and readings of the counters, the
interface has exactly the queues and instances of its state, a failed open leaves nothing but the
counters it loses once the receive queues were set up, and only counters that were freed are read
without being held. -/
theorem session_inOrder {x : Xdev} {conf : OnicConf} (hfits : Fits x conf) (grant : Grant)
    {rm : ResourceState} (other : ℕ → Slot) {e : DevEntry}
    (hentry : qdmaGetDevEntry rm x.dmaDeviceIndex x.funcId = some e)
    (hzero : ∀ t, e.activeQcnt t = 0) (hroom : x.qmax ≤ e.entry.totalQ) {es : List NetEvent}
    (h : Admitted (sessionStep x grant conf) (SessionAllowed x conf)
      (newSession (qdmaDeviceInit x rm other)) es) :
    InSession x conf
      (run (sessionStep x grant conf) (newSession (qdmaDeviceInit x rm other)) es) := by
  obtain ⟨lost, hinv⟩ := session_inv hfits grant other hentry hzero hroom h
  exact hinv.inSession hfits

/-- Two queues of each type. -/
def twoByTwo : OnicConf := { realNumRxQueues := 2, realNumTxQueues := 2 }

theorem twoByTwo_fits : Fits pollingPf twoByTwo := ⟨by decide, by decide, by decide⟩

theorem rangeSet_of_zero {env : OpenEnv} (hrx : ∀ k, (env.addRx k).prep = 0)
    (htx : ∀ k, (env.addTx k).prep = 0) : RangeSet twoByTwo env :=
  ⟨fun k _ => by rw [hrx k]; decide, fun k _ => by rw [htx k]; decide⟩

/-- The second transmit queue cannot be started, then there are no instances; the counters are read
after both and after the stop of an interface that has received a packet. -/
def troubledRun : List NetEvent :=
  [.ndoOpen { ctxtTx := fun k => if k = 1 then -EINVAL else 0 }, .ndoGetStats64,
    .ndoOpen { napi := false }, .ndoGetStats64, .ndoOpen {}, .received 1 64, .ndoStop,
    .ndoGetStats64]

/-- The counters of the first open are lost. -/
theorem troubledRun_inOrder :
    InSession pollingPf twoByTwo (run (sessionStep pollingPf (fun _ => true) twoByTwo)
      (newSession (qdmaDeviceInit pollingPf fourQueues fun _ => newSlot)) troubledRun) := by
  have hrange : ∀ env : OpenEnv, (∀ k, (env.addRx k).prep = 0) → (∀ k, (env.addTx k).prep = 0) →
      RangeSet twoByTwo env := fun _ => rangeSet_of_zero
  refine session_inOrder twoByTwo_fits (fun _ => true) (fun _ => newSlot)
    (e := { funcId := 0, entry := { qbase := 0, totalQ := 4 } }) (by decide +kernel)
    (fun t => by cases t <;> rfl) (by decide) ?_
  refine ⟨⟨rfl, hrange _ (fun _ => rfl) fun _ => rfl⟩, trivial,
    ⟨?_, hrange _ (fun _ => rfl) fun _ => rfl⟩, trivial,
    ⟨?_, hrange _ (fun _ => rfl) fun _ => rfl⟩, ⟨?_, by decide⟩, ?_, trivial, trivial⟩
  · decide +kernel
  · decide +kernel
  · decide +kernel
  · change Session.up _ = true
    decide +kernel

end OnicDriver.Netdev
