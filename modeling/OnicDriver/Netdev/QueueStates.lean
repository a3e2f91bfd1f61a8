import OnicDriver.Lifecycle.Cleanup
import OnicDriver.Lifecycle.Modes
import OnicDriver.Netdev.Interface

/-!
# The states of the queues of an interface

The calls on the queues of a PF, in terms of the states of the queues by type
and index. All queues are streaming queues that were added under an index of
their own.
-/

namespace OnicDriver.Netdev

open Lib Access Queue Setup Resource Lifecycle

/-- The states with another one for a queue. -/
def setState (qs : QType → ℕ → QState) (t : QType) (k : ℕ) (st : QState) : QType → ℕ → QState :=
  fun u j => if u = t ∧ j = k then st else qs u j

/-- The queues of a device are in the given states and counted, all of them streaming, and the
function has room for a queue of each index. -/
structure Queues (x : Xdev) (qs : QType → ℕ → QState) (d : Device) : Prop where
  state : ∀ t, ∀ k < x.qmax, (d.slots (x.base t + k)).qState = qs t k
  st : ∀ t, ∀ k < x.qmax, qs t k ≠ .disabled → (d.slots (x.base t + k)).conf.st = true
  cmpt : ∀ k, qs .cmpt k = .disabled
  counts : CountInv x d
  room : ∃ q n, Counted x d.rm q n ∧ x.qmax ≤ q

/-- The configuration of a streaming queue with an index of its own. -/
structure Streaming (x : Xdev) (t : QType) (k : ℕ) (c : ClientConf) : Prop where
  qType : c.conf.qType = t
  st : c.conf.st = true
  qidx : c.qidx = k
  lt : k < x.qmax

section

variable {x : Xdev} {grant : Grant} {qs : QType → ℕ → QState} {d d' : Device} {t u : QType}
  {k j : ℕ} {c : ClientConf} {env : AddEnv}

theorem setState_self (qs : QType → ℕ → QState) (t : QType) (k : ℕ) (st : QState) :
    setState qs t k st t k = st := if_pos ⟨rfl, rfl⟩

theorem setState_of_ne (st : QState) (h : ¬ (u = t ∧ j = k)) : setState qs t k st u j = qs u j :=
  if_neg h

theorem Streaming.named (h : Streaming x t k c) : c.qidx ≠ QDMA_QUEUE_IDX_INVALID := by
  have hlt := h.lt
  have hqmax := x.qmax_lt
  rw [h.qidx]
  unfold QDMA_QUEUE_IDX_INVALID
  omega

/-! ## Room -/

/-- Of the slots of an array one is free. -/
theorem number_lt {P : Slot → Prop} [DecidablePred P] (hk : k < x.qmax)
    (hfree : ¬ P (d.slots (x.base t + k))) : d.number x t P < x.qmax := by
  unfold Device.number
  have hchange := count_change (p := fun j => P (d.slots (x.base t + j)))
    (q := fun j => P (d.slots (x.base t + j)) ∨ j = k) hk
    fun j _ hj => ⟨Or.inl, fun h => h.resolve_right hj⟩
  have hle := Nat.count_le (p := fun j => P (d.slots (x.base t + j)) ∨ j = k) (n := x.qmax)
  simp only [hfree, or_true, if_true, if_false] at hchange
  omega

/-- There is room in the counts for a queue whose slot is free. -/
theorem Queues.countable (h : Queues x qs d) (hpf : x.isVf = false) (hk : k < x.qmax)
    (hfree : qs t k = .disabled) (hc : c.conf.qType = t) (ht : t ≠ .cmpt) {mail : ℕ → Mail} :
    Countable x d.rm mail c.conf := by
  obtain ⟨q, n, ⟨e, hentry, hq, -⟩, hle⟩ := h.room
  obtain ⟨q', ⟨e', hentry', -, hn⟩, -⟩ := h.counts.counted
  rw [hentry] at hentry'
  obtain rfl := Option.some.inj hentry'
  have hslot : (d.slots (x.base t + k)).qState = .disabled := (h.state t k hk).trans hfree
  have hnum : numQueues x d t < x.qmax := number_lt hk (not_not.mpr hslot)
  have hnone : numQueues x d .cmpt = 0 := Nat.count_iff_forall_not.mpr fun i hi hon =>
    hon ((h.state .cmpt i hi).trans (h.cmpt i))
  refine .of_entry hentry ⟨?_, fun hst => ?_⟩ hpf
  · rw [hc, hn t, hq]
    cases t with
    | h2c => exact hnum.trans_le hle
    | c2h => exact hnum.trans_le hle
    | cmpt => exact absurd rfl ht
  · have htype : t = .c2h := hc.symm.trans (stC2h_qType hst)
    subst htype
    have hstreaming : numStreaming x d < x.qmax :=
      number_lt (t := .c2h) hk fun hon => hon.1 hslot
    have hcmpt : e.activeCmptQcnt = numQueues x d .cmpt + numStreaming x d := hn .cmpt
    omega

theorem Queues.addSafe (h : Queues x qs d) (hpf : x.isVf = false) (hc : Streaming x t k c)
    (ht : t ≠ .cmpt) (hfree : qs t k = .disabled) (hprep : ¬ PrepFails d env) :
    AddSafe x d c env :=
  ⟨fun hauto => absurd hauto hc.named, fun _ => hprep,
    fun _ _ => h.countable hpf hc.lt hfree hc.qType ht⟩

/-! ## One queue changes -/

/-- A device of which one slot has changed. -/
theorem Queues.set (h : Queues x qs d) {st : QState} (hk : k < x.qmax) (ht : t ≠ .cmpt)
    (hslot : (d'.slots (x.base t + k)).qState = st)
    (hst : st ≠ .disabled → (d'.slots (x.base t + k)).conf.st = true)
    (hother : ∀ p ≠ x.base t + k, d'.slots p = d.slots p) (hcounts : CountInv x d')
    (hroom : ∃ q n, Counted x d'.rm q n ∧ x.qmax ≤ q) :
    Queues x (setState qs t k st) d' := by
  have hne : ∀ {u j}, j < x.qmax → ¬ (u = t ∧ j = k) → x.base u + j ≠ x.base t + k :=
    fun hj hne heq => hne (base_inj hj hk heq)
  refine ⟨fun u j hj => ?_, fun u j hj => ?_, fun j => ?_, hcounts, hroom⟩
  · by_cases hat : u = t ∧ j = k
    · obtain ⟨rfl, rfl⟩ := hat
      rw [setState_self]
      exact hslot
    · rw [setState_of_ne st hat, hother _ (hne hj hat)]
      exact h.state u j hj
  · by_cases hat : u = t ∧ j = k
    · obtain ⟨rfl, rfl⟩ := hat
      rw [setState_self]
      exact hst
    · rw [setState_of_ne st hat, hother _ (hne hj hat)]
      exact h.st u j hj
  · rw [setState_of_ne st fun hat => ht hat.1.symm]
    exact h.cmpt j

/-- The slots of a device stay as they are. -/
theorem Queues.of_slots (h : Queues x qs d) (hslots : d'.slots = d.slots)
    (hcounts : CountInv x d') (hrm : d'.rm = d.rm) : Queues x qs d' := by
  refine ⟨?_, ?_, h.cmpt, hcounts, ?_⟩
  · rw [hslots]
    exact h.state
  · rw [hslots]
    exact h.st
  · rw [hrm]
    exact h.room

/-! ## The calls -/

/-- A queue is added in its slot, or nothing changes. -/
theorem Queues.add (h : Queues x qs d) (hpf : x.isVf = false) (hc : Streaming x t k c)
    (ht : t ≠ .cmpt) (hfree : qs t k = .disabled) (hprep : ¬ env.prep < 0) :
    ((qdmaQueueAdd x d c env).1 = 0 ∧ (qdmaQueueAdd x d c env).2.1 = x.base t + k ∧
        Queues x (setState qs t k .enabled) (qdmaQueueAdd x d c env).2.2) ∨
      ((qdmaQueueAdd x d c env).1 ≠ 0 ∧ Queues x qs (qdmaQueueAdd x d c env).2.2) := by
  have hsafe : AddSafe x d c env := h.addSafe hpf hc ht hfree fun hfails => hprep hfails.2
  obtain ⟨hcounts, hfailed⟩ := h.counts.add fun _ => hsafe
  by_cases hrv : (qdmaQueueAdd x d c env).1 = 0
  · left
    refine ⟨hrv, ?_⟩
    obtain ⟨q, n, hroom, hle⟩ := h.room
    have hadd := qdmaQueueAdd_result x d c env
    generalize qdmaQueueAdd x d c env = res at hadd hrv hcounts ⊢
    cases hadd with
    | refused hneg => exact absurd hrv hneg.ne
    | unwound hslot hneg => exact absurd hrv hneg.ne
    | marked hslot hpf hfails => exact absurd hfails.2 hprep
    | uncounted hslot hfails hlegacy hcount hneg => exact absurd hrv hneg.ne
    | @added rv pos qidx ranged rm hslot hfails hlegacy hcount hok =>
      rcases hslot.cases with ⟨hauto, -⟩ | ⟨-, hidx, hpos⟩
      · exact absurd hauto hc.named
      · obtain rfl : qidx = k := hidx.trans hc.qidx
        rw [hc.qType] at hpos hcounts ⊢
        subst hpos
        refine ⟨Nat.add_comm _ _, h.set hc.lt ht ?_ (fun _ => ?_) ?_ hcounts ?_⟩
        · exact congrArg Slot.qState (d.setSlot_self _ _)
        · refine (congrArg (fun s : Slot => s.conf.st) (d.setSlot_self _ _)).trans ?_
          exact hc.st
        · exact fun p hp => Device.setSlot_of_ne hp _
        · have hcountable : Countable x d.rm env.mail c.conf :=
            h.countable hpf hc.lt hfree hc.qType ht
          obtain ⟨q', hcounted, -⟩ := h.counts.counted
          obtain ⟨rm', heq, hcounted'⟩ := hcounted.countAdded hcountable (expected_lt x d)
          rw [hcount] at heq
          obtain rfl := congrArg Prod.snd heq
          obtain ⟨e, hentry, hq, -⟩ := hroom
          obtain ⟨e', hentry', hq', -⟩ := hcounted
          rw [hentry] at hentry'
          obtain rfl := Option.some.inj hentry'
          exact ⟨q', _, hcounted', by omega⟩
  · right
    obtain ⟨hslots, hrm⟩ := hfailed hrv
    exact ⟨hrv, h.of_slots hslots hcounts hrm⟩

/-- A queue of a free index goes with the streaming queues of that index. -/
theorem Queues.usable (h : Queues x qs d) (hk : k < x.qmax) (ht : t ≠ .cmpt)
    (hfree : qs t k = .disabled) : isUsableQueue x d k t true = true := by
  have hstate : ∀ u, (d.slots (x.base u + k)).qState = qs u k := fun u => h.state u k hk
  have hst : ∀ u, qs u k ≠ .disabled → (d.slots (x.base u + k)).conf.st = true := fun u =>
    h.st u k hk
  have hcmpt := h.cmpt k
  unfold isUsableQueue
  cases t with
  | h2c =>
    by_cases hon : qs .c2h k = .disabled
    · simp [hstate, hcmpt, hfree, hon]
    · simp [hstate, hcmpt, hfree, hon, hst .c2h hon]
  | c2h =>
    by_cases hon : qs .h2c k = .disabled
    · simp [hstate, hcmpt, hfree, hon]
    · simp [hstate, hcmpt, hfree, hon, hst .h2c hon]
  | cmpt => exact absurd rfl ht

/-- The slot of a free index is marked for a queue that the device accepts. -/
theorem Queues.add_eq (h : Queues x qs d) (hpf : x.isVf = false) (hc : Streaming x t k c)
    (ht : t ≠ .cmpt) (hfree : qs t k = .disabled)
    (haccepts : qdmaQueueAddAccepts x.attributes x.ipType c.conf = true) :
    qdmaQueueAdd x d c env =
      addMarked x (d.setState (x.base t + k) .enabled) c env (x.base t + k) k := by
  have hlt := hc.lt
  have hqmax := x.qmax_lt
  obtain ⟨q, ⟨e, hentry, -, hn⟩, -⟩ := h.counts.counted
  have hactive : activeQcnt x env.told c.conf.qType d.rm < x.qmax := by
    have hnum : numQueues x d t < x.qmax :=
      number_lt hlt (not_not.mpr ((h.state t k hlt).trans hfree))
    have hcount : e.activeQcnt (devQType t) < x.qmax := by
      rw [hn t]
      cases t with
      | h2c => exact hnum
      | c2h => exact hnum
      | cmpt => exact absurd rfl ht
    unfold activeQcnt
    rw [hpf, if_neg Bool.false_ne_true, hc.qType, activeQueueCount_of_entry hentry,
      s32_of_lt (by omega) (by omega), u32_natCast (by omega)]
    exact hcount
  have hcheck : addCheck x d c env = 0 := by
    unfold addCheck
    rw [haccepts, if_neg Bool.true_eq_false_eq_False, if_neg, if_neg (not_le.mpr hactive)]
    rw [hc.qidx]
    exact fun hge => absurd hge.2 (not_le.mpr hlt)
  have hfind : findSlot x d c = some (x.base t + k, k) := by
    unfold findSlot
    rw [if_neg hc.named, hc.qidx, hc.qType, hc.st, h.usable hlt ht hfree]
    rfl
  unfold qdmaQueueAdd
  rw [hcheck, if_neg (lt_irrefl _), hfind]

/-- A queue that the device accepts is added where its index is free and its range can be set. -/
theorem Queues.add_succeeds (h : Queues x qs d) (hpf : x.isVf = false) (hc : Streaming x t k c)
    (ht : t ≠ .cmpt) (hfree : qs t k = .disabled)
    (haccepts : qdmaQueueAddAccepts x.attributes x.ipType c.conf = true)
    (hprep : ¬ env.prep < 0) (hlegacy : ¬ LegacyFails x env) :
    (qdmaQueueAdd x d c env).1 = 0 := by
  have hcountable : Countable x d.rm env.mail c.conf :=
    h.countable hpf hc.lt hfree hc.qType ht
  obtain ⟨q, hcounted, -⟩ := h.counts.counted
  have hnot : ¬ PrepFails (d.setState (x.base t + k) .enabled) env := fun hfails => hprep hfails.2
  obtain ⟨ranged, hranged⟩ := prepQResource_of_not hnot
  obtain ⟨rm, hcount, -⟩ := hcounted.countAdded hcountable (expected_lt x d)
  unfold LegacyFails at hlegacy
  unfold countAdded at hcount
  rw [h.add_eq hpf hc ht hfree haccepts]
  unfold addMarked
  rw [hranged]
  dsimp only
  rw [if_neg (lt_irrefl _), if_neg hlegacy]
  unfold addConfigured
  dsimp only [Device.setState, Device.setSlot]
  rw [hcount]
  rfl

/-- Where the range of a PF cannot be set, the slot stays marked. -/
theorem Queues.add_prepFails (h : Queues x qs d) (hpf : x.isVf = false) (hc : Streaming x t k c)
    (ht : t ≠ .cmpt) (hfree : qs t k = .disabled)
    (haccepts : qdmaQueueAddAccepts x.attributes x.ipType c.conf = true)
    (hprep : PrepFails d env) :
    (qdmaQueueAdd x d c env).1 ≠ 0 ∧
      (qdmaQueueAdd x d c env).2.2 = d.setState (x.base t + k) .enabled := by
  rw [h.add_eq hpf hc ht hfree haccepts]
  unfold addMarked
  rw [prepQResource_of_fails (d := d.setState (x.base t + k) .enabled) hprep]
  dsimp only
  rw [if_pos hprep.2, hpf]
  exact ⟨hprep.2.ne, rfl⟩

variable (env) in
/-- The slot of a queue that is not free is not taken. -/
theorem add_taken (hc : Streaming x t k c) (hon : (d.slots (x.base t + k)).qState ≠ .disabled) :
    (qdmaQueueAdd x d c env).1 ≠ 0 ∧ (qdmaQueueAdd x d c env).2.2 = d := by
  have hunusable : isUsableQueue x d k t c.conf.st = false :=
    Bool.eq_false_of_not_eq_true fun husable => hon (isUsableQueue_disabled husable)
  have hfind : findSlot x d c = none := by
    unfold findSlot
    rw [if_neg hc.named, hc.qidx, hc.qType, hunusable]
    rfl
  unfold qdmaQueueAdd
  split
  · rename_i hneg
    exact ⟨hneg.ne, rfl⟩
  · rw [hfind]
    have hperm : -EPERM ≠ 0 := by decide
    exact ⟨hperm, rfl⟩

variable (x grant) in
/-- A queue that is added comes online, or stays added. -/
theorem slot_start_state (s : Slot) (mem : Memory) (ctxt : ℤ) (hen : s.qState = .enabled) :
    ((s.start x grant ctxt mem).1 = 0 ∧ (s.start x grant ctxt mem).2.1.qState = .online) ∨
      ((s.start x grant ctxt mem).1 ≠ 0 ∧ (s.start x grant ctxt mem).2.1.qState = .enabled) := by
  unfold Slot.start
  rw [if_neg (not_not.mpr hen)]
  split
  · rename_i hcheck
    exact .inr ⟨hcheck.ne, hen⟩
  · have halloc := qdmaDescqAllocResource_sameQueue grant (s.configComplete x) mem
    generalize qdmaDescqAllocResource grant (s.configComplete x) mem = res at halloc
    obtain ⟨rv, s₁, mem₁⟩ := res
    have hsame : s₁.qState = .enabled := halloc.qState.trans hen
    dsimp only
    split
    · rename_i hneg
      exact .inr ⟨hneg.ne, hsame⟩
    · split
      · rename_i hneg
        exact .inr ⟨hneg.ne, (qdmaDescqFreeResource_sameQueue s₁ mem₁).qState.trans hsame⟩
      · exact .inl ⟨rfl, rfl⟩

theorem Queues.found (h : Queues x qs d) (hk : k < x.qmax) (hon : qs t k ≠ .disabled) :
    qdmaDeviceGetDescqById x d (x.base t + k) true = some (x.base t + k) := by
  rw [getDescqById_eq, if_pos]
  refine ⟨base_add_lt hk, fun _ => ?_⟩
  rw [h.state t k hk]
  exact hon

variable (grant) in
/-- A queue that is added is started, or stays as it is. -/
theorem Queues.start (h : Queues x qs d) (hk : k < x.qmax) (ht : t ≠ .cmpt)
    (hen : qs t k = .enabled) (ctxt : ℤ) :
    ((qdmaQueueStart x grant d (x.base t + k) ctxt).1 = 0 ∧
        Queues x (setState qs t k .online) (qdmaQueueStart x grant d (x.base t + k) ctxt).2) ∨
      ((qdmaQueueStart x grant d (x.base t + k) ctxt).1 ≠ 0 ∧
        Queues x (setState qs t k .enabled) (qdmaQueueStart x grant d (x.base t + k) ctxt).2) := by
  have hfound := h.found (t := t) hk (by rw [hen]; decide)
  have hstays := qdmaQueueStart_stays x grant d (x.base t + k) ctxt (x.base t + k)
  have hcounts := h.counts.step grant (.start (x.base t + k) ctxt) trivial
  have hst := hstays.st.trans (h.st t k hk (by rw [hen]; decide))
  unfold deviceStep at hcounts
  dsimp only at hcounts
  unfold qdmaQueueStart at hst hcounts ⊢
  rw [hfound] at hst hcounts ⊢
  dsimp only at hst hcounts ⊢
  have hother : ∀ s mem, ∀ p ≠ x.base t + k,
      ({ d.setSlot (x.base t + k) s with mem := mem } : Device).slots p = d.slots p :=
    fun s mem p hp => Device.setSlot_of_ne hp s
  rcases slot_start_state x grant (d.slots (x.base t + k)) d.mem ctxt
    ((h.state t k hk).trans hen) with ⟨hret, hstate⟩ | ⟨hret, hstate⟩
  · refine .inl ⟨hret, h.set hk ht ?_ (fun _ => hst) (hother _ _) hcounts h.room⟩
    exact (congrArg Slot.qState (d.setSlot_self _ _)).trans hstate
  · refine .inr ⟨hret, h.set hk ht ?_ (fun _ => hst) (hother _ _) hcounts h.room⟩
    exact (congrArg Slot.qState (d.setSlot_self _ _)).trans hstate

/-- A queue that is online is stopped. -/
theorem Queues.stop (h : Queues x qs d) (hk : k < x.qmax) (ht : t ≠ .cmpt)
    (hon : qs t k = .online) :
    (qdmaQueueStop x d (x.base t + k)).1 = 0 ∧
      Queues x (setState qs t k .enabled) (qdmaQueueStop x d (x.base t + k)).2 := by
  have hslot : (d.slots (x.base t + k)).qState = .online := (h.state t k hk).trans hon
  have hstays := qdmaQueueStop_stays x d (x.base t + k) (x.base t + k)
  have hcounts := h.counts.step (fun _ => true) (.stop (x.base t + k)) trivial
  have hst := hstays.st.trans (h.st t k hk (by rw [hon]; decide))
  have hstop : (d.slots (x.base t + k)).stop d.mem =
      (0, qdmaDescqFreeResource { d.slots (x.base t + k) with qState := .enabled } d.mem) :=
    if_neg (not_not.mpr hslot)
  unfold deviceStep at hcounts
  dsimp only at hcounts
  rw [qdmaQueueStop_online (base_add_lt hk) hslot, hstop] at hst hcounts ⊢
  refine ⟨rfl, h.set hk ht ?_ (fun _ => hst) (fun p hp => Device.setSlot_of_ne hp _) hcounts
    h.room⟩
  refine (congrArg Slot.qState (d.setSlot_self _ _)).trans ?_
  exact (qdmaDescqFreeResource_sameQueue
    { d.slots (x.base t + k) with qState := .enabled } d.mem).qState

/-- A PF takes a queue from its counts and leaves the function its queues. -/
theorem countRemoved_room {rm : ResourceState} {q : ℕ} {n : QType → ℕ} (hpf : x.isVf = false)
    (mail : ℕ → Mail) (conf : QdmaQueueConf) (h : Counted x rm q n) :
    ∃ n', Counted x (countRemoved x mail conf rm).2 q n' := by
  have hanswer : ∀ m : Mail, x.isVf = true → m = .answered := fun m hvf => by
    rw [hpf] at hvf
    cases hvf
  obtain ⟨rm₁, hdel, h₁⟩ := h.delActive (hanswer (mail 0)) conf.qType
  obtain ⟨rm₂, hdel₂, h₂⟩ := h₁.delActive (hanswer (mail 1)) .cmpt
  unfold countRemoved countQueue
  dsimp only
  rw [hdel]
  dsimp only
  rw [if_neg (lt_irrefl _)]
  split
  · rw [hdel₂]
    exact ⟨_, h₂⟩
  · exact ⟨_, h₁⟩

/-- A queue that is added is removed from a PF. -/
theorem Queues.remove (h : Queues x qs d) (hpf : x.isVf = false) (hk : k < x.qmax)
    (ht : t ≠ .cmpt) (hen : qs t k = .enabled) (mail : ℕ → Mail) :
    Queues x (setState qs t k .disabled) (qdmaQueueRemove x d (x.base t + k) mail).2 := by
  have hslot : (d.slots (x.base t + k)).qState = .enabled := (h.state t k hk).trans hen
  have hvf : ∀ {P : Prop}, x.isVf = true → P := fun hvf => by
    rw [hpf] at hvf
    cases hvf
  have hsafe : CallSafe x d (.remove (x.base t + k) mail) := fun _ _ => hvf
  have hcounts := h.counts.step (fun _ => true) (.remove (x.base t + k) mail) hsafe
  obtain ⟨-, hslots⟩ := qdmaQueueRemove_enabled mail h.counts.hasEntry (base_add_lt hk) hslot
  have hslots : (qdmaQueueRemove x d (x.base t + k) mail).2.slots = Function.update d.slots
      (x.base t + k) { d.slots (x.base t + k) with qState := .disabled } := by
    rcases hslots with ⟨-, hslots⟩ | ⟨hno, -⟩
    · exact hslots
    · exact absurd hvf hno
  refine h.set hk ht ?_ (fun hne => absurd rfl hne) (fun p hp => ?_) hcounts ?_
  · rw [hslots, Function.update_self]
  · rw [hslots, Function.update_of_ne hp]
  · obtain ⟨q, n, hroom, hle⟩ := h.room
    obtain ⟨n', hroom'⟩ := countRemoved_room hpf mail (d.slots (x.base t + k)).conf hroom
    refine ⟨q, n', ?_, hle⟩
    unfold countRemoved at hroom'
    unfold qdmaQueueRemove
    rw [h.found hk (by rw [hen]; decide)]
    dsimp only
    rw [if_neg (not_not.mpr hslot)]
    split
    · exact hroom'
    · exact hroom'

end

end OnicDriver.Netdev
