import OnicDriver.Netdev.QueueStates

/-!
# Setting an interface up and taking it apart

What each function on the way up and down does to an interface whose queues,
NAPI instances and memory are known.
-/

namespace OnicDriver.Netdev

open Lib Access Queue Setup Resource Lifecycle

/-- The first `n` entries are `a`. -/
def upTo {α : Type*} (n : ℕ) (a : α) (f : ℕ → α) : ℕ → α := fun j => if j < n then a else f j

/-- The first `n` queues of a type are in the state `st`. -/
def setUpTo (qs : QType → ℕ → QState) (t : QType) (n : ℕ) (st : QState) : QType → ℕ → QState :=
  fun u j => if u = t ∧ j < n then st else qs u j

/-- No queue is added. -/
def noQueues : QType → ℕ → QState := fun _ _ => .disabled

/-- No instance is known to the network stack. -/
def noInstances : ℕ → NapiState := fun _ => .absent

/-- The interface `s` is `r`, but for its queues, its NAPI instances and its memory. -/
def Part (x : Xdev) (qs : QType → ℕ → QState) (inst : ℕ → NapiState) (held : Multiset Thing)
    (faults addresses : ℕ) (r s : Onic) : Prop :=
  ∃ d m, s = { r with dev := d, mem := m, instances := inst } ∧ Queues x qs d ∧
    m.Are held faults ∧ m.addresses = addresses

section

variable {α : Type*} {f : ℕ → α} {a b : α} {n k : ℕ} {qs : QType → ℕ → QState} {t u : QType}
  {st st' : QState}

theorem upTo_zero (a : α) (f : ℕ → α) : upTo 0 a f = f :=
  funext fun _ => if_neg (Nat.not_lt_zero _)

theorem upTo_of_le (h : n ≤ k) : upTo n a f k = f k := if_neg (Nat.not_lt.mpr h)

theorem upTo_of_lt (h : k < n) : upTo n a f k = a := if_pos h

theorem update_upTo (n : ℕ) (a : α) (f : ℕ → α) :
    Function.update (upTo n a f) n a = upTo (n + 1) a f := by
  funext j
  unfold upTo
  by_cases hj : j = n
  · subst hj
    rw [Function.update_self, if_pos (Nat.lt_succ_self j)]
  · rw [Function.update_of_ne hj]
    exact if_congr (by omega) rfl rfl

theorem upTo_upTo (n : ℕ) (a b : α) (f : ℕ → α) : upTo n a (upTo n b f) = upTo n a f := by
  funext j
  unfold upTo
  split <;> rfl

theorem upTo_noInstances (n : ℕ) : upTo n .absent noInstances = noInstances :=
  funext fun _ => ite_self _

theorem setUpTo_zero (qs : QType → ℕ → QState) (t : QType) (st : QState) :
    setUpTo qs t 0 st = qs :=
  funext fun _ => funext fun _ => if_neg fun h => Nat.not_lt_zero _ h.2

theorem setUpTo_of_le (h : n ≤ k) : setUpTo qs t n st u k = qs u k :=
  if_neg fun hlt => Nat.not_lt.mpr h hlt.2

theorem setUpTo_of_lt (h : k < n) : setUpTo qs t n st t k = st := if_pos ⟨rfl, h⟩

theorem setUpTo_of_ne (h : u ≠ t) : setUpTo qs t n st u k = qs u k := if_neg fun hu => h hu.1

theorem setState_setUpTo (qs : QType → ℕ → QState) (t : QType) (n : ℕ) (st : QState) :
    setState (setUpTo qs t n st) t n st = setUpTo qs t (n + 1) st := by
  funext u j
  unfold setState setUpTo
  by_cases hu : u = t
  · by_cases hj : j = n
    · rw [if_pos ⟨hu, hj⟩, if_pos ⟨hu, by omega⟩]
    · rw [if_neg fun h => hj h.2]
      exact if_congr (and_congr_right fun _ => by omega) rfl rfl
  · rw [if_neg fun h => hu h.1, if_neg fun h => hu h.1, if_neg fun h => hu h.1]

theorem setUpTo_setUpTo (qs : QType → ℕ → QState) (t : QType) (n : ℕ) (st st' : QState) :
    setUpTo (setUpTo qs t n st) t n st' = setUpTo qs t n st' := by
  funext u j
  unfold setUpTo
  split <;> rfl

theorem setUpTo_comm (h : t ≠ u) (n k : ℕ) :
    setUpTo (setUpTo qs t n st) u k st' = setUpTo (setUpTo qs u k st') t n st := by
  funext v j
  unfold setUpTo
  by_cases hu : v = u ∧ j < k
  · have ht : ¬ (v = t ∧ j < n) := fun ht => h (ht.1.symm.trans hu.1)
    rw [if_pos hu, if_neg ht, if_pos hu]
  · rw [if_neg hu, if_neg hu]

theorem setState_same (h : qs t k = st) : setState qs t k st = qs := by
  funext u j
  unfold setState
  split
  · rename_i hat
    rw [hat.1, hat.2, h]
  · rfl

theorem setUpTo_same (h : ∀ k < n, qs t k = st) : setUpTo qs t n st = qs := by
  funext u j
  unfold setUpTo
  split
  · rename_i hat
    rw [hat.1, h j hat.2]
  · rfl

theorem setUpTo_noQueues (t : QType) (n : ℕ) : setUpTo noQueues t n .disabled = noQueues :=
  funext fun _ => funext fun _ => ite_self _

end

section

variable {x : Xdev} {grant : Grant} {conf : OnicConf} {qs : QType → ℕ → QState}
  {inst : ℕ → NapiState} {held : Multiset Thing} {f a : ℕ} {r s : Onic} {t : QType} {k n : ℕ}

/-! ## Single calls -/

/-- A call on one queue. -/
theorem Part.setDev {qs' : QType → ℕ → QState} {d : Device} (h : Part x qs inst held f a r s)
    (hd : Queues x qs' d) : Part x qs' inst held f a r { s with dev := d } := by
  obtain ⟨d₀, m, rfl, -, hm, ha⟩ := h
  exact ⟨d, m, rfl, hd, hm, ha⟩

theorem Part.queues (h : Part x qs inst held f a r s) : Queues x qs s.dev := by
  obtain ⟨d, m, rfl, hd, -⟩ := h
  exact hd

theorem Part.queueRemove (h : Part x qs inst held f a r s) (hpf : x.isVf = false)
    (hk : k < x.qmax) (ht : t ≠ .cmpt) (hen : qs t k = .enabled) :
    Part x (setState qs t k .disabled) inst held f a r (queueRemove x s (x.base t + k)) :=
  h.setDev (h.queues.remove hpf hk ht hen _)

theorem Part.queueStop (h : Part x qs inst held f a r s) (hk : k < x.qmax) (ht : t ≠ .cmpt)
    (hon : qs t k = .online) :
    (queueStop x s (x.base t + k)).1 = 0 ∧
      Part x (setState qs t k .enabled) inst held f a r (queueStop x s (x.base t + k)).2 := by
  obtain ⟨hret, hd⟩ := h.queues.stop hk ht hon
  exact ⟨hret, h.setDev hd⟩

variable (grant) in
theorem Part.queueStart (h : Part x qs inst held f a r s) (hk : k < x.qmax) (ht : t ≠ .cmpt)
    (hen : qs t k = .enabled) {base : ℕ} (hbase : base = x.base t) (ctxt : ℕ → ℤ) :
    ((queueStart x grant base ctxt s k).1 = 0 ∧
        Part x (setState qs t k .online) inst held f a r (queueStart x grant base ctxt s k).2) ∨
      ((queueStart x grant base ctxt s k).1 ≠ 0 ∧
        Part x qs inst held f a r (queueStart x grant base ctxt s k).2) := by
  subst hbase
  have hstart := h.queues.start grant hk ht hen (ctxt k)
  rw [setState_same hen] at hstart
  rcases hstart with ⟨hret, hd⟩ | ⟨hret, hd⟩
  · exact .inl ⟨hret, h.setDev hd⟩
  · exact .inr ⟨hret, h.setDev hd⟩

/-- A call for an instance in the right state. -/
theorem Part.setInstance (h : Part x qs inst held f a r s) (hnapi : Thing.slab r.napi ∈ held)
    (ok : NapiState → Bool) (hok : ok (inst k) = true) (new : NapiState) :
    Part x qs (Function.update inst k new) held f a r (s.setInstance ok new k) := by
  obtain ⟨d, m, rfl, hd, hm, ha⟩ := h
  have huse := hm.use (p := Thing.isAt r.napi) hnapi (beq_self_eq_true r.napi)
  have haddr : (m.use (Thing.isAt r.napi)).addresses = a := by
    unfold Holdings.use
    split
    · exact ha
    · exact ha
  unfold Onic.setInstance
  dsimp only
  rw [if_pos hok]
  exact ⟨d, _, rfl, hd, huse, haddr⟩

/-- Memory of the interface that is held is freed. -/
theorem Part.kfree {p : ℕ} (h : Part x qs inst (.slab p ::ₘ held) f a r s) (hp : p ≠ 0) :
    Part x qs inst held f a r { s with mem := kfree p s.mem } := by
  obtain ⟨d, m, rfl, hd, hm, ha⟩ := h
  have hfree : Lifecycle.kfree p m = m.release (.slab p) 1 := if_neg hp
  have haddr : (m.release (.slab p) 1).addresses = a := by
    unfold Holdings.release
    split
    · exact ha
    · exact ha
  refine ⟨d, _, rfl, hd, ?_, ?_⟩
  · dsimp only
    rw [hfree]
    exact hm.release_one
  · dsimp only
    rw [hfree]
    exact haddr

/-! ## Releasing and stopping -/

theorem Part.rest (h : Part x qs inst held f a r s) :
    s = { r with dev := s.dev, mem := s.mem, instances := s.instances } := by
  obtain ⟨d, m, rfl, -⟩ := h
  rfl

theorem Part.napi (h : Part x qs inst held f a r s) : s.napi = r.napi := by
  rw [h.rest]

theorem Part.baseRxQHandle (h : Part x qs inst held f a r s) :
    s.baseRxQHandle = r.baseRxQHandle := by
  rw [h.rest]

theorem Part.baseTxQHandle (h : Part x qs inst held f a r s) :
    s.baseTxQHandle = r.baseTxQHandle := by
  rw [h.rest]

/-- The first receive queues are removed and their instances deleted. -/
theorem Part.rxQueueRelease (h : Part x qs inst (.slab r.napi ::ₘ held) f a r s)
    (hpf : x.isVf = false) (hn : n ≤ x.qmax) (hbase : 0 < n → r.baseRxQHandle = x.base .c2h)
    (hqs : ∀ k < n, qs .c2h k = .enabled) (hinst : ∀ k < n, inst k = .added)
    (hnapi : r.napi ≠ 0) :
    Part x (setUpTo qs .c2h n .disabled) (upTo n .absent inst) held f a r
      (onicQdmaRxQueueRelease x n s) := by
  have hloop : Part x (setUpTo qs .c2h n .disabled) (upTo n .absent inst)
      (.slab r.napi ::ₘ held) f a r ((List.range n).foldl
        (fun s qNo => netifNapiDel (Netdev.queueRemove x s (s.baseRxQHandle + qNo)) qNo) s) := by
    refine foldl_range_invariant (I := fun k s => Part x (setUpTo qs .c2h k .disabled)
      (upTo k .absent inst) (.slab r.napi ::ₘ held) f a r s) ?_ fun k hk s hs => ?_
    · rw [setUpTo_zero, upTo_zero]
      exact h
    · have hen : setUpTo qs .c2h k .disabled .c2h k = .enabled := by
        rw [setUpTo_of_le (le_refl k), hqs k hk]
      have hadded : upTo k .absent inst k = .added := by
        rw [upTo_of_le (le_refl k), hinst k hk]
      have hremoved := hs.queueRemove hpf (hk.trans_le hn) (by decide) hen
      rw [setState_setUpTo] at hremoved
      have hdeleted := hremoved.setInstance (Multiset.mem_cons_self _ _)
        (· == .added) (by rw [hadded]; decide) .absent
      rw [update_upTo] at hdeleted
      rw [hs.baseRxQHandle, hbase (by omega)]
      exact hdeleted
  unfold onicQdmaRxQueueRelease
  dsimp only
  generalize (List.range n).foldl
    (fun s qNo => netifNapiDel (Netdev.queueRemove x s (s.baseRxQHandle + qNo)) qNo) s = s'
    at hloop ⊢
  have hfree := hloop.kfree hnapi
  rwa [← hloop.napi] at hfree

/-- The first transmit queues are removed. -/
theorem Part.txQueueRelease (h : Part x qs inst held f a r s) (hpf : x.isVf = false)
    (hn : n ≤ x.qmax) (hbase : 0 < n → r.baseTxQHandle = x.base .h2c)
    (hqs : ∀ k < n, qs .h2c k = .enabled) :
    Part x (setUpTo qs .h2c n .disabled) inst held f a r (onicQdmaTxQueueRelease x n s) := by
  unfold onicQdmaTxQueueRelease
  refine foldl_range_invariant
    (I := fun k s => Part x (setUpTo qs .h2c k .disabled) inst held f a r s) ?_ fun k hk s hs => ?_
  · rw [setUpTo_zero]
    exact h
  · have hen : setUpTo qs .h2c k .disabled .h2c k = .enabled := by
      rw [setUpTo_of_le (le_refl k), hqs k hk]
    have hremoved := hs.queueRemove hpf (hk.trans_le hn) (by decide) hen
    rw [setState_setUpTo] at hremoved
    rw [hs.baseTxQHandle, hbase (by omega)]
    exact hremoved

/-- The first queues of a type are stopped. -/
theorem Part.stopQueues (h : Part x qs inst held f a r s) (ht : t ≠ .cmpt) (hn : n ≤ x.qmax)
    (base : ℕ) (hbase : 0 < n → base = x.base t) (hqs : ∀ k < n, qs t k = .online) (ret : ℤ) :
    (stopQueues x base n (ret, s)).1 = ret ∧
      Part x (setUpTo qs t n .enabled) inst held f a r (stopQueues x base n (ret, s)).2 := by
  unfold Netdev.stopQueues
  refine foldl_range_invariant
    (I := fun k (res : ℤ × Onic) =>
      res.1 = ret ∧ Part x (setUpTo qs t k .enabled) inst held f a r res.2)
    ?_ fun k hk res hres => ?_
  · rw [setUpTo_zero]
    exact ⟨rfl, h⟩
  · have hon : setUpTo qs t k .enabled t k = .online := by
      rw [setUpTo_of_le (le_refl k), hqs k hk]
    obtain ⟨hzero, hstopped⟩ := hres.2.queueStop (hk.trans_le hn) ht hon
    rw [setState_setUpTo] at hstopped
    rw [hbase (by omega)]
    dsimp only
    rw [hzero, if_neg (lt_irrefl _)]
    exact ⟨hres.1, hstopped⟩

/-- The first queues of both types are stopped. -/
theorem Part.qdmaStop {txq rxq : ℕ} (h : Part x qs inst held f a r s) (hrx : rxq ≤ x.qmax)
    (htx : txq ≤ x.qmax) (hbaseRx : 0 < rxq → r.baseRxQHandle = x.base .c2h)
    (hbaseTx : 0 < txq → r.baseTxQHandle = x.base .h2c) (hqsRx : ∀ k < rxq, qs .c2h k = .online)
    (hqsTx : ∀ k < txq, qs .h2c k = .online) :
    (onicQdmaStop x txq rxq s).1 = 0 ∧
      Part x (setUpTo (setUpTo qs .c2h rxq .enabled) .h2c txq .enabled) inst held f a r
        (onicQdmaStop x txq rxq s).2 := by
  obtain ⟨hretRx, hstoppedRx⟩ := h.stopQueues (t := .c2h) (by decide) hrx
    s.baseRxQHandle (fun hpos => h.baseRxQHandle.trans (hbaseRx hpos)) hqsRx 0
  have hon : ∀ k < txq, setUpTo qs .c2h rxq .enabled .h2c k = .online := by
    intro k hk
    rw [setUpTo_of_ne (by decide), hqsTx k hk]
  obtain ⟨hretTx, hstoppedTx⟩ := hstoppedRx.stopQueues (t := .h2c) (by decide) htx
    (Netdev.stopQueues x s.baseRxQHandle rxq (0, s)).2.baseTxQHandle
    (fun hpos => hstoppedRx.baseTxQHandle.trans (hbaseTx hpos)) hon
    (Netdev.stopQueues x s.baseRxQHandle rxq (0, s)).1
  unfold onicQdmaStop
  exact ⟨hretTx.trans hretRx, hstoppedTx⟩

/-! ## Starting -/

variable (grant) in
/-- The first queues of a type are started, up to the first that cannot be. -/
theorem Part.startQueues (h : Part x qs inst held f a r s) (ht : t ≠ .cmpt) (hn : n ≤ x.qmax)
    (base : ℕ) (hbase : 0 < n → base = x.base t) (hqs : ∀ k < n, qs t k = .enabled)
    (ctxt : ℕ → ℤ) :
    ((untilFailure (Netdev.queueStart x grant base ctxt) n 0 s).1 = 0 ∧
        Part x (setUpTo qs t n .online) inst held f a r
          (untilFailure (Netdev.queueStart x grant base ctxt) n 0 s).2.2) ∨
      ((untilFailure (Netdev.queueStart x grant base ctxt) n 0 s).1 ≠ 0 ∧
        (untilFailure (Netdev.queueStart x grant base ctxt) n 0 s).2.1 < n ∧
        Part x (setUpTo qs t (untilFailure (Netdev.queueStart x grant base ctxt) n 0 s).2.1 .online)
          inst held f a r (untilFailure (Netdev.queueStart x grant base ctxt) n 0 s).2.2) := by
  apply untilFailure_cases (I := fun k s => Part x (setUpTo qs t k .online) inst held f a r s)
  · rwa [setUpTo_zero]
  · intro k hk s hs
    have hadded : setUpTo qs t k .online t k = .enabled := by
      rw [setUpTo_of_le (le_refl k), hqs k hk]
    have hstart := hs.queueStart grant (hk.trans_le hn) ht hadded (hbase (by omega)) ctxt
    rwa [setState_setUpTo] at hstart

variable (grant conf) in
/-- The queues of both types are started, or all of them stopped again. -/
theorem Part.qdmaStart (h : Part x qs inst held f a r s) (hrx : conf.realNumRxQueues ≤ x.qmax)
    (htx : conf.realNumTxQueues ≤ x.qmax)
    (hbaseRx : 0 < conf.realNumRxQueues → r.baseRxQHandle = x.base .c2h)
    (hbaseTx : 0 < conf.realNumTxQueues → r.baseTxQHandle = x.base .h2c)
    (hqsRx : ∀ k < conf.realNumRxQueues, qs .c2h k = .enabled)
    (hqsTx : ∀ k < conf.realNumTxQueues, qs .h2c k = .enabled) (env : OpenEnv) :
    ((onicQdmaStart x grant conf env s).1 = 0 ∧
        Part x (setUpTo (setUpTo qs .c2h conf.realNumRxQueues .online) .h2c conf.realNumTxQueues
          .online) inst held f a r (onicQdmaStart x grant conf env s).2) ∨
      ((onicQdmaStart x grant conf env s).1 ≠ 0 ∧
        Part x qs inst held f a r (onicQdmaStart x grant conf env s).2) := by
  unfold onicQdmaStart
  have hloopRx := h.startQueues grant (t := .c2h) (by decide) hrx s.baseRxQHandle
    (fun hpos => h.baseRxQHandle.trans (hbaseRx hpos)) hqsRx env.ctxtRx
  generalize untilFailure (Netdev.queueStart x grant s.baseRxQHandle env.ctxtRx)
    conf.realNumRxQueues 0 s = res at hloopRx ⊢
  obtain ⟨ret, qNo, s₁⟩ := res
  dsimp only at hloopRx ⊢
  rcases hloopRx with ⟨rfl, h₁⟩ | ⟨hne, hlt, h₁⟩
  · rw [if_neg (not_not.mpr rfl)]
    have hqsTx₁ : ∀ k < conf.realNumTxQueues,
        setUpTo qs .c2h conf.realNumRxQueues .online .h2c k = .enabled := by
      intro k hk
      rw [setUpTo_of_ne (by decide), hqsTx k hk]
    have hloopTx := h₁.startQueues grant (t := .h2c) (by decide) htx s₁.baseTxQHandle
      (fun hpos => h₁.baseTxQHandle.trans (hbaseTx hpos)) hqsTx₁ env.ctxtTx
    generalize untilFailure (Netdev.queueStart x grant s₁.baseTxQHandle env.ctxtTx)
      conf.realNumTxQueues 0 s₁ = res at hloopTx ⊢
    obtain ⟨ret, qNo, s₂⟩ := res
    dsimp only at hloopTx ⊢
    rcases hloopTx with ⟨rfl, h₂⟩ | ⟨hne, hlt, h₂⟩
    · rw [if_neg (not_not.mpr rfl)]
      exact .inl ⟨rfl, h₂⟩
    · rw [if_pos hne]
      obtain ⟨-, hstopped⟩ := h₂.qdmaStop hrx (hlt.le.trans htx) hbaseRx
        (fun hpos => hbaseTx (by omega))
        (fun k hk => by rw [setUpTo_of_ne (by decide), setUpTo_of_lt hk])
        (fun k hk => setUpTo_of_lt hk)
      rw [setUpTo_comm (t := .h2c) (u := .c2h) (by decide), setUpTo_setUpTo qs .c2h,
        setUpTo_same hqsRx, setUpTo_setUpTo, setUpTo_same fun k hk => hqsTx k (by omega)]
        at hstopped
      exact .inr ⟨hne, hstopped⟩
  · rw [if_pos hne]
    obtain ⟨-, hstopped⟩ := h₁.qdmaStop (hlt.le.trans hrx) (Nat.zero_le _)
      (fun hpos => hbaseRx (by omega)) (fun hpos => absurd hpos (lt_irrefl 0))
      (fun k hk => setUpTo_of_lt hk) (fun k hk => absurd hk (Nat.not_lt_zero k))
    rw [setUpTo_zero, setUpTo_setUpTo, setUpTo_same fun k hk => hqsRx k (by omega)] at hstopped
    exact .inr ⟨hne, hstopped⟩

/-! ## Adding -/

/-- The handle of the first queue of a type once `k` queues have been added. -/
def baseAfter (x : Xdev) (t : QType) (b k : ℕ) : ℕ := if 0 < k then x.base t else b

theorem baseAfter_add (x : Xdev) (t : QType) (b k : ℕ) :
    (if k = 0 then x.base t + k else baseAfter x t b k) = baseAfter x t b (k + 1) := by
  unfold baseAfter
  rw [if_pos (Nat.succ_pos k)]
  split
  · omega
  · rw [if_pos (by omega)]

theorem baseAfter_pos {b : ℕ} (h : 0 < n) : baseAfter x t b n = x.base t := if_pos h

variable (conf) in
/-- A receive queue is added and gets its instance, or nothing changes. -/
theorem Part.rxQueueSetup {b : ℕ}
    (h : Part x qs inst held f a { r with baseRxQHandle := baseAfter x .c2h b k } s)
    (hpf : x.isVf = false) (hk : k < x.qmax) (hfree : qs .c2h k = .disabled)
    (hinst : inst k = .absent) (hnapi : Thing.slab r.napi ∈ held) {env : OpenEnv}
    (hprep : ¬ (env.addRx k).prep < 0) :
    ((rxQueueSetup x conf env s k).1 = 0 ∧
        Part x (setState qs .c2h k .enabled) (Function.update inst k .added) held f a
          { r with baseRxQHandle := baseAfter x .c2h b (k + 1) } (rxQueueSetup x conf env s k).2) ∨
      ((rxQueueSetup x conf env s k).1 ≠ 0 ∧
        Part x qs inst held f a { r with baseRxQHandle := baseAfter x .c2h b k }
          (rxQueueSetup x conf env s k).2) := by
  have hstreaming : Streaming x .c2h k (rxQconf conf k) := ⟨rfl, rfl, rfl, hk⟩
  have hadd := h.queues.add hpf hstreaming (by decide) hfree hprep
  unfold Netdev.rxQueueSetup onicQdmaRxQueueAdd
  generalize qdmaQueueAdd x s.dev (rxQconf conf k) (env.addRx k) = res at hadd ⊢
  obtain ⟨ret, qHandle, d⟩ := res
  dsimp only at hadd ⊢
  rcases hadd with ⟨rfl, rfl, hd⟩ | ⟨hne, hd⟩
  · rw [if_neg (not_not.mpr rfl)]
    dsimp only
    rw [if_neg (not_not.mpr rfl)]
    obtain ⟨d₀, m, rfl, -, hm, ha⟩ := h
    have hadded : Part x (setState qs .c2h k .enabled) inst held f a
        { r with baseRxQHandle := baseAfter x .c2h b (k + 1) }
        { r with
          dev := d, mem := m, instances := inst
          baseRxQHandle := if k = 0 then x.base .c2h + k else baseAfter x .c2h b k } := by
      rw [baseAfter_add]
      exact ⟨d, m, rfl, hd, hm, ha⟩
    exact .inl ⟨rfl, hadded.setInstance hnapi (· == .absent) (by rw [hinst]; decide) .added⟩
  · rw [if_pos hne]
    dsimp only
    rw [if_pos hne]
    exact .inr ⟨hne, h.setDev hd⟩

variable (conf) in
/-- A transmit queue is added, or nothing changes. -/
theorem Part.txQueueAdd {b : ℕ}
    (h : Part x qs inst held f a { r with baseTxQHandle := baseAfter x .h2c b k } s)
    (hpf : x.isVf = false) (hk : k < x.qmax) (hfree : qs .h2c k = .disabled) {env : OpenEnv}
    (hprep : ¬ (env.addTx k).prep < 0) :
    ((txQueueAdd x conf env s k).1 = 0 ∧ Part x (setState qs .h2c k .enabled) inst held f a
        { r with baseTxQHandle := baseAfter x .h2c b (k + 1) } (txQueueAdd x conf env s k).2) ∨
      ((txQueueAdd x conf env s k).1 ≠ 0 ∧ Part x qs inst held f a
        { r with baseTxQHandle := baseAfter x .h2c b k } (txQueueAdd x conf env s k).2) := by
  have hstreaming : Streaming x .h2c k (txQconf conf k) := ⟨rfl, rfl, rfl, hk⟩
  have hadd := h.queues.add hpf hstreaming (by decide) hfree hprep
  unfold Netdev.txQueueAdd
  generalize qdmaQueueAdd x s.dev (txQconf conf k) (env.addTx k) = res at hadd ⊢
  obtain ⟨ret, qHandle, d⟩ := res
  dsimp only at hadd ⊢
  rcases hadd with ⟨rfl, rfl, hd⟩ | ⟨hne, hd⟩
  · rw [if_neg (not_not.mpr rfl)]
    obtain ⟨d₀, m, rfl, -, hm, ha⟩ := h
    dsimp only
    rw [baseAfter_add]
    exact .inl ⟨rfl, d, m, rfl, hd, hm, ha⟩
  · rw [if_pos hne]
    exact .inr ⟨hne, h.setDev hd⟩

variable (conf) in
/-- The receive queues are added, up to the first that cannot be. -/
theorem Part.addRxQueues (h : Part x noQueues noInstances held f a r s) (hpf : x.isVf = false)
    (hn : n ≤ x.qmax) (hnapi : Thing.slab r.napi ∈ held) {env : OpenEnv}
    (hprep : ∀ k < n, ¬ (env.addRx k).prep < 0) :
    ((untilFailure (Netdev.rxQueueSetup x conf env) n 0 s).1 = 0 ∧
        Part x (setUpTo noQueues .c2h n .enabled) (upTo n .added noInstances) held f a
          { r with baseRxQHandle := baseAfter x .c2h r.baseRxQHandle n }
          (untilFailure (Netdev.rxQueueSetup x conf env) n 0 s).2.2) ∨
      ((untilFailure (Netdev.rxQueueSetup x conf env) n 0 s).1 ≠ 0 ∧
        (untilFailure (Netdev.rxQueueSetup x conf env) n 0 s).2.1 < n ∧
        Part x
          (setUpTo noQueues .c2h (untilFailure (Netdev.rxQueueSetup x conf env) n 0 s).2.1 .enabled)
          (upTo (untilFailure (Netdev.rxQueueSetup x conf env) n 0 s).2.1 .added noInstances) held f
          a
          { r with
            baseRxQHandle := baseAfter x .c2h r.baseRxQHandle
              (untilFailure (Netdev.rxQueueSetup x conf env) n 0 s).2.1 }
          (untilFailure (Netdev.rxQueueSetup x conf env) n 0 s).2.2) := by
  apply untilFailure_cases (I := fun k s => Part x (setUpTo noQueues .c2h k .enabled)
    (upTo k .added noInstances) held f a
    { r with baseRxQHandle := baseAfter x .c2h r.baseRxQHandle k } s)
  · rw [setUpTo_zero, upTo_zero]
    exact h
  · intro k hk s hs
    have hadd := hs.rxQueueSetup conf hpf (hk.trans_le hn) (setUpTo_of_le (le_refl k))
      (upTo_of_le (le_refl k)) hnapi (hprep k hk)
    rwa [setState_setUpTo, update_upTo] at hadd

variable (conf) in
/-- The transmit queues are added, up to the first that cannot be. -/
theorem Part.addTxQueues (h : Part x qs inst held f a r s) (hpf : x.isVf = false)
    (hn : n ≤ x.qmax) (hqs : ∀ k, qs .h2c k = .disabled) {env : OpenEnv}
    (hprep : ∀ k < n, ¬ (env.addTx k).prep < 0) :
    ((untilFailure (Netdev.txQueueAdd x conf env) n 0 s).1 = 0 ∧
        Part x (setUpTo qs .h2c n .enabled) inst held f a
          { r with baseTxQHandle := baseAfter x .h2c r.baseTxQHandle n }
          (untilFailure (Netdev.txQueueAdd x conf env) n 0 s).2.2) ∨
      ((untilFailure (Netdev.txQueueAdd x conf env) n 0 s).1 ≠ 0 ∧
        (untilFailure (Netdev.txQueueAdd x conf env) n 0 s).2.1 < n ∧
        Part x (setUpTo qs .h2c (untilFailure (Netdev.txQueueAdd x conf env) n 0 s).2.1 .enabled)
          inst held f a
          { r with
            baseTxQHandle := baseAfter x .h2c r.baseTxQHandle
              (untilFailure (Netdev.txQueueAdd x conf env) n 0 s).2.1 }
          (untilFailure (Netdev.txQueueAdd x conf env) n 0 s).2.2) := by
  apply untilFailure_cases (I := fun k s => Part x (setUpTo qs .h2c k .enabled) inst held f a
    { r with baseTxQHandle := baseAfter x .h2c r.baseTxQHandle k } s)
  · rw [setUpTo_zero]
    exact h
  · intro k hk s hs
    have hadd := hs.txQueueAdd conf hpf (hk.trans_le hn)
      ((setUpTo_of_le (le_refl k)).trans (hqs k)) (hprep k hk)
    rwa [setState_setUpTo] at hadd

/-- Memory is obtained for the interface, or refused. -/
theorem acquire_granted (mem : Memory) (grant : Bool) :
    (grant = true ∧ mem.acquire (fun _ => grant) .slab = (mem.addresses + 1,
        { mem with
          held := .slab (mem.addresses + 1) ::ₘ mem.held
          addresses := mem.addresses + 1
          calls := mem.calls + 1 })) ∨
      (grant = false ∧
        mem.acquire (fun _ => grant) .slab = (0, { mem with calls := mem.calls + 1 })) := by
  cases grant with
  | true => exact .inl ⟨rfl, rfl⟩
  | false => exact .inr ⟨rfl, rfl⟩

/-- The loop over the receive queues starts with an array of new instances. -/
theorem newInstances {d : Device} {m : Memory} (hd : Queues x noQueues d) (hm : m.Are held f) :
    Part x noQueues noInstances (.slab (m.addresses + 1) ::ₘ held) f (m.addresses + 1)
      { r with napi := m.addresses + 1 }
      { r with
        dev := d
        mem :=
          { m with
            held := .slab (m.addresses + 1) ::ₘ m.held
            addresses := m.addresses + 1
            calls := m.calls + 1 }
        napi := m.addresses + 1
        instances := fun _ => .absent } :=
  ⟨d, _, rfl, hd, ⟨congrArg (_ ::ₘ ·) hm.held, hm.faults⟩, rfl⟩

variable (conf) in
/-- The receive queues are set up, or all of them taken back. -/
theorem Part.rxSetup (h : Part x noQueues noInstances held f a r s) (hpf : x.isVf = false)
    (hn : conf.realNumRxQueues ≤ x.qmax) {env : OpenEnv}
    (hprep : ∀ k < conf.realNumRxQueues, ¬ (env.addRx k).prep < 0) :
    ((onicQdmaRxQueueSetup x conf env s).1 = 0 ∧
        Part x (setUpTo noQueues .c2h conf.realNumRxQueues .enabled)
          (upTo conf.realNumRxQueues .added noInstances) (.slab (a + 1) ::ₘ held) f (a + 1)
          { r with
            napi := a + 1
            baseRxQHandle := baseAfter x .c2h r.baseRxQHandle conf.realNumRxQueues }
          (onicQdmaRxQueueSetup x conf env s).2) ∨
      ((onicQdmaRxQueueSetup x conf env s).1 ≠ 0 ∧
        ∃ p b a', a ≤ a' ∧ Part x noQueues noInstances held f a'
          { r with napi := p, baseRxQHandle := b } (onicQdmaRxQueueSetup x conf env s).2) := by
  obtain ⟨d, m, rfl, hd, hm, rfl⟩ := h
  unfold onicQdmaRxQueueSetup
  dsimp only
  rcases acquire_granted m env.napi with ⟨-, hacquire⟩ | ⟨-, hacquire⟩
  · rw [hacquire]
    dsimp only
    rw [if_neg (Nat.succ_ne_zero _)]
    have hloop := (newInstances (r := r) hd hm).addRxQueues conf hpf hn
      (Multiset.mem_cons_self _ _) hprep
    generalize untilFailure (Netdev.rxQueueSetup x conf env) conf.realNumRxQueues 0 _ = res
      at hloop ⊢
    obtain ⟨ret, qNo, s'⟩ := res
    dsimp only at hloop ⊢
    rcases hloop with ⟨rfl, hall⟩ | ⟨hne, hlt, hsome⟩
    · rw [if_neg (not_not.mpr rfl)]
      exact .inl ⟨rfl, hall⟩
    · rw [if_pos hne]
      have hback := hsome.rxQueueRelease hpf (hlt.le.trans hn) baseAfter_pos
        (fun k hk => setUpTo_of_lt hk) (fun k hk => upTo_of_lt hk) (Nat.succ_ne_zero _)
      rw [setUpTo_setUpTo, setUpTo_noQueues, upTo_upTo, upTo_noInstances] at hback
      exact .inr ⟨hne, m.addresses + 1, baseAfter x .c2h r.baseRxQHandle qNo, m.addresses + 1,
        Nat.le_succ _, hback⟩
  · rw [hacquire]
    dsimp only
    rw [if_pos rfl]
    have hneg : -ENOMEM ≠ 0 := by decide
    exact .inr ⟨hneg, 0, r.baseRxQHandle, m.addresses, le_refl _, d, _, rfl, hd,
      ⟨hm.held, hm.faults⟩, rfl⟩

variable (conf) in
/-- The transmit queues are set up, or all of them taken back. -/
theorem Part.txSetup (h : Part x qs inst held f a r s) (hpf : x.isVf = false)
    (hn : conf.realNumTxQueues ≤ x.qmax) (hqs : ∀ k, qs .h2c k = .disabled) {env : OpenEnv}
    (hprep : ∀ k < conf.realNumTxQueues, ¬ (env.addTx k).prep < 0) :
    ((onicQdmaTxQueueSetup x conf env s).1 = 0 ∧
        Part x (setUpTo qs .h2c conf.realNumTxQueues .enabled) inst held f a
          { r with baseTxQHandle := baseAfter x .h2c r.baseTxQHandle conf.realNumTxQueues }
          (onicQdmaTxQueueSetup x conf env s).2) ∨
      ((onicQdmaTxQueueSetup x conf env s).1 ≠ 0 ∧
        ∃ b, Part x qs inst held f a { r with baseTxQHandle := b }
          (onicQdmaTxQueueSetup x conf env s).2) := by
  have hloop := h.addTxQueues conf hpf hn hqs hprep
  unfold onicQdmaTxQueueSetup
  generalize untilFailure (Netdev.txQueueAdd x conf env) conf.realNumTxQueues 0 s = res
    at hloop ⊢
  obtain ⟨ret, qNo, s'⟩ := res
  dsimp only at hloop ⊢
  rcases hloop with ⟨rfl, hall⟩ | ⟨hne, hlt, hsome⟩
  · rw [if_neg (not_not.mpr rfl)]
    exact .inl ⟨rfl, hall⟩
  · rw [if_pos hne]
    have hback := hsome.txQueueRelease hpf (hlt.le.trans hn) baseAfter_pos
      (fun k hk => setUpTo_of_lt hk)
    rw [setUpTo_setUpTo, setUpTo_same fun k _ => hqs k] at hback
    exact .inr ⟨hne, _, hback⟩

end

end OnicDriver.Netdev
