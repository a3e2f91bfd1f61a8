import Mathlib.Data.Nat.Count
import OnicDriver.Lifecycle.Handles

/-!
# Counts of active queues

The resource manager counts the queues of each type that a function has, and a
streaming C2H queue is counted with the completion queues as well. The counts
are those of the queues that have been added, as long as nothing fails after
the slot of a new queue is marked.
-/

namespace OnicDriver.Lifecycle

open Lib Access Queue Setup Resource

/-- The slots of an array with a property. -/
def Device.number (x : Xdev) (d : Device) (t : QType) (P : Slot → Prop) [DecidablePred P] : ℕ :=
  Nat.count (fun k => P (d.slots (x.base t + k))) x.qmax

/-- The queues of a type that are not `Q_STATE_DISABLED`. -/
def numQueues (x : Xdev) (d : Device) (t : QType) : ℕ :=
  d.number x t fun s => s.qState ≠ .disabled

/-- The streaming C2H queues that are not `Q_STATE_DISABLED`. -/
def numStreaming (x : Xdev) (d : Device) : ℕ :=
  d.number x .c2h fun s => s.qState ≠ .disabled ∧ s.conf.st = true

/-- The counts of the function are the numbers of its queues. -/
def CountsOk (x : Xdev) (d : Device) : Prop :=
  ∃ e, qdmaGetDevEntry d.rm x.dmaDeviceIndex x.funcId = some e ∧
    e.activeH2cQcnt = numQueues x d .h2c ∧ e.activeC2hQcnt = numQueues x d .c2h ∧
    e.activeCmptQcnt = numQueues x d .cmpt + numStreaming x d

/-! ## Numbers of slots -/

section

variable {x : Xdev} {d : Device} {t u : QType} {k j : ℕ}

/-- A change at one place changes a number by what is counted there. -/
theorem count_change {p q : ℕ → Prop} [DecidablePred p] [DecidablePred q] {n k : ℕ} (hk : k < n)
    (h : ∀ j < n, j ≠ k → (p j ↔ q j)) :
    Nat.count p n + (if q k then 1 else 0) = Nat.count q n + if p k then 1 else 0 := by
  induction n with
  | zero => exact absurd hk (Nat.not_lt_zero k)
  | succ n ih =>
    rw [Nat.count_succ, Nat.count_succ]
    rcases Nat.lt_succ_iff_lt_or_eq.mp hk with hlt | rfl
    · have hrest := ih hlt fun j hj => h j (Nat.lt_succ_of_lt hj)
      have hlast : (if p n then 1 else 0) = if q n then 1 else 0 :=
        if_congr (h n (Nat.lt_succ_self n) (Nat.ne_of_gt hlt)) rfl rfl
      omega
    · have hrest : Nat.count p k = Nat.count q k := by
        have hiff : ∀ j < k, p j ↔ q j := fun j hj =>
          h j (Nat.lt_succ_of_lt hj) (Nat.ne_of_lt hj)
        exact le_antisymm (Nat.count_mono_left fun j hj => (hiff j hj).mp)
          (Nat.count_mono_left fun j hj => (hiff j hj).mpr)
      omega

/-- The three arrays do not overlap. -/
theorem base_inj (hj : j < x.qmax) (hk : k < x.qmax) (h : x.base t + j = x.base u + k) :
    t = u ∧ j = k := by
  cases t <;> cases u <;> simp only [Xdev.base] at h <;>
    first | exact ⟨rfl, by omega⟩ | exact absurd h (by omega)

theorem number_setSlot (hk : k < x.qmax) (s : Slot) (P : Slot → Prop) [DecidablePred P] :
    (d.setSlot (x.base t + k) s).number x u P +
        (if u = t ∧ P (d.slots (x.base t + k)) then 1 else 0) =
      d.number x u P + if u = t ∧ P s then 1 else 0 := by
  unfold Device.number
  by_cases hu : u = t
  · subst hu
    have hchange := count_change (n := x.qmax) (k := k)
      (p := fun j => P ((d.setSlot (x.base u + k) s).slots (x.base u + j)))
      (q := fun j => P (d.slots (x.base u + j))) hk fun j _ hj => by
        rw [Device.setSlot_of_ne (by omega)]
    simp only [true_and]
    simp only [Device.setSlot_self] at hchange
    exact hchange
  · have hsame : ∀ j < x.qmax, (d.setSlot (x.base t + k) s).slots (x.base u + j) =
        d.slots (x.base u + j) := by
      intro j hj
      apply Device.setSlot_of_ne
      exact fun heq => hu (base_inj hj hk heq).1
    rw [if_neg fun h => hu h.1, if_neg fun h => hu h.1, Nat.add_zero, Nat.add_zero]
    apply le_antisymm
    · refine Nat.count_mono_left fun j hj h => ?_
      rw [← hsame j hj]
      exact h
    · refine Nat.count_mono_left fun j hj h => ?_
      rw [hsame j hj]
      exact h

theorem number_congr {d' : Device} {P : Slot → Prop} [DecidablePred P]
    (h : ∀ p, P (d'.slots p) ↔ P (d.slots p)) : d'.number x t P = d.number x t P :=
  le_antisymm (Nat.count_mono_left fun _ _ => (h _).mp) (Nat.count_mono_left fun _ _ => (h _).mpr)

theorem number_le (P : Slot → Prop) [DecidablePred P] : d.number x t P ≤ x.qmax :=
  Nat.count_le _

/-- The count of each type that goes with the queues of a device. -/
def Device.expected (x : Xdev) (d : Device) : QType → ℕ
  | .h2c => numQueues x d .h2c
  | .c2h => numQueues x d .c2h
  | .cmpt => numQueues x d .cmpt + numStreaming x d

theorem expected_lt (x : Xdev) (d : Device) (t : QType) : d.expected x t < 2 ^ 17 := by
  have hqmax := x.qmax_lt
  have hqueues : ∀ u, numQueues x d u ≤ x.qmax := fun u => number_le _
  have hstreaming : numStreaming x d ≤ x.qmax := number_le _
  cases t with
  | h2c => exact (hqueues .h2c).trans_lt (by omega)
  | c2h => exact (hqueues .c2h).trans_lt (by omega)
  | cmpt =>
    have hcmpt := hqueues .cmpt
    simp only [Device.expected]
    omega

theorem expected_eq_zero (h : ∀ p < 3 * x.qmax, (d.slots p).qState = .disabled) (t : QType) :
    d.expected x t = 0 := by
  have hqueues : ∀ u, numQueues x d u = 0 := fun u =>
    Nat.count_iff_forall_not.mpr fun k hk hon => hon (h _ (base_add_lt hk))
  have hstreaming : numStreaming x d = 0 :=
    Nat.count_iff_forall_not.mpr fun k hk hon => hon.1 (h _ (base_add_lt hk))
  cases t <;> simp only [Device.expected, hqueues, hstreaming]

/-- What a queue adds to the count of a type. -/
def load (conf : QdmaQueueConf) (u : QType) : ℕ :=
  (if u = conf.qType then 1 else 0) + if u = .cmpt ∧ conf.stC2h = true then 1 else 0

/-- What a slot adds to the count of a type. -/
def Slot.load (s : Slot) (u : QType) : ℕ :=
  if s.qState = .disabled then 0 else Lifecycle.load s.conf u

/-- A change of one slot, which holds queues of the type of its array. -/
theorem expected_setSlot (hk : k < x.qmax) {s : Slot}
    (hold : (d.slots (x.base t + k)).qState ≠ .disabled →
      (d.slots (x.base t + k)).conf.qType = t)
    (hnew : s.qState ≠ .disabled → s.conf.qType = t) (u : QType) :
    (d.setSlot (x.base t + k) s).expected x u + (d.slots (x.base t + k)).load u =
      d.expected x u + s.load u := by
  have hqueues : ∀ v, _ := fun v =>
    number_setSlot (d := d) (t := t) (u := v) hk s fun s => s.qState ≠ .disabled
  have hstreaming := number_setSlot (d := d) (t := t) (u := .c2h) hk s
    fun s => s.qState ≠ .disabled ∧ s.conf.st = true
  have hload : ∀ s : Slot, (s.qState ≠ .disabled → s.conf.qType = t) → ∀ v, s.load v =
      (if v = t ∧ s.qState ≠ .disabled then 1 else 0) +
        if v = .cmpt ∧ .c2h = t ∧ s.qState ≠ .disabled ∧ s.conf.st = true then 1 else 0 := by
    intro s hs v
    unfold Slot.load Lifecycle.load QdmaQueueConf.stC2h
    by_cases hoff : s.qState = .disabled
    · simp [hoff]
    · rw [if_neg hoff, hs hoff]
      simp only [ne_eq, hoff, not_false_eq_true, and_true, true_and, Bool.and_eq_true, beq_iff_eq]
      have hiff : (v = .cmpt ∧ s.conf.st = true ∧ t = .c2h) ↔
          (v = .cmpt ∧ .c2h = t ∧ s.conf.st = true) := by
        constructor
        · exact fun ⟨hv, hst, ht⟩ => ⟨hv, ht.symm, hst⟩
        · exact fun ⟨hv, ht, hst⟩ => ⟨hv, hst, ht.symm⟩
      exact congrArg _ (if_congr hiff rfl rfl)
  generalize d.slots (x.base t + k) = old at *
  generalize hd' : d.setSlot (x.base t + k) s = d' at *
  rw [hload old hold, hload s hnew]
  cases u with
  | h2c => simpa [Device.expected, numQueues] using hqueues .h2c
  | c2h => simpa [Device.expected, numQueues] using hqueues .c2h
  | cmpt =>
    have hcmpt := hqueues .cmpt
    simp only [Device.expected, numQueues, numStreaming, true_and]
    simp only [ne_eq, true_and] at hcmpt hstreaming ⊢
    omega

end

/-! ## Calls of the resource manager -/

/-- The PF carries a notification out, whether or not the VF gets an answer. -/
def Mail.carriedOut : Mail → Bool
  | .answered => true
  | .failed _ carried => carried

/-- The entry of the function in the resource manager, with its number of queues and its counts. -/
def Counted (x : Xdev) (rm : ResourceState) (totalQ : ℕ) (n : QType → ℕ) : Prop :=
  ∃ e, qdmaGetDevEntry rm x.dmaDeviceIndex x.funcId = some e ∧ e.entry.totalQ = totalQ ∧
    ∀ t, e.activeQcnt (devQType t) = n t

section

variable {x : Xdev} {rm : ResourceState} {q : ℕ} {n : QType → ℕ} {t : QType} {mail : Mail}
  {call : ResourceState → ℤ × ResourceState}

theorem notify_ok (hmail : x.isVf = true → mail = .answered) (h : (call rm).1 = 0) :
    notify x mail call rm = (0, (call rm).2) := by
  unfold notify
  split
  · exact Prod.ext h rfl
  · rename_i hvf
    rw [hmail (Bool.eq_true_of_not_eq_false hvf)]
    dsimp only
    rw [if_neg (by omega)]

theorem notify_state (hmail : x.isVf = true → mail.carriedOut = true) :
    (notify x mail call rm).2 = (call rm).2 := by
  unfold notify
  split
  · rfl
  · rename_i hvf
    have hcarried := hmail (Bool.eq_true_of_not_eq_false hvf)
    cases mail with
    | answered => rfl
    | failed code carried => exact if_pos hcarried

theorem notify_failed (call : ResourceState → ℤ × ResourceState) (rm : ResourceState)
    (hvf : x.isVf = true) (hne : mail ≠ .answered)
    (hnot : mail.carriedOut = true → mail = .answered) :
    (notify x mail call rm).1 < 0 ∧ (notify x mail call rm).2 = rm := by
  unfold notify
  rw [if_neg (by rw [hvf]; exact Bool.true_eq_false_eq_False)]
  cases mail with
  | answered => exact absurd rfl hne
  | failed code carried =>
    refine ⟨by dsimp only; omega, if_neg fun htrue => ?_⟩
    cases hnot htrue

theorem devQType_inj {u : QType} (h : devQType u = devQType t) : u = t := by
  cases u <;> cases t <;> first | rfl | cases h

theorem Counted.setActive (e : DevEntry) (he : e.entry.totalQ = q)
    (h : ∀ t, e.activeQcnt (devQType t) = n t) {m : ℕ} (hrm : qdmaGetDevEntry rm x.dmaDeviceIndex
      x.funcId = some (e.setActiveQcnt m (devQType t))) :
    Counted x rm q (Function.update n t m) := by
  refine ⟨_, hrm, ?_, fun u => ?_⟩
  · rw [setActiveQcnt_entry]
    exact he
  · by_cases hu : u = t
    · subst hu
      rw [setActiveQcnt_activeQcnt, Function.update_self]
    · rw [setActiveQcnt_activeQcnt_of_ne fun heq => hu (devQType_inj heq), h u,
        Function.update_of_ne hu]

/-- A queue is counted where the function has room for it. -/
theorem Counted.increment (h : Counted x rm q n) (hroom : n t + 1 ≤ q) (hlt : n t < 2 ^ 17) :
    (qdmaDevIncrementActiveQueue rm x.dmaDeviceIndex x.funcId (some (devQType t))).1 = 0 ∧
      Counted x (qdmaDevIncrementActiveQueue rm x.dmaDeviceIndex x.funcId (some (devQType t))).2 q
        (Function.update n t (n t + 1)) := by
  obtain ⟨e, hrm, hq, hn⟩ := h
  have hnext : u32 (e.activeQcnt (devQType t) + 1) = n t + 1 := by
    have hcast := u32_of_lt (x := (n t : ℤ) + 1) (by omega) (by omega)
    rw [hn t]
    omega
  obtain ⟨hrv, hrm'⟩ := increment_of_room hrm (t := devQType t) (by rw [hnext, hq]; exact hroom)
  rw [hnext] at hrm'
  exact ⟨hrv, .setActive e hq hn hrm'⟩

theorem Counted.decrement (h : Counted x rm q n) (t : QType) :
    (qdmaDevDecrementActiveQueue rm x.dmaDeviceIndex x.funcId (some (devQType t))).1 = 0 ∧
      Counted x (qdmaDevDecrementActiveQueue rm x.dmaDeviceIndex x.funcId (some (devQType t))).2 q
        (Function.update n t (n t - 1)) := by
  obtain ⟨e, hrm, hq, hn⟩ := h
  obtain ⟨hrv, hrm'⟩ := decrement_of_some hrm (t := devQType t)
  rw [hn t] at hrm'
  exact ⟨hrv, .setActive e hq hn hrm'⟩

theorem Counted.addActive (h : Counted x rm q n) (mail : Mail) (t : QType)
    (hmail : x.isVf = true → mail = .answered) (hroom : n t + 1 ≤ q) (hlt : n t < 2 ^ 17) :
    ∃ rm', Lifecycle.addActive x mail t rm = (0, rm') ∧
      Counted x rm' q (Function.update n t (n t + 1)) := by
  obtain ⟨hrv, hcounted⟩ := h.increment hroom hlt
  exact ⟨_, notify_ok hmail hrv, hcounted⟩

theorem Counted.addActive_carriedOut (h : Counted x rm q n) (mail : Mail) (t : QType)
    (hmail : x.isVf = true → mail.carriedOut = true) (hroom : n t + 1 ≤ q) (hlt : n t < 2 ^ 17) :
    Counted x (Lifecycle.addActive x mail t rm).2 q (Function.update n t (n t + 1)) := by
  unfold Lifecycle.addActive
  rw [notify_state hmail]
  exact (h.increment hroom hlt).2

theorem Counted.delActive (h : Counted x rm q n) (hmail : x.isVf = true → mail = .answered)
    (t : QType) :
    ∃ rm', Lifecycle.delActive x mail t rm = (0, rm') ∧
      Counted x rm' q (Function.update n t (n t - 1)) := by
  obtain ⟨hrv, hcounted⟩ := h.decrement t
  exact ⟨_, notify_ok hmail hrv, hcounted⟩

theorem delActive_failed (rm : ResourceState) (t : QType)
    (hmail : ¬ (x.isVf = true → mail = .answered))
    (hnot : x.isVf = true → mail.carriedOut = true → mail = .answered) :
    ∃ rv, delActive x mail t rm = (rv, rm) ∧ rv < 0 := by
  obtain ⟨hvf, hne⟩ := Classical.not_imp.mp hmail
  obtain ⟨hneg, hrm⟩ := notify_failed (fun rm => qdmaDevDecrementActiveQueue rm x.dmaDeviceIndex
    x.funcId (some (devQType t))) rm hvf hne (hnot hvf)
  exact ⟨_, Prod.ext rfl hrm, hneg⟩

end

/-! ## Counts of a queue -/

section

variable {x : Xdev} {rm : ResourceState} {q : ℕ} {n : QType → ℕ} {mail : ℕ → Mail}
  {conf : QdmaQueueConf} {op : ℕ → ℕ → ℕ}

theorem stC2h_qType (h : conf.stC2h = true) : conf.qType = .c2h := by
  unfold QdmaQueueConf.stC2h at h
  exact eq_of_beq (Bool.and_eq_true_iff.mp h).2

theorem load_of_stC2h (hst : conf.stC2h = true) (hop : ∀ a, op a 0 = a) :
    Function.update (Function.update n conf.qType (op (n conf.qType) 1)) .cmpt (op (n .cmpt) 1) =
      fun u => op (n u) (load conf u) := by
  have ht := stC2h_qType hst
  funext u
  unfold load
  rw [ht, hst]
  cases u with
  | h2c => exact (hop _).symm
  | c2h => rfl
  | cmpt => rfl

theorem load_of_not_stC2h (hst : ¬ conf.stC2h = true) (hop : ∀ a, op a 0 = a) :
    Function.update n conf.qType (op (n conf.qType) 1) = fun u => op (n u) (load conf u) := by
  funext u
  unfold load
  have hcmpt : ¬ (u = .cmpt ∧ conf.stC2h = true) := fun h => hst h.2
  rw [if_neg hcmpt]
  by_cases hu : u = conf.qType
  · rw [if_pos hu, hu, Function.update_self]
  · rw [if_neg hu, Function.update_of_ne hu]
    exact (hop _).symm

theorem update_qType_cmpt (hst : conf.stC2h = true) (m : ℕ) :
    Function.update n conf.qType m .cmpt = n .cmpt := by
  apply Function.update_of_ne
  rw [stC2h_qType hst]
  exact nofun

/-- The counts have room for a queue, and a VF that asks for it is answered. -/
structure Countable (x : Xdev) (rm : ResourceState) (mail : ℕ → Mail) (conf : QdmaQueueConf) :
    Prop where
  room : ∀ e, qdmaGetDevEntry rm x.dmaDeviceIndex x.funcId = some e →
    e.activeQcnt (devQType conf.qType) < e.entry.totalQ ∧
      (conf.stC2h = true → e.activeCmptQcnt < e.entry.totalQ)
  answered : x.isVf = true → mail 0 = .answered ∧ (conf.stC2h = true → mail 1 = .answered)

theorem Countable.of_entry {e : DevEntry}
    (hentry : qdmaGetDevEntry rm x.dmaDeviceIndex x.funcId = some e)
    (hroom : e.activeQcnt (devQType conf.qType) < e.entry.totalQ ∧
      (conf.stC2h = true → e.activeCmptQcnt < e.entry.totalQ)) (hpf : x.isVf = false) :
    Countable x rm mail conf := by
  constructor
  · intro e' he'
    rw [hentry] at he'
    cases he'
    exact hroom
  · intro hvf
    rw [hpf] at hvf
    cases hvf

theorem Counted.room (h : Counted x rm q n) (hok : Countable x rm mail conf) :
    n conf.qType + 1 ≤ q ∧ (conf.stC2h = true → n .cmpt + 1 ≤ q) := by
  obtain ⟨e, hrm, hq, hn⟩ := h
  rw [← hn, ← hn, ← hq]
  exact hok.room e hrm

theorem Counted.load_le (h : Counted x rm q n) (hok : Countable x rm mail conf)
    (hle : ∀ t, n t ≤ q) (u : QType) : n u + load conf u ≤ q := by
  obtain ⟨hroom, hroomCmpt⟩ := h.room hok
  by_cases hst : conf.stC2h = true
  · have hu := congrFun (load_of_stC2h (n := n) hst Nat.add_zero) u
    rw [← hu, stC2h_qType hst]
    rw [stC2h_qType hst] at hroom
    cases u with
    | h2c => exact hle .h2c
    | c2h => exact hroom
    | cmpt => exact hroomCmpt hst
  · have hu := congrFun (load_of_not_stC2h (n := n) hst Nat.add_zero) u
    rw [← hu]
    by_cases hut : u = conf.qType
    · rw [hut, Function.update_self]
      exact hroom
    · rw [Function.update_of_ne hut]
      exact hle u

/-- A queue that is added is entered in all its counts. -/
theorem Counted.countAdded (h : Counted x rm q n) (hok : Countable x rm mail conf)
    (hlt : ∀ t, n t < 2 ^ 17) :
    ∃ rm', Lifecycle.countAdded x mail conf rm = (0, rm') ∧
      Counted x rm' q fun u => n u + load conf u := by
  have hroom := h.room hok
  obtain ⟨rm₁, hadd, h₁⟩ := h.addActive (mail 0) conf.qType
    (fun hvf => (hok.answered hvf).1) hroom.1 (hlt _)
  unfold Lifecycle.countAdded countQueue
  dsimp only
  rw [hadd]
  dsimp only
  rw [if_neg (lt_irrefl _)]
  split
  · rename_i hst
    have hsame := update_qType_cmpt (n := n) hst (n conf.qType + 1)
    obtain ⟨rm₂, hadd₂, h₂⟩ := h₁.addActive (mail 1) .cmpt
      (fun hvf => (hok.answered hvf).2 hst) (by rw [hsame]; exact hroom.2 hst)
      (by rw [hsame]; exact hlt _)
    rw [hadd₂]
    dsimp only
    rw [if_neg (lt_irrefl _)]
    rw [hsame, load_of_stC2h hst Nat.add_zero] at h₂
    exact ⟨rm₂, rfl, h₂⟩
  · rename_i hst
    rw [load_of_not_stC2h hst Nat.add_zero] at h₁
    exact ⟨rm₁, rfl, h₁⟩

/-- The notifications of a VF that fail on the way of a removal are not carried out, and the one
that takes another back is. -/
structure MailKept (mail : ℕ → Mail) (conf : QdmaQueueConf) : Prop where
  first : (mail 0).carriedOut = true → mail 0 = .answered
  second : conf.stC2h = true → mail 0 = .answered → (mail 1).carriedOut = true →
    mail 1 = .answered
  undo : conf.stC2h = true → mail 0 = .answered → mail 1 ≠ .answered →
    (mail 2).carriedOut = true

/-- A queue that is removed is taken from all its counts, or from none. -/
theorem Counted.countRemoved (h : Counted x rm q n) (mail : ℕ → Mail)
    (hok : x.isVf = true → MailKept mail conf)
    (hpos : 0 < n conf.qType) (hle : n conf.qType ≤ q) (hlt : ∀ t, n t < 2 ^ 17) :
    (∃ rm', Lifecycle.countRemoved x mail conf rm = (0, rm') ∧
        Counted x rm' q fun u => n u - load conf u) ∨
      ∃ rv rm', Lifecycle.countRemoved x mail conf rm = (rv, rm') ∧ rv < 0 ∧ Counted x rm' q n := by
  unfold Lifecycle.countRemoved countQueue
  dsimp only
  by_cases hfirst : x.isVf = true → mail 0 = .answered
  · obtain ⟨rm₁, hdel, h₁⟩ := h.delActive hfirst conf.qType
    rw [hdel]
    dsimp only
    rw [if_neg (lt_irrefl _)]
    split
    · rename_i hst
      have hsame := update_qType_cmpt (n := n) hst (n conf.qType - 1)
      by_cases hsecond : x.isVf = true → mail 1 = .answered
      · obtain ⟨rm₂, hdel₂, h₂⟩ := h₁.delActive hsecond .cmpt
        rw [hdel₂]
        dsimp only
        rw [if_neg (lt_irrefl _)]
        rw [hsame, load_of_stC2h hst Nat.sub_zero] at h₂
        exact .inl ⟨rm₂, rfl, h₂⟩
      · -- the first count is taken back
        obtain ⟨rv, hdel₂, hneg⟩ := delActive_failed rm₁ .cmpt hsecond
          fun hvf => (hok hvf).second hst (hfirst hvf)
        obtain ⟨hvf, hne⟩ := Classical.not_imp.mp hsecond
        have h₂ := h₁.addActive_carriedOut (mail 2) conf.qType
          (fun hvf => (hok hvf).undo hst (hfirst hvf) hne)
          (by rw [Function.update_self]; omega)
          (by rw [Function.update_self]; exact (Nat.sub_le _ _).trans_lt (hlt _))
        rw [Function.update_self, Function.update_idem, Nat.sub_add_cancel hpos,
          Function.update_eq_self] at h₂
        rw [hdel₂]
        dsimp only
        rw [if_pos hneg]
        exact .inr ⟨rv, _, rfl, hneg, h₂⟩
    · rename_i hst
      rw [load_of_not_stC2h hst Nat.sub_zero] at h₁
      exact .inl ⟨rm₁, rfl, h₁⟩
  · obtain ⟨rv, hdel, hneg⟩ := delActive_failed rm conf.qType hfirst
      fun hvf => (hok hvf).first
    rw [hdel]
    dsimp only
    rw [if_pos hneg]
    exact .inr ⟨rv, rm, rfl, hneg, h⟩

end

/-! ## Runs -/

/-- A call of `qdma_queue_add` that has a slot to mark and keeps the counts: the slot is a free one
of the array of its type, the PF can be prepared, and the queue can be counted. -/
structure AddSafe (x : Xdev) (d : Device) (c : ClientConf) (env : AddEnv) : Prop where
  slot : c.qidx = QDMA_QUEUE_IDX_INVALID → ∀ i, firstUsable x d c.conf = some i →
    2 * i < x.qmax ∧ (d.slots (x.base c.conf.qType + 2 * i)).qState = .disabled
  prep : x.isVf = false → ¬ PrepFails d env
  count : ¬ PrepFails d env → ¬ LegacyFails x env → Countable x d.rm env.mail c.conf

/-- The calls that keep the counts. The rest of the system leaves the entry of the function as it
is. -/
def CallSafe (x : Xdev) (d : Device) : DeviceEvent → Prop
  | .add c env => (∃ pos qidx, Reserved x d c env pos qidx) → AddSafe x d c env
  | .remove id mail =>
    id < 3 * x.qmax → (d.slots id).qState = .enabled → x.isVf = true →
      MailKept mail (d.slots id).conf
  | .others rm => qdmaGetDevEntry rm x.dmaDeviceIndex x.funcId =
      qdmaGetDevEntry d.rm x.dmaDeviceIndex x.funcId
  | _ => True

/-- Every queue is in the array of its type, and the counts are the numbers of queues. -/
structure CountInv (x : Xdev) (d : Device) : Prop where
  typed : ∀ t, ∀ k < x.qmax, (d.slots (x.base t + k)).qState ≠ .disabled →
    (d.slots (x.base t + k)).conf.qType = t
  counted : ∃ q, Counted x d.rm q (d.expected x) ∧ ∀ t, d.expected x t ≤ q

section

variable {x : Xdev} {grant : Grant} {d d' : Device} {c : ClientConf} {env : AddEnv} {pos qidx : ℕ}

theorem CountInv.countsOk (h : CountInv x d) : CountsOk x d := by
  obtain ⟨q, ⟨e, hrm, -, hn⟩, -⟩ := h.counted
  exact ⟨e, hrm, hn .h2c, hn .c2h, hn .cmpt⟩

theorem base_split {id : ℕ} (h : id < 3 * x.qmax) : ∃ t, ∃ k < x.qmax, id = x.base t + k := by
  by_cases hh2c : id < x.qmax
  · exact ⟨.h2c, id, hh2c, by simp only [Xdev.base]; omega⟩
  · by_cases hc2h : id < 2 * x.qmax
    · exact ⟨.c2h, id - x.qmax, by omega, by simp only [Xdev.base]; omega⟩
    · exact ⟨.cmpt, id - 2 * x.qmax, by omega, by simp only [Xdev.base]; omega⟩

/-- Calls that neither add nor remove queues keep the counts. -/
theorem CountInv.of_stays (h : CountInv x d) (hs : ∀ p, (d.slots p).Stays (d'.slots p))
    (hrm : qdmaGetDevEntry d'.rm x.dmaDeviceIndex x.funcId =
      qdmaGetDevEntry d.rm x.dmaDeviceIndex x.funcId) : CountInv x d' := by
  have hqueues : ∀ t, numQueues x d' t = numQueues x d t := fun t =>
    number_congr fun p => not_congr (hs p).disabled
  have hstreaming : numStreaming x d' = numStreaming x d := by
    refine number_congr fun p => ?_
    rw [ne_eq, (hs p).disabled, (hs p).st]
  have hexpected : d'.expected x = d.expected x := by
    funext t
    cases t <;> simp only [Device.expected, hqueues, hstreaming]
  constructor
  · intro t k hk hon
    rw [(hs _).qType]
    exact h.typed t k hk fun hoff => hon ((hs _).disabled.mpr hoff)
  · obtain ⟨q, ⟨e, hentry, he⟩, hle⟩ := h.counted
    rw [hexpected]
    exact ⟨q, ⟨e, hrm.trans hentry, he⟩, hle⟩

/-- The slot that is marked is a free one of its array. -/
theorem AddSafe.reserved (h : AddSafe x d c env) (hslot : Reserved x d c env pos qidx) :
    (∃ k < x.qmax, pos = x.base c.conf.qType + k) ∧ (d.slots pos).qState = .disabled := by
  rcases hslot.cases with ⟨hauto, hfirst, hpos⟩ | ⟨-, -, hpos⟩
  · obtain ⟨hlt, hoff⟩ := h.slot hauto qidx hfirst
    have heq : pos = x.base c.conf.qType + 2 * qidx := by omega
    rw [heq]
    exact ⟨⟨2 * qidx, hlt, rfl⟩, hoff⟩
  · obtain ⟨hlt, husable⟩ := hslot.usable
    rw [hpos]
    exact ⟨⟨qidx, hlt, rfl⟩, isUsableQueue_disabled husable⟩

/-- A free slot that is marked and freed again is as before. -/
theorem setState_disabled (h : (d.slots pos).qState = .disabled) :
    d.setState pos .disabled = d := by
  unfold Device.setState Device.setSlot
  rw [← h, Function.update_eq_self]

/-- A slot of an array gets a queue that was counted. -/
theorem CountInv.setSlot (h : CountInv x d) {t : QType} {k : ℕ} (hk : k < x.qmax)
    (hoff : (d.slots (x.base t + k)).qState = .disabled) {s : Slot} (hon : s.qState ≠ .disabled)
    (ht : s.conf.qType = t) {rm : ResourceState} {q : ℕ} {ranged : Bool}
    (hcounted : Counted x rm q fun u => d.expected x u + load s.conf u)
    (hle : ∀ u, d.expected x u + load s.conf u ≤ q) :
    CountInv x { d.setSlot (x.base t + k) s with initQrange := ranged, rm := rm } := by
  have hexpected : ∀ u, (d.setSlot (x.base t + k) s).expected x u =
      d.expected x u + load s.conf u := by
    intro u
    have hset := expected_setSlot (d := d) hk (s := s) (fun hne => absurd hoff hne) (fun _ => ht) u
    unfold Slot.load at hset
    rwa [if_pos hoff, if_neg hon, Nat.add_zero] at hset
  constructor
  · intro u j hj hne
    by_cases hat : x.base u + j = x.base t + k
    · obtain ⟨rfl, rfl⟩ := base_inj hj hk hat
      exact (congrArg (·.conf.qType) (d.setSlot_self _ s)).trans ht
    · have hsame : (d.setSlot (x.base t + k) s).slots (x.base u + j) = d.slots (x.base u + j) :=
        Device.setSlot_of_ne hat s
      have hold := h.typed u j hj
      rw [← hsame] at hold
      exact hold hne
  · refine ⟨q, ?_, fun u => ?_⟩
    · convert hcounted using 1
      funext u
      exact hexpected u
    · exact (hexpected u).trans_le (hle u)

/-- A safe call adds a queue that is counted, or changes nothing. -/
theorem CountInv.add (h : CountInv x d)
    (hsafe : (∃ pos qidx, Reserved x d c env pos qidx) → AddSafe x d c env) :
    CountInv x (qdmaQueueAdd x d c env).2.2 ∧
      ((qdmaQueueAdd x d c env).1 ≠ 0 →
        (qdmaQueueAdd x d c env).2.2.slots = d.slots ∧ (qdmaQueueAdd x d c env).2.2.rm = d.rm) := by
  obtain ⟨q, hcounted, hle⟩ := h.counted
  have hadd := qdmaQueueAdd_result x d c env
  generalize qdmaQueueAdd x d c env = res at hadd ⊢
  cases hadd with
  | refused hneg => exact ⟨h, fun _ => ⟨rfl, rfl⟩⟩
  | unwound hslot hneg =>
    obtain ⟨-, hoff⟩ := (hsafe ⟨_, _, hslot⟩).reserved hslot
    dsimp only
    rw [setState_disabled hoff]
    exact ⟨h.of_stays (fun p => .refl _) rfl, fun _ => ⟨rfl, rfl⟩⟩
  | marked hslot hpf hprep => exact absurd hprep ((hsafe ⟨_, _, hslot⟩).prep hpf)
  | uncounted hslot hprep hlegacy hcount hneg =>
    obtain ⟨rm', heq, -⟩ := hcounted.countAdded ((hsafe ⟨_, _, hslot⟩).count hprep hlegacy)
      (expected_lt x d)
    rw [hcount] at heq
    exact absurd (congrArg Prod.fst heq) hneg.ne
  | added hslot hprep hlegacy hcount hrv =>
    have hok := (hsafe ⟨_, _, hslot⟩).count hprep hlegacy
    obtain ⟨⟨k, hk, rfl⟩, hoff⟩ := (hsafe ⟨_, _, hslot⟩).reserved hslot
    obtain ⟨rm', heq, hcounted'⟩ := hcounted.countAdded hok (expected_lt x d)
    rw [hcount] at heq
    cases heq
    refine ⟨h.setSlot hk hoff ?_ rfl hcounted' (hcounted.load_le hok hle),
      fun hne => absurd rfl hne⟩
    exact nofun

/-- A queue that is removed leaves all its counts. -/
theorem CountInv.remove (h : CountInv x d) (id : ℕ) (mail : ℕ → Mail)
    (hsafe : CallSafe x d (.remove id mail)) : CountInv x (qdmaQueueRemove x d id mail).2 := by
  unfold qdmaQueueRemove
  split
  · exact h
  · rename_i pos hpos
    obtain ⟨rfl, hlt, -⟩ := getDescqById_some hpos
    split
    · exact h
    · rename_i hen
      have hen : (d.slots pos).qState = .enabled := Decidable.not_not.mp hen
      obtain ⟨t, k, hk, rfl⟩ := base_split hlt
      have hon : (d.slots (x.base t + k)).qState ≠ .disabled := by
        rw [hen]
        exact nofun
      have ht := h.typed t k hk hon
      obtain ⟨q, hcounted, hle⟩ := h.counted
      -- the counts without the queue
      have hset : ∀ u, (d.setState (x.base t + k) .disabled).expected x u +
          load (d.slots (x.base t + k)).conf u = d.expected x u := by
        intro u
        have hset := expected_setSlot (d := d) hk
          (s := { d.slots (x.base t + k) with qState := .disabled }) (fun _ => ht)
          (fun hne => absurd rfl hne) u
        unfold Slot.load at hset
        rwa [if_neg hon, if_pos rfl, Nat.add_zero] at hset
      have hpos : 0 < d.expected x (d.slots (x.base t + k)).conf.qType := by
        rw [← hset, load, if_pos rfl]
        omega
      have hcount := hcounted.countRemoved mail
        (fun hvf => hsafe hlt hen hvf) hpos (hle _) (expected_lt x d)
      dsimp only
      rcases hcount with ⟨rm', heq, hcounted'⟩ | ⟨rv, rm', heq, hneg, hcounted'⟩
      · unfold countRemoved at heq
        rw [heq]
        dsimp only
        rw [if_neg (lt_irrefl _)]
        constructor
        · intro u j hj hne
          by_cases hat : x.base u + j = x.base t + k
          · rw [Device.setState, hat, Device.setSlot_self] at hne
            exact absurd rfl hne
          · have hsame : ({ d with rm := rm' }.setState (x.base t + k) .disabled).slots
                (x.base u + j) = d.slots (x.base u + j) := Device.setSlot_of_ne hat _
            rw [hsame] at hne ⊢
            exact h.typed u j hj hne
        · have hrest : (fun u => d.expected x u - load (d.slots (x.base t + k)).conf u) =
              (d.setState (x.base t + k) .disabled).expected x :=
            funext fun u => Nat.sub_eq_of_eq_add (hset u).symm
          rw [hrest] at hcounted'
          exact ⟨q, hcounted', fun u => (Nat.le.intro (hset u)).trans (hle u)⟩
      · unfold countRemoved at heq
        rw [heq]
        dsimp only
        rw [if_pos hneg]
        exact ⟨h.typed, q, hcounted', hle⟩

/-- Every safe call keeps the counts. -/
theorem CountInv.step (h : CountInv x d) (grant : Grant) (e : DeviceEvent)
    (hsafe : CallSafe x d e) :
    CountInv x (deviceStep x grant d e) := by
  have hrm : qdmaGetDevEntry d.rm x.dmaDeviceIndex x.funcId =
      qdmaGetDevEntry d.rm x.dmaDeviceIndex x.funcId := rfl
  cases e with
  | add c env => exact (h.add hsafe).1
  | remove id mail => exact h.remove id mail hsafe
  | config id c =>
    refine h.of_stays (qdmaQueueConfig_stays x d id c) (.trans ?_ hrm)
    unfold deviceStep qdmaQueueConfig
    dsimp only
    split <;> rfl
  | start id ctxt =>
    refine h.of_stays (qdmaQueueStart_stays x grant d id ctxt) (.trans ?_ hrm)
    unfold deviceStep qdmaQueueStart
    dsimp only
    split <;> rfl
  | stop id =>
    refine h.of_stays (qdmaQueueStop_stays x d id) (.trans ?_ hrm)
    unfold deviceStep qdmaQueueStop
    dsimp only
    split <;> rfl
  | others rm => exact h.of_stays (fun p => .refl _) hsafe

end

/-- A new device has no queues. -/
theorem CountInv.init (x : Xdev) (rm : ResourceState) (other : ℕ → Slot) {e : DevEntry}
    (hentry : qdmaGetDevEntry rm x.dmaDeviceIndex x.funcId = some e)
    (hzero : ∀ t, e.activeQcnt t = 0) : CountInv x (qdmaDeviceInit x rm other) := by
  have hoff : ∀ p < 3 * x.qmax, ((qdmaDeviceInit x rm other).slots p).qState = .disabled := by
    intro p hp
    unfold qdmaDeviceInit
    dsimp only
    rw [if_pos hp]
  have hnone := expected_eq_zero hoff
  constructor
  · exact fun t k hk hon => absurd (hoff _ (base_add_lt hk)) hon
  · refine ⟨e.entry.totalQ, ⟨e, hentry, rfl, fun t => ?_⟩, fun t => ?_⟩
    · rw [hnone, hzero]
    · rw [hnone]
      exact Nat.zero_le _

/-- A call of `qdma_queue_add` that fails leaves the states of all queues and all counts. -/
def AddUndone (x : Xdev) (d : Device) : Prop :=
  ∀ c env, CallSafe x d (.add c env) → (qdmaQueueAdd x d c env).1 ≠ 0 →
    (∀ p, ((qdmaQueueAdd x d c env).2.2.slots p).qState = (d.slots p).qState) ∧
      (qdmaQueueAdd x d c env).2.2.rm = d.rm

/-- After any safe calls on a new device whose function has no active queues, the counts are the
numbers of queues, and a failing addition changes neither. -/
theorem queueRun_countsOk (x : Xdev) (grant : Grant) {rm : ResourceState} (other : ℕ → Slot)
    {e : DevEntry} (hentry : qdmaGetDevEntry rm x.dmaDeviceIndex x.funcId = some e)
    (hzero : ∀ t, e.activeQcnt t = 0) (es : List DeviceEvent)
    (h : Admitted (deviceStep x grant) (CallSafe x) (qdmaDeviceInit x rm other) es) :
    CountsOk x (run (deviceStep x grant) (qdmaDeviceInit x rm other) es) ∧
      AddUndone x (run (deviceStep x grant) (qdmaDeviceInit x rm other) es) := by
  have hinit := CountInv.init x rm other hentry hzero
  have hinv : CountInv x (run (deviceStep x grant) (qdmaDeviceInit x rm other) es) :=
    h.invariant (fun _ e hs ho => hs.step grant e ho) hinit
  refine ⟨hinv.countsOk, ?_⟩
  intro c env hsafe hne
  obtain ⟨hslots, hrm⟩ := (hinv.add hsafe).2 hne
  exact ⟨fun p => by rw [hslots], hrm⟩

/-- An H2C queue of which the library chooses the index, a streaming C2H queue that lives and dies,
and a completion queue that is refused beside it. -/
def countedRun : List DeviceEvent :=
  [.add (autoConf .h2c) {}, .add { c2hConf with qidx := 1 } {}, .start 5 0,
    .add { conf := { qType := .cmpt }, qidx := 1 } {}, .stop 5, .remove 5 fun _ => .answered]

theorem countedRun_countsOk :
    CountsOk pollingPf (run (deviceStep pollingPf fun _ => true) newDevice countedRun) ∧
      AddUndone pollingPf (run (deviceStep pollingPf fun _ => true) newDevice countedRun) := by
  have hprep : ∀ d, ¬ PrepFails d {} := fun d h => absurd h.2 (lt_irrefl 0)
  apply queueRun_countsOk pollingPf (fun _ => true) (fun _ => newSlot)
    (e := { funcId := 0, entry := { qbase := 0, totalQ := 4 } }) (by decide +kernel)
    (fun t => by cases t <;> rfl)
  refine ⟨fun _ => ⟨?_, fun _ => hprep _, fun _ _ => ?_⟩,
    fun _ => ⟨fun hauto => absurd hauto (by decide), fun _ => hprep _, fun _ _ => ?_⟩, trivial, ?_,
    trivial, fun _ _ hvf => absurd hvf (by decide), trivial⟩
  · intro _ i hi
    have hfirst : firstUsable pollingPf newDevice (autoConf .h2c).conf = some 0 := by decide +kernel
    unfold newDevice at hfirst
    rw [hfirst] at hi
    cases hi
    decide +kernel
  · exact .of_entry (e := { funcId := 0, entry := { qbase := 0, totalQ := 4 } })
      (by decide +kernel) (by decide) rfl
  · exact .of_entry
      (e := { funcId := 0, activeH2cQcnt := 1, entry := { qbase := 0, totalQ := 4 } })
      (by decide +kernel) (by decide) rfl
  · rintro ⟨pos, qidx, hslot⟩
    have hnone : findSlot pollingPf (run (deviceStep pollingPf fun _ => true) newDevice
        [.add (autoConf .h2c) {}, .add { c2hConf with qidx := 1 } {}, .start 5 0])
        { conf := { qType := .cmpt }, qidx := 1 } = none := by decide +kernel
    exact absurd (hslot.slot.symm.trans hnone) (Option.some_ne_none _)

/-- On a PF that cannot be prepared the slot stays marked, though nothing is counted. -/
theorem unprepared_not_undone : ¬ ∀ c env, (qdmaQueueAdd pollingPf newDevice c env).1 ≠ 0 →
    (∀ p, ((qdmaQueueAdd pollingPf newDevice c env).2.2.slots p).qState =
      (newDevice.slots p).qState) ∧
      (qdmaQueueAdd pollingPf newDevice c env).2.2.rm = newDevice.rm := by
  intro h
  have hstate := (h c2hConf { prep := -EINVAL } (by decide +kernel)).1 4
  revert hstate
  decide +kernel

end OnicDriver.Lifecycle
