import OnicDriver.Lifecycle.Counts

/-!
# Modes of the queues of an index

The H2C and the C2H queue of an index work in the same mode, and a completion
queue of its own goes with memory mapped queues only. `qdma_queue_add` compares
a new queue with the others of its index; where the library chooses an index
other than 0, it is the slot of another index that gets the queue.
-/

namespace OnicDriver.Lifecycle

open Lib Access Queue Setup Resource

/-- The queue of a type at an index. -/
def Device.queue (x : Xdev) (d : Device) (t : QType) (i : ℕ) : Slot := d.slots (x.base t + i)

/-- A queue is added: it is not `Q_STATE_DISABLED`. -/
def Slot.InUse (s : Slot) : Prop := s.qState ≠ .disabled

/-- A queue is added and streams. -/
def Slot.Streaming (s : Slot) : Prop := s.InUse ∧ s.conf.st = true

/-- The queues of an index go together: those of data have the same mode, and a completion queue
has no streaming queue beside it. -/
structure IndexCompatible (x : Xdev) (d : Device) (i : ℕ) : Prop where
  sameMode : (d.queue x .h2c i).InUse → (d.queue x .c2h i).InUse →
    (d.queue x .h2c i).conf.st = (d.queue x .c2h i).conf.st
  noStreaming : (d.queue x .cmpt i).InUse →
    ¬ (d.queue x .h2c i).Streaming ∧ ¬ (d.queue x .c2h i).Streaming

/-- The queues of every index go together. -/
def ModesCompatible (x : Xdev) (d : Device) : Prop := ∀ i < x.qmax, IndexCompatible x d i

/-- The queue that a client asks for has a free place at an index, and goes with the others. -/
def FreeAndCompatible (x : Xdev) (d : Device) (c : ClientConf) (i : ℕ) : Prop :=
  ¬ (d.queue x c.conf.qType i).InUse ∧
    IndexCompatible x (d.setSlot (x.base c.conf.qType + i)
      (d.configured c (x.base c.conf.qType + i) i)) i

/-- `qdma_queue_add` fails for lack of a queue: the count of active queues is at its limit, or no
index is usable. -/
def LacksQueue (x : Xdev) (d : Device) (c : ClientConf) (env : AddEnv) : Prop :=
  addCheck x d c env = - EIO ∨ ¬ addCheck x d c env < 0 ∧ findSlot x d c = none

/-- Where the library is to choose the index, it finds none only if there is none. -/
def LackJustified (x : Xdev) (d : Device) : DeviceEvent → Prop
  | .add c env => c.qidx = QDMA_QUEUE_IDX_INVALID → LacksQueue x d c env →
      ∀ i < x.qmax, ¬ FreeAndCompatible x d c i
  | _ => True

/-- The rest of the system leaves the entry of the function as it is, and a VF is told the counts
of that entry or, if the PF does not answer, nothing. -/
def RestKept (x : Xdev) (d : Device) : DeviceEvent → Prop
  | .add _ env => x.isVf = true → ∀ t, env.told t = 0 ∨
      env.told t = u32 (qdmaGetDeviceActiveQueueCount d.rm x.dmaDeviceIndex x.funcId (devQType t))
  | .others rm => qdmaGetDevEntry rm x.dmaDeviceIndex x.funcId =
      qdmaGetDevEntry d.rm x.dmaDeviceIndex x.funcId
  | _ => True

/-- The library chooses no index other than 0. -/
def ChoiceDirect (x : Xdev) (d : Device) : DeviceEvent → Prop
  | .add c env => ¬ addCheck x d c env < 0 → Direct x d c
  | _ => True

/-! ## Queues of an index -/

section

variable {x : Xdev} {d d' : Device} {t u : QType} {i j : ℕ} {s : Slot} {c : ClientConf}

theorem queue_setSlot_self (s : Slot) : (d.setSlot (x.base t + i) s).queue x t i = s :=
  d.setSlot_self _ s

theorem queue_setSlot_of_ne (hi : i < x.qmax) (hj : j < x.qmax) (h : u ≠ t ∨ j ≠ i)
    (s : Slot) :
    (d.setSlot (x.base t + i) s).queue x u j = d.queue x u j := by
  apply Device.setSlot_of_ne
  intro heq
  obtain ⟨rfl, rfl⟩ := base_inj hj hi heq
  rcases h with h | h <;> exact h rfl

theorem Slot.Stays.inUse {s s' : Slot} (h : s.Stays s') : s'.InUse ↔ s.InUse :=
  not_congr h.disabled

/-- What the queues of an index have in common depends on their states and modes alone. -/
theorem IndexCompatible.of_stays (h : IndexCompatible x d i)
    (hs : ∀ t, (d.queue x t i).Stays (d'.queue x t i)) : IndexCompatible x d' i := by
  have hstreaming : ∀ t, (d'.queue x t i).Streaming ↔ (d.queue x t i).Streaming := fun t =>
    and_congr (hs t).inUse (by rw [(hs t).st])
  constructor
  · intro hh2c hc2h
    rw [(hs .h2c).st, (hs .c2h).st]
    exact h.sameMode ((hs .h2c).inUse.mp hh2c) ((hs .c2h).inUse.mp hc2h)
  · intro hcmpt
    rw [hstreaming, hstreaming]
    exact h.noStreaming ((hs .cmpt).inUse.mp hcmpt)

/-- Memory mapped queues go together. -/
theorem indexCompatible_of_mm (h : ∀ t, (d.queue x t i).conf.st = false) :
    IndexCompatible x d i := by
  have hnone : ∀ t, ¬ (d.queue x t i).Streaming := by
    rintro t ⟨-, hst⟩
    rw [h t] at hst
    cases hst
  exact ⟨fun _ _ => (h .h2c).trans (h .c2h).symm, fun _ => ⟨hnone .h2c, hnone .c2h⟩⟩

/-- What `is_usable_queue` asks of the other queues of the index. -/
def Beside (x : Xdev) (d : Device) (i : ℕ) (st : Bool) : QType → Prop
  | .h2c => (st = true → ¬ (d.queue x .cmpt i).InUse) ∧
      ((d.queue x .c2h i).InUse → st = (d.queue x .c2h i).conf.st)
  | .c2h => (st = true → ¬ (d.queue x .cmpt i).InUse) ∧
      ((d.queue x .h2c i).InUse → (d.queue x .h2c i).conf.st = st)
  | .cmpt => ¬ (d.queue x .h2c i).Streaming ∧ ¬ (d.queue x .c2h i).Streaming

theorem isUsableQueue_iff {st : Bool} :
    isUsableQueue x d i t st = true ↔ ¬ (d.queue x t i).InUse ∧ Beside x d i st t := by
  unfold isUsableQueue Beside Slot.Streaming Slot.InUse Device.queue
  dsimp only
  by_cases hh2c : (d.slots (x.base .h2c + i)).qState = .disabled <;>
    by_cases hc2h : (d.slots (x.base .c2h + i)).qState = .disabled <;>
      cases t <;> cases st <;> simp [hh2c, hc2h]

/-- The queue of a usable index goes with the others. -/
theorem IndexCompatible.setSlot (h : IndexCompatible x d i) (hi : i < x.qmax)
    (husable : isUsableQueue x d i t s.conf.st = true) :
    IndexCompatible x (d.setSlot (x.base t + i) s) i := by
  have hself : (d.setSlot (x.base t + i) s).queue x t i = s := queue_setSlot_self s
  have hother : ∀ u ≠ t, (d.setSlot (x.base t + i) s).queue x u i = d.queue x u i := fun u hu =>
    queue_setSlot_of_ne hi hi (.inl hu) s
  obtain ⟨-, hbeside⟩ := isUsableQueue_iff.mp husable
  cases t with
  | h2c =>
    obtain ⟨hcmpt, hmode⟩ := hbeside
    constructor
    · rw [hself, hother .c2h nofun]
      exact fun _ => hmode
    · rw [hself, hother .c2h nofun, hother .cmpt nofun]
      exact fun huse => ⟨fun hst => hcmpt hst.2 huse, (h.noStreaming huse).2⟩
  | c2h =>
    obtain ⟨hcmpt, hmode⟩ := hbeside
    constructor
    · rw [hself, hother .h2c nofun]
      exact fun huse _ => hmode huse
    · rw [hself, hother .h2c nofun, hother .cmpt nofun]
      exact fun huse => ⟨(h.noStreaming huse).1, fun hst => hcmpt hst.2 huse⟩
  | cmpt =>
    constructor
    · rw [hother .h2c nofun, hother .c2h nofun]
      exact h.sameMode
    · rw [hother .h2c nofun, hother .c2h nofun]
      exact fun _ => hbeside

/-- An index with a free place where the queue goes with the others is usable. -/
theorem isUsableQueue_of_free (hi : i < x.qmax) (h : FreeAndCompatible x d c i) :
    isUsableQueue x d i c.conf.qType c.conf.st = true := by
  obtain ⟨hfree, hmode, hcmpt⟩ := h
  generalize hs : d.configured c (x.base c.conf.qType + i) i = s at hmode hcmpt
  have huse : s.InUse := by
    rw [← hs]
    exact nofun
  have hst : s.conf.st = c.conf.st := by
    rw [← hs]
    rfl
  rw [← hst]
  generalize c.conf.qType = t at *
  have hself : (d.setSlot (x.base t + i) s).queue x t i = s := queue_setSlot_self s
  have hother : ∀ u ≠ t, (d.setSlot (x.base t + i) s).queue x u i = d.queue x u i := fun u hu =>
    queue_setSlot_of_ne hi hi (.inl hu) s
  refine isUsableQueue_iff.mpr ⟨hfree, ?_⟩
  cases t with
  | h2c =>
    rw [hself, hother .c2h nofun] at hmode
    rw [hself, hother .c2h nofun, hother .cmpt nofun] at hcmpt
    exact ⟨fun hst huse' => (hcmpt huse').1 ⟨huse, hst⟩, hmode huse⟩
  | c2h =>
    rw [hself, hother .h2c nofun] at hmode
    rw [hself, hother .h2c nofun, hother .cmpt nofun] at hcmpt
    exact ⟨fun hst huse' => (hcmpt huse').2 ⟨huse, hst⟩, fun huse' => hmode huse' huse⟩
  | cmpt =>
    rw [hself, hother .h2c nofun, hother .c2h nofun] at hcmpt
    exact hcmpt huse

end

/-! ## Counts -/

/-- A queue of the array of a type is entered in the count of a type. -/
def Slot.Takes (s : Slot) (t u : QType) : Prop :=
  s.InUse ∧ s.conf.qType = t ∧ 0 < Lifecycle.load s.conf u

/-- A queue of an index is entered in the count of a type. -/
def Taken (x : Xdev) (d : Device) (u : QType) (i : ℕ) : Prop := ∃ t, (d.queue x t i).Takes t u

open Classical in
/-- The indices with a queue that is entered in the count of a type. -/
noncomputable def numTaken (x : Xdev) (d : Device) (u : QType) : ℕ :=
  Nat.count (Taken x d u) x.qmax

/-- The counts of the function are within bounds. -/
def CountsWithin (x : Xdev) (rm : ResourceState) (n : QType → ℕ) : Prop :=
  ∃ e, qdmaGetDevEntry rm x.dmaDeviceIndex x.funcId = some e ∧
    ∀ t, e.activeQcnt (devQType t) ≤ n t

section

variable {x : Xdev} {d : Device} {t u : QType} {i : ℕ} {s : Slot}

theorem load_le_one (conf : QdmaQueueConf) (u : QType) : load conf u ≤ 1 := by
  unfold load
  by_cases hst : u = .cmpt ∧ conf.stC2h = true
  · rw [if_pos hst, if_neg]
    rw [hst.1, stC2h_qType hst.2]
    exact nofun
  · rw [if_neg hst]
    split <;> omega

/-- A queue is entered in the count of its type, and in that of completions if it is a streaming
C2H queue. -/
theorem load_pos {conf : QdmaQueueConf} (h : 0 < load conf u) :
    u = conf.qType ∨ u = .cmpt ∧ conf.qType = .c2h ∧ conf.st = true := by
  unfold load at h
  by_cases ht : u = conf.qType
  · exact .inl ht
  · rw [if_neg ht, Nat.zero_add] at h
    by_cases hst : u = .cmpt ∧ conf.stC2h = true
    · exact .inr ⟨hst.1, stC2h_qType hst.2, (Bool.and_eq_true_iff.mp hst.2).1⟩
    · rw [if_neg hst] at h
      omega

/-- No queue of a usable index is entered in a count of the new one. -/
theorem not_taken_of_usable {conf : QdmaQueueConf}
    (h : isUsableQueue x d i conf.qType conf.st = true) (hu : 0 < load conf u) :
    ¬ Taken x d u i := by
  rintro ⟨t, huse, ht, hload⟩
  obtain ⟨hfree, hbeside⟩ := isUsableQueue_iff.mp h
  rcases load_pos hu with rfl | ⟨rfl, hc2h, hst⟩ <;>
    rcases load_pos hload with hut | ⟨hcmpt, htc2h, hst'⟩
  · rw [ht] at hut
    subst hut
    exact hfree huse
  · rw [hcmpt] at hbeside
    rw [ht] at htc2h
    subst htc2h
    exact hbeside.2 ⟨huse, hst'⟩
  · rw [ht] at hut
    subst hut
    rw [hc2h] at hbeside
    exact hbeside.1 hst huse
  · rw [ht] at htc2h
    subst htc2h
    rw [hc2h] at hfree
    exact hfree huse

/-- A queue that is entered in a count is the only one of its index. -/
theorem IndexCompatible.takes_unique (h : IndexCompatible x d i) {t' : QType}
    (ht : (d.queue x t i).Takes t u) (ht' : (d.queue x t' i).Takes t' u) : t' = t := by
  obtain ⟨huse, htype, hload⟩ := ht
  obtain ⟨huse', htype', hload'⟩ := ht'
  rcases load_pos hload with hu | ⟨hu, hc2h, hst⟩ <;>
    rcases load_pos hload' with hu' | ⟨hu', hc2h', hst'⟩
  · exact htype'.symm.trans (hu'.symm.trans (hu.trans htype))
  · have hcmpt : t = .cmpt := htype.symm.trans (hu.symm.trans hu')
    have hdata : t' = .c2h := htype'.symm.trans hc2h'
    subst hcmpt hdata
    exact absurd ⟨huse', hst'⟩ (h.noStreaming huse).2
  · have hcmpt : t' = .cmpt := htype'.symm.trans (hu'.symm.trans hu)
    have hdata : t = .c2h := htype.symm.trans hc2h
    subst hcmpt hdata
    exact absurd ⟨huse, hst⟩ (h.noStreaming huse').2
  · exact (htype'.symm.trans hc2h').trans (htype.symm.trans hc2h).symm

open Classical in
/-- A change of one queue changes the number of taken indices by what it takes, if the others of
its index take none of it. -/
theorem numTaken_setSlot (hi : i < x.qmax) (s : Slot) (u : QType)
    (halone : ∀ v ≠ t, (d.queue x v i).Takes v u →
      ¬ (d.queue x t i).Takes t u ∧ ¬ s.Takes t u) :
    numTaken x (d.setSlot (x.base t + i) s) u + (if (d.queue x t i).Takes t u then 1 else 0) =
      numTaken x d u + if s.Takes t u then 1 else 0 := by
  have hchange : numTaken x (d.setSlot (x.base t + i) s) u + (if Taken x d u i then 1 else 0) =
      numTaken x d u + if Taken x (d.setSlot (x.base t + i) s) u i then 1 else 0 := by
    apply count_change hi
    intro j hj hne
    unfold Taken
    refine exists_congr fun v => ?_
    rw [queue_setSlot_of_ne hi hj (.inr hne)]
  have hself : (d.setSlot (x.base t + i) s).queue x t i = s := queue_setSlot_self s
  have hother : ∀ v ≠ t, (d.setSlot (x.base t + i) s).queue x v i = d.queue x v i := fun v hv =>
    queue_setSlot_of_ne hi hi (.inl hv) s
  by_cases hrest : ∃ v ≠ t, (d.queue x v i).Takes v u
  · obtain ⟨v, hv, htakes⟩ := hrest
    obtain ⟨hold, hnew⟩ := halone v hv htakes
    rw [if_neg hold, if_neg hnew]
    rw [if_pos ⟨v, htakes⟩, if_pos ⟨v, (hother v hv).symm ▸ htakes⟩] at hchange
    omega
  · have hiff : ∀ d' : Device, (∀ v ≠ t, d'.queue x v i = d.queue x v i) →
        (Taken x d' u i ↔ (d'.queue x t i).Takes t u) := by
      intro d' hsame
      refine ⟨?_, fun htakes => ⟨t, htakes⟩⟩
      rintro ⟨v, htakes⟩
      by_cases hv : v = t
      · exact hv ▸ htakes
      · rw [hsame v hv] at htakes
        exact absurd ⟨v, hv, htakes⟩ hrest
    have hold := hiff d fun _ _ => rfl
    have hnew := hiff _ hother
    rw [hself] at hnew
    rwa [if_congr hold rfl rfl, if_congr hnew rfl rfl] at hchange

open Classical in
theorem takes_load (huse : s.InUse) (ht : s.conf.qType = t) (u : QType) :
    (if s.Takes t u then 1 else 0) = load s.conf u := by
  have hle := load_le_one s.conf u
  split
  · rename_i htakes
    exact le_antisymm htakes.2.2 hle
  · rename_i hnot
    exact (Nat.eq_zero_of_not_pos fun hload => hnot ⟨huse, ht, hload⟩).symm

/-- A queue is added at a usable index. -/
theorem numTaken_added (hi : i < x.qmax) (huse : s.InUse)
    (husable : isUsableQueue x d i s.conf.qType s.conf.st = true) (u : QType) :
    numTaken x (d.setSlot (x.base s.conf.qType + i) s) u = numTaken x d u + load s.conf u := by
  have hold : ¬ (d.queue x s.conf.qType i).Takes s.conf.qType u := fun htakes =>
    (isUsableQueue_iff.mp husable).1 htakes.1
  have hset := numTaken_setSlot hi s u fun v _ htakes =>
    ⟨hold, fun hnew => not_taken_of_usable husable hnew.2.2 ⟨v, htakes⟩⟩
  rwa [if_neg hold, takes_load huse rfl] at hset

/-- A queue of the array of its type is removed. -/
theorem IndexCompatible.numTaken_removed (h : IndexCompatible x d i) (hi : i < x.qmax)
    (huse : (d.queue x t i).InUse) (ht : (d.queue x t i).conf.qType = t) (u : QType) :
    numTaken x (d.setState (x.base t + i) .disabled) u + load (d.queue x t i).conf u =
      numTaken x d u := by
  have hnew : ¬ Slot.Takes { d.queue x t i with qState := .disabled } t u := fun htakes =>
    htakes.1 rfl
  have hset := numTaken_setSlot (d := d) hi _ u fun v hv htakes =>
    ⟨fun hold => hv (h.takes_unique hold htakes), hnew⟩
  rwa [if_neg hnew, takes_load huse ht] at hset

/-- A queue in the array of another type is entered in no count. -/
theorem numTaken_misplaced (hi : i < x.qmax) (ht : (d.queue x t i).conf.qType ≠ t) (u : QType) :
    numTaken x (d.setState (x.base t + i) .disabled) u = numTaken x d u := by
  have hold : ¬ (d.queue x t i).Takes t u := fun htakes => ht htakes.2.1
  have hnew : ¬ Slot.Takes { d.queue x t i with qState := .disabled } t u := fun htakes =>
    htakes.1 rfl
  have hset := numTaken_setSlot (d := d) hi _ u fun _ _ _ => ⟨hold, hnew⟩
  rwa [if_neg hold, if_neg hnew] at hset

end

section

variable {x : Xdev} {rm : ResourceState} {n m : QType → ℕ} {mail : ℕ → Mail}
  {conf : QdmaQueueConf}

theorem CountsWithin.mono (h : CountsWithin x rm n) (hle : ∀ t, n t ≤ m t) :
    CountsWithin x rm m := by
  obtain ⟨e, hentry, hn⟩ := h
  exact ⟨e, hentry, fun t => (hn t).trans (hle t)⟩

/-- A count of the entry is set. -/
theorem CountsWithin.setActive {e : DevEntry} {rm' : ResourceState} {t : QType} {k : ℕ}
    (hn : ∀ t, e.activeQcnt (devQType t) ≤ n t)
    (hrm : qdmaGetDevEntry rm' x.dmaDeviceIndex x.funcId =
      some (e.setActiveQcnt k (devQType t))) (hk : k ≤ m t) (hm : ∀ u ≠ t, n u ≤ m u) :
    CountsWithin x rm' m := by
  refine ⟨_, hrm, fun u => ?_⟩
  by_cases hu : u = t
  · subst hu
    rw [setActiveQcnt_activeQcnt]
    exact hk
  · rw [setActiveQcnt_activeQcnt_of_ne fun heq => hu (devQType_inj heq)]
    exact (hn u).trans (hm u hu)

theorem notify_state_cases (x : Xdev) (mail : Mail) (call : ResourceState → ℤ × ResourceState)
    (rm : ResourceState) :
    (notify x mail call rm).2 = (call rm).2 ∨
      (notify x mail call rm).1 < 0 ∧ (notify x mail call rm).2 = rm := by
  unfold notify
  split
  · exact .inl rfl
  · cases mail with
    | answered => exact .inl rfl
    | failed code carried =>
      cases carried with
      | false => exact .inr ⟨by dsimp only; omega, rfl⟩
      | true => exact .inl rfl

theorem CountsWithin.addActive (h : CountsWithin x rm n) (mail : Mail) (t : QType) :
    CountsWithin x (addActive x mail t rm).2 (Function.update n t (n t + 1)) := by
  have hgrow : ∀ u, n u ≤ Function.update n t (n t + 1) u := by
    intro u
    by_cases hu : u = t
    · rw [hu, Function.update_self]
      omega
    · rw [Function.update_of_ne hu]
  unfold Lifecycle.addActive
  rcases notify_state_cases x mail (fun rm => qdmaDevIncrementActiveQueue rm x.dmaDeviceIndex
    x.funcId (some (devQType t))) rm with heq | ⟨-, heq⟩
  · rw [heq]
    obtain ⟨e, hentry, hn⟩ := h
    by_cases hroom : u32 (e.activeQcnt (devQType t) + 1) ≤ e.entry.totalQ
    · obtain ⟨-, hrm⟩ := increment_of_room hentry hroom
      refine .setActive hn hrm ?_ fun u _ => hgrow u
      have hcount := hn t
      rw [Function.update_self]
      unfold u32
      omega
    · rw [increment_of_full hentry (Nat.lt_of_not_le hroom)]
      exact CountsWithin.mono ⟨e, hentry, hn⟩ hgrow
  · rw [heq]
    exact h.mono hgrow

/-- A count that is taken back is one less, if the call succeeds. -/
theorem CountsWithin.delActive (h : CountsWithin x rm n) (mail : Mail) (t : QType) :
    CountsWithin x (delActive x mail t rm).2 n ∧
      (¬ (delActive x mail t rm).1 < 0 →
        CountsWithin x (delActive x mail t rm).2 (Function.update n t (n t - 1))) := by
  unfold Lifecycle.delActive
  rcases notify_state_cases x mail (fun rm => qdmaDevDecrementActiveQueue rm x.dmaDeviceIndex
    x.funcId (some (devQType t))) rm with heq | ⟨hneg, heq⟩
  · rw [heq]
    obtain ⟨e, hentry, hn⟩ := h
    obtain ⟨-, hrm⟩ := decrement_of_some (t := devQType t) hentry
    have hcount := hn t
    constructor
    · exact .setActive hn hrm (by omega) fun u _ => le_rfl
    · intro _
      refine .setActive hn hrm ?_ fun u hu => ?_
      · rw [Function.update_self]
        omega
      · rw [Function.update_of_ne hu]
  · rw [heq]
    exact ⟨h, fun hrv => absurd hneg hrv⟩

/-- A queue that is to be added adds to its counts at most what it should. -/
theorem CountsWithin.countAdded (h : CountsWithin x rm n) :
    CountsWithin x (countAdded x mail conf rm).2 fun u => n u + load conf u := by
  have h₁ := h.addActive (mail 0) conf.qType
  unfold Lifecycle.countAdded countQueue
  dsimp only
  generalize hadd : Lifecycle.addActive x (mail 0) conf.qType rm = res at h₁ ⊢
  obtain ⟨rv, rm₁⟩ := res
  dsimp only at h₁ ⊢
  have hfirst : ∀ u, Function.update n conf.qType (n conf.qType + 1) u ≤ n u + load conf u := by
    intro u
    by_cases hu : u = conf.qType
    · rw [hu, Function.update_self, load, if_pos rfl]
      omega
    · rw [Function.update_of_ne hu]
      omega
  split
  · exact h₁.mono hfirst
  · split
    · rename_i hst
      have h₂ := h₁.addActive (mail 1) .cmpt
      rw [update_qType_cmpt hst, load_of_stC2h hst Nat.add_zero] at h₂
      generalize hadd : Lifecycle.addActive x (mail 1) .cmpt rm₁ = res at h₂ ⊢
      obtain ⟨rv₂, rm₂⟩ := res
      dsimp only at h₂ ⊢
      split
      · exact (h₂.delActive (mail 2) conf.qType).1
      · exact h₂
    · exact h₁.mono hfirst

/-- A queue that is removed leaves its counts; if the call fails, they are not larger than
before. -/
theorem CountsWithin.countRemoved (h : CountsWithin x rm n)
    (hpos : conf.stC2h = true → 0 < n conf.qType) :
    ((countRemoved x mail conf rm).1 < 0 → CountsWithin x (countRemoved x mail conf rm).2 n) ∧
      (¬ (countRemoved x mail conf rm).1 < 0 →
        CountsWithin x (countRemoved x mail conf rm).2 fun u => n u - load conf u) := by
  obtain ⟨h₁, h₁'⟩ := h.delActive (mail 0) conf.qType
  unfold Lifecycle.countRemoved countQueue
  dsimp only
  generalize hdel : Lifecycle.delActive x (mail 0) conf.qType rm = res at h₁ h₁' ⊢
  obtain ⟨rv, rm₁⟩ := res
  dsimp only at h₁ h₁' ⊢
  split
  · rename_i hneg
    exact ⟨fun _ => h₁, fun hrv => absurd hneg hrv⟩
  · rename_i hrv
    have hone := h₁' hrv
    split
    · rename_i hst
      obtain ⟨h₂, h₂'⟩ := hone.delActive (mail 1) .cmpt
      generalize hdel₂ : Lifecycle.delActive x (mail 1) .cmpt rm₁ = res at h₂ h₂' ⊢
      obtain ⟨rv₂, rm₂⟩ := res
      dsimp only at h₂ h₂' ⊢
      split
      · rename_i hneg
        -- the first count is entered again
        have h₃ := h₂.addActive (mail 2) conf.qType
        rw [Function.update_self, Function.update_idem, Nat.sub_add_cancel (hpos hst),
          Function.update_eq_self] at h₃
        exact ⟨fun _ => h₃, fun hrv => absurd hneg hrv⟩
      · rename_i hrv₂
        refine ⟨fun hneg => absurd hneg (lt_irrefl 0), fun _ => ?_⟩
        have hboth := h₂' hrv₂
        rwa [update_qType_cmpt hst, load_of_stC2h hst Nat.sub_zero] at hboth
    · rename_i hst
      refine ⟨fun hneg => absurd hneg (lt_irrefl 0), fun _ => ?_⟩
      rwa [load_of_not_stC2h hst Nat.sub_zero] at hone

end

/-! ## Runs -/

/-- The queues of every index go together, those whose place is not in the array of their type are
memory mapped, all are as long as the function has no range, and the counts are at most the
numbers of the indices they stand for. -/
structure ModeInv (x : Xdev) (d : Device) : Prop where
  compatible : ModesCompatible x d
  typed : ∀ t, ∀ i < x.qmax, (d.queue x t i).conf.qType = t ∨ (d.queue x t i).conf.st = false
  unranged : d.initQrange = false → ∀ t, ∀ i < x.qmax, (d.queue x t i).conf.st = false
  counts : CountsWithin x d.rm (numTaken x d)

section

variable {x : Xdev} {grant : Grant} {d d' : Device} {c : ClientConf} {env : AddEnv} {pos qidx : ℕ}
  {u : QType}

open Classical in
theorem numTaken_mono (h : ∀ i < x.qmax, Taken x d u i → Taken x d' u i) :
    numTaken x d u ≤ numTaken x d' u :=
  Nat.count_mono_left h

open Classical in
theorem numTaken_le (x : Xdev) (d : Device) (u : QType) : numTaken x d u ≤ x.qmax :=
  Nat.count_le _

open Classical in
theorem taken_of_full (h : x.qmax ≤ numTaken x d u) : ∀ i < x.qmax, Taken x d u i :=
  Nat.count_iff_forall.mp (le_antisymm (Nat.count_le _) h)

theorem Slot.Stays.load {s s' : Slot} (h : s.Stays s') (u : QType) :
    Lifecycle.load s'.conf u = Lifecycle.load s.conf u := by
  unfold Lifecycle.load QdmaQueueConf.stC2h
  rw [h.qType, h.st]

theorem Slot.Stays.takes {s s' : Slot} (h : s.Stays s') (t u : QType) :
    s'.Takes t u ↔ s.Takes t u := by
  unfold Slot.Takes
  rw [h.inUse, h.qType, h.load]

theorem prepQResource_ranged (h : ¬ PrepFails d env) :
    prepQResource d env = (0, { d with initQrange := true }) := by
  unfold prepQResource
  by_cases hrange : d.initQrange = true
  · rw [if_pos hrange, ← hrange]
  · have hok : ¬ env.prep < 0 := fun hneg => h ⟨Bool.eq_false_of_not_eq_true hrange, hneg⟩
    rw [if_neg hrange, if_neg hok]

/-- A function that has no range has not configured a queue. -/
theorem qdmaQueueAdd_unranged (h : (qdmaQueueAdd x d c env).2.2.initQrange = false) :
    d.initQrange = false ∧
      ∀ p, ((qdmaQueueAdd x d c env).2.2.slots p).conf = (d.slots p).conf := by
  have hstate : ∀ (d : Device) pos st p,
      ((d.setState pos st).slots p).conf = (d.slots p).conf := by
    intro d pos st p
    by_cases hp : p = pos
    · rw [hp, Device.setState, Device.setSlot_self]
      rfl
    · rw [Device.setState, Device.setSlot_of_ne hp]
  unfold qdmaQueueAdd at h ⊢
  split at h
  · rename_i hneg
    rw [if_pos hneg]
    exact ⟨h, fun _ => rfl⟩
  · rename_i hcheck
    rw [if_neg hcheck]
    generalize findSlot x d c = found at h ⊢
    cases found with
    | none => exact ⟨h, fun _ => rfl⟩
    | some place =>
      obtain ⟨pos, qidx⟩ := place
      dsimp only at h ⊢
      unfold addMarked at h ⊢
      by_cases hprep : PrepFails d env
      · rw [prepQResource_of_fails (d := d.setState pos .enabled) hprep] at h ⊢
        dsimp only at h ⊢
        rw [if_pos hprep.2] at h ⊢
        refine ⟨hprep.1, fun p => ?_⟩
        split
        · rw [hstate, hstate]
        · rw [hstate]
      · -- the range is set from here on
        exfalso
        rw [prepQResource_ranged (d := d.setState pos .enabled) hprep] at h
        dsimp only at h
        rw [if_neg (lt_irrefl _)] at h
        split at h
        · cases h
        · unfold addConfigured at h
          dsimp only at h
          split at h <;> cases h

/-- Calls that neither add nor remove queues keep their modes. -/
theorem ModeInv.of_stays (h : ModeInv x d) (hs : ∀ p, (d.slots p).Stays (d'.slots p))
    (hranged : d'.initQrange = d.initQrange)
    (hrm : qdmaGetDevEntry d'.rm x.dmaDeviceIndex x.funcId =
      qdmaGetDevEntry d.rm x.dmaDeviceIndex x.funcId) : ModeInv x d' := by
  have hqueue : ∀ t i, (d.queue x t i).Stays (d'.queue x t i) := fun t i => hs _
  constructor
  · exact fun i hi => (h.compatible i hi).of_stays fun t => hqueue t i
  · intro t i hi
    rw [(hqueue t i).qType, (hqueue t i).st]
    exact h.typed t i hi
  · intro hnone t i hi
    rw [(hqueue t i).st]
    exact h.unranged (hranged ▸ hnone) t i hi
  · obtain ⟨e, hentry, hn⟩ := h.counts
    refine ⟨e, hrm.trans hentry, fun u => (hn u).trans ?_⟩
    apply numTaken_mono
    rintro i - ⟨t, htakes⟩
    exact ⟨t, ((hqueue t i).takes t u).mpr htakes⟩

/-- A queue gets a usable place of its type. -/
theorem ModeInv.setSlot (h : ModeInv x d) (hi : qidx < x.qmax) {s : Slot} (huse : s.InUse)
    (husable : isUsableQueue x d qidx s.conf.qType s.conf.st = true) {rm : ResourceState}
    {ranged : Bool} (hranged : ranged = false → d.initQrange = false ∧ s.conf.st = false)
    (hrm : CountsWithin x rm fun u => numTaken x d u + load s.conf u) :
    ModeInv x { d.setSlot (x.base s.conf.qType + qidx) s with initQrange := ranged, rm := rm } := by
  have hself := queue_setSlot_self (x := x) (d := d) (t := s.conf.qType) (i := qidx) s
  constructor
  · intro j hj
    by_cases hne : j = qidx
    · subst hne
      exact ((h.compatible j hj).setSlot hi husable).of_stays fun t => .refl _
    · refine (h.compatible j hj).of_stays fun t => ?_
      rw [← queue_setSlot_of_ne (d := d) hi hj (.inr hne) s]
      exact .refl _
  · intro t j hj
    change ((d.setSlot _ s).queue x t j).conf.qType = t ∨
      ((d.setSlot _ s).queue x t j).conf.st = false
    by_cases hat : t = s.conf.qType ∧ j = qidx
    · rw [hat.1, hat.2, hself]
      exact .inl rfl
    · rw [queue_setSlot_of_ne hi hj (not_and_or.mp hat) s]
      exact h.typed t j hj
  · intro hnone t j hj
    obtain ⟨hnone, hst⟩ := hranged hnone
    change ((d.setSlot _ s).queue x t j).conf.st = false
    by_cases hat : t = s.conf.qType ∧ j = qidx
    · rw [hat.1, hat.2, hself]
      exact hst
    · rw [queue_setSlot_of_ne hi hj (not_and_or.mp hat) s]
      exact h.unranged hnone t j hj
  · refine hrm.mono fun u => ?_
    rw [← numTaken_added hi huse husable]
    exact le_rfl

/-- A slot is marked, while the function has no range. -/
theorem ModeInv.mark (h : ModeInv x d) (hi : qidx < x.qmax) (t : QType)
    (hfree : ¬ (d.queue x t qidx).InUse) (hranged : d.initQrange = false) :
    ModeInv x (d.setState (x.base t + qidx) .enabled) := by
  have hconf : ∀ u, ∀ j < x.qmax, ((d.setState (x.base t + qidx) .enabled).queue x u j).conf =
      (d.queue x u j).conf := by
    intro u j hj
    by_cases hat : u = t ∧ j = qidx
    · rw [hat.1, hat.2, Device.setState, queue_setSlot_self]
      rfl
    · rw [Device.setState, queue_setSlot_of_ne hi hj (not_and_or.mp hat)]
  have hmm := h.unranged hranged
  constructor
  · intro j hj
    apply indexCompatible_of_mm
    intro u
    rw [hconf u j hj]
    exact hmm u j hj
  · intro u j hj
    rw [hconf u j hj]
    exact h.typed u j hj
  · intro _ u j hj
    rw [hconf u j hj]
    exact hmm u j hj
  · refine h.counts.mono fun u => numTaken_mono ?_
    rintro j hj ⟨v, htakes⟩
    refine ⟨v, ?_⟩
    have hne : v ≠ t ∨ j ≠ qidx := by
      by_contra hsame
      obtain ⟨rfl, rfl⟩ := not_or.mp hsame |>.imp not_not.mp not_not.mp
      exact hfree htakes.1
    rw [Device.setState, queue_setSlot_of_ne hi hj hne]
    exact htakes

/-- An addition that takes the index it chooses keeps the queues of each index together. -/
theorem ModeInv.add (h : ModeInv x d) (hdirect : ¬ addCheck x d c env < 0 → Direct x d c) :
    ModeInv x (qdmaQueueAdd x d c env).2.2 := by
  have hunranged := @qdmaQueueAdd_unranged x d c env
  have hadd := qdmaQueueAdd_result x d c env
  have hplace : ∀ {pos qidx}, Reserved x d c env pos qidx → qidx < x.qmax ∧
      pos = x.base c.conf.qType + qidx ∧
        isUsableQueue x d qidx c.conf.qType c.conf.st = true := by
    intro pos qidx hslot
    obtain ⟨hlt, husable⟩ := hslot.usable
    exact ⟨hlt, hslot.spec.2.2.2.mp (hdirect hslot.check), husable⟩
  generalize qdmaQueueAdd x d c env = res at hadd hunranged ⊢
  cases hadd with
  | refused hneg => exact h
  | @unwound rv pos qidx ranged hslot hneg =>
    obtain ⟨-, rfl, husable⟩ := hplace hslot
    have hoff := isUsableQueue_disabled husable
    have hsame : d.setState (x.base c.conf.qType + qidx) .disabled = d := setState_disabled hoff
    dsimp only at hunranged ⊢
    rw [hsame] at hunranged ⊢
    exact ⟨fun j hj => (h.compatible j hj).of_stays fun t => .refl _, h.typed,
      fun hnone => h.unranged (hunranged hnone).1, h.counts⟩
  | @marked pos qidx hslot hpf hprep =>
    obtain ⟨hlt, rfl, husable⟩ := hplace hslot
    exact h.mark hlt _ (isUsableQueue_iff.mp husable).1 hprep.1
  | @uncounted rv pos qidx ranged rm hslot hprep hlegacy hcount hneg =>
    obtain ⟨hlt, rfl, husable⟩ := hplace hslot
    have hrm := @CountsWithin.countAdded _ _ _ env.mail c.conf h.counts
    rw [hcount] at hrm
    refine ModeInv.setSlot (s := d.configured c _ qidx) h hlt nofun husable ?_ hrm
    intro hnone
    obtain ⟨hnone, hconf⟩ := hunranged hnone
    refine ⟨hnone, ?_⟩
    have hst := h.unranged hnone c.conf.qType qidx hlt
    unfold Device.queue at hst
    rw [← hconf] at hst
    dsimp only at hst
    rwa [Device.setSlot_self] at hst
  | @added rv pos qidx ranged rm hslot hprep hlegacy hcount hrv =>
    obtain ⟨hlt, rfl, husable⟩ := hplace hslot
    have hrm := @CountsWithin.countAdded _ _ _ env.mail c.conf h.counts
    rw [hcount] at hrm
    refine ModeInv.setSlot (s := { d.configured c _ qidx with qHndl := _ }) h hlt nofun husable ?_
      hrm
    intro hnone
    obtain ⟨hnone, hconf⟩ := hunranged hnone
    refine ⟨hnone, ?_⟩
    have hst := h.unranged hnone c.conf.qType qidx hlt
    unfold Device.queue at hst
    rw [← hconf] at hst
    dsimp only at hst
    rwa [Device.setSlot_self] at hst

/-- Fewer queues of an index go together as well. -/
theorem IndexCompatible.of_fewer {i : ℕ} (h : IndexCompatible x d i)
    (hs : ∀ t, (d'.queue x t i).InUse → d'.queue x t i = d.queue x t i) :
    IndexCompatible x d' i := by
  constructor
  · intro hh2c hc2h
    rw [hs .h2c hh2c, hs .c2h hc2h]
    exact h.sameMode (hs .h2c hh2c ▸ hh2c) (hs .c2h hc2h ▸ hc2h)
  · intro hcmpt
    obtain ⟨hh2c, hc2h⟩ := h.noStreaming (hs .cmpt hcmpt ▸ hcmpt)
    exact ⟨fun hst => hh2c (hs .h2c hst.1 ▸ hst), fun hst => hc2h (hs .c2h hst.1 ▸ hst)⟩

/-- A queue is taken out, and leaves its counts. -/
theorem ModeInv.disable (h : ModeInv x d) {t : QType} {i : ℕ} (hi : i < x.qmax)
    {rm : ResourceState}
    (hrm : CountsWithin x rm fun u => numTaken x d u - load (d.queue x t i).conf u)
    (huse : (d.queue x t i).InUse) :
    ModeInv x ({ d with rm := rm }.setState (x.base t + i) .disabled) := by
  have hqueue : ∀ u, ∀ j < x.qmax,
      ({ d with rm := rm }.setState (x.base t + i) .disabled).queue x u j =
        if u = t ∧ j = i then { d.queue x t i with qState := .disabled } else d.queue x u j := by
    intro u j hj
    split
    · rename_i hat
      rw [hat.1, hat.2, Device.setState, queue_setSlot_self]
      rfl
    · rename_i hat
      rw [Device.setState, queue_setSlot_of_ne hi hj (not_and_or.mp hat)]
      rfl
  have hconf : ∀ u, ∀ j < x.qmax,
      (({ d with rm := rm }.setState (x.base t + i) .disabled).queue x u j).conf =
        (d.queue x u j).conf := by
    intro u j hj
    rw [hqueue u j hj]
    split
    · rename_i hat
      rw [hat.1, hat.2]
      rfl
    · rfl
  constructor
  · intro j hj
    refine (h.compatible j hj).of_fewer fun u huse' => ?_
    rw [hqueue u j hj] at huse' ⊢
    split at huse'
    · exact absurd rfl huse'
    · rename_i hat
      exact if_neg hat
  · intro u j hj
    rw [hconf u j hj]
    exact h.typed u j hj
  · intro hnone u j hj
    rw [hconf u j hj]
    exact h.unranged hnone u j hj
  · refine hrm.mono fun u => ?_
    change numTaken x d u - _ ≤ numTaken x (d.setState (x.base t + i) .disabled) u
    by_cases ht : (d.queue x t i).conf.qType = t
    · rw [← (h.compatible i hi).numTaken_removed hi huse ht u]
      omega
    · rw [numTaken_misplaced hi ht]
      omega

/-- A removal leaves the other queues of the index together. -/
theorem ModeInv.remove (h : ModeInv x d) (id : ℕ) (mail : ℕ → Mail) :
    ModeInv x (qdmaQueueRemove x d id mail).2 := by
  unfold qdmaQueueRemove
  split
  · exact h
  · rename_i pos hpos
    obtain ⟨rfl, hlt, -⟩ := getDescqById_some hpos
    split
    · exact h
    · rename_i hen
      obtain ⟨t, i, hi, rfl⟩ := base_split hlt
      have huse : (d.queue x t i).InUse := by
        unfold Slot.InUse Device.queue
        rw [Decidable.not_not.mp hen]
        exact nofun
      have hpos : (d.queue x t i).conf.stC2h = true →
          0 < numTaken x d (d.queue x t i).conf.qType := by
        intro hst
        have ht : (d.queue x t i).conf.qType = t := by
          rcases h.typed t i hi with ht | hmm
          · exact ht
          · unfold QdmaQueueConf.stC2h at hst
            rw [hmm] at hst
            cases hst
        rw [← (h.compatible i hi).numTaken_removed hi huse ht, load, if_pos rfl]
        omega
      have hcounts := @CountsWithin.countRemoved _ _ _ mail _ h.counts hpos
      unfold countRemoved at hcounts
      unfold Device.queue at hcounts
      dsimp only
      generalize countQueue (fun t m => delActive x m t) (fun t m => addActive x m t) mail
        (d.slots (x.base t + i)).conf d.rm = res at hcounts ⊢
      obtain ⟨rv, rm⟩ := res
      dsimp only at hcounts ⊢
      split
      · rename_i hneg
        exact ⟨fun j hj => (h.compatible j hj).of_stays fun t => .refl _, h.typed, h.unranged,
          hcounts.1 hneg⟩
      · rename_i hrv
        exact h.disable hi (hcounts.2 hrv) huse

/-- Every call keeps the queues of each index together, if the library chooses no index other
than 0. -/
theorem ModeInv.step (h : ModeInv x d) (grant : Grant) (e : DeviceEvent) (hkept : RestKept x d e)
    (hdirect : ChoiceDirect x d e) : ModeInv x (deviceStep x grant d e) := by
  have hrm : qdmaGetDevEntry d.rm x.dmaDeviceIndex x.funcId =
      qdmaGetDevEntry d.rm x.dmaDeviceIndex x.funcId := rfl
  cases e with
  | add c env => exact h.add hdirect
  | remove id mail => exact h.remove id mail
  | config id c =>
    refine h.of_stays (qdmaQueueConfig_stays x d id c) ?_ (.trans ?_ hrm)
    all_goals
      unfold deviceStep qdmaQueueConfig
      dsimp only
      split <;> rfl
  | start id ctxt =>
    refine h.of_stays (qdmaQueueStart_stays x grant d id ctxt) ?_ (.trans ?_ hrm)
    all_goals
      unfold deviceStep qdmaQueueStart
      dsimp only
      split <;> rfl
  | stop id =>
    refine h.of_stays (qdmaQueueStop_stays x d id) ?_ (.trans ?_ hrm)
    all_goals
      unfold deviceStep qdmaQueueStop
      dsimp only
      split <;> rfl
  | others rm => exact h.of_stays (fun p => .refl _) rfl hkept

/-- A new device has no queues. -/
theorem ModeInv.init (x : Xdev) (rm : ResourceState) (other : ℕ → Slot) {e : DevEntry}
    (hentry : qdmaGetDevEntry rm x.dmaDeviceIndex x.funcId = some e)
    (hzero : ∀ t, e.activeQcnt t = 0) : ModeInv x (qdmaDeviceInit x rm other) := by
  have hst : ∀ t, ∀ i < x.qmax, ((qdmaDeviceInit x rm other).queue x t i).conf.st = false := by
    intro t i hi
    unfold qdmaDeviceInit Device.queue
    dsimp only
    rw [if_pos (base_add_lt hi)]
    rfl
  constructor
  · exact fun i hi => indexCompatible_of_mm fun t => hst t i hi
  · exact fun t i hi => .inr (hst t i hi)
  · exact fun _ => hst
  · refine ⟨e, hentry, fun t => ?_⟩
    rw [hzero]
    exact Nat.zero_le _

theorem activeQueueCount_of_entry {rm : ResourceState} {e : DevEntry} {t : DevQType}
    (hentry : qdmaGetDevEntry rm x.dmaDeviceIndex x.funcId = some e) :
    qdmaGetDeviceActiveQueueCount rm x.dmaDeviceIndex x.funcId t = s32 (e.activeQcnt t) := by
  obtain ⟨m, hm, hd⟩ := qdmaGetDevEntry_eq_some hentry
  unfold qdmaGetDeviceActiveQueueCount
  rw [hm]
  dsimp only
  rw [hd]

/-- The queues that are counted fill their indices. -/
theorem ModeInv.lackJustified (h : ModeInv x d) (e : DeviceEvent) (hkept : RestKept x d e) :
    LackJustified x d e := by
  cases e with
  | add c env =>
    intro hauto hlack i hi hfree
    have husable := isUsableQueue_of_free hi hfree
    rcases hlack with hcheck | ⟨-, hnone⟩
    · have hfull : x.qmax ≤ activeQcnt x env.told c.conf.qType d.rm := by
        unfold addCheck at hcheck
        split_ifs at hcheck with _ _ hge
        · cases hcheck
        · cases hcheck
        · exact hge
        · cases hcheck
      obtain ⟨e, hentry, hn⟩ := h.counts
      have hle := hn c.conf.qType
      have hqmax := x.qmax_lt
      have hbound := numTaken_le x d c.conf.qType
      have hcount : u32 (qdmaGetDeviceActiveQueueCount d.rm x.dmaDeviceIndex x.funcId
          (devQType c.conf.qType)) = e.activeQcnt (devQType c.conf.qType) := by
        rw [activeQueueCount_of_entry hentry, s32_of_lt (by omega) (by omega)]
        exact u32_natCast (by omega)
      have hall : x.qmax ≤ e.activeQcnt (devQType c.conf.qType) := by
        unfold activeQcnt at hfull
        split at hfull
        · rename_i hvf
          rcases hkept hvf c.conf.qType with htold | htold
          · omega
          · rwa [htold, hcount] at hfull
        · rwa [hcount] at hfull
      refine not_taken_of_usable husable ?_ (taken_of_full (hall.trans hle) i hi)
      rw [load, if_pos rfl]
      omega
    · unfold findSlot at hnone
      rw [if_pos hauto, Option.map_eq_none_iff] at hnone
      unfold firstUsable at hnone
      have hno := List.find?_eq_none.mp hnone i (List.mem_range.mpr hi)
      exact hno husable
  | remove id mail => trivial
  | config id c => trivial
  | start id ctxt => trivial
  | stop id => trivial
  | others rm => trivial

end

/-- After any calls on a new device in which the library chooses no index other than 0, the queues
of every index go together; and throughout, the library finds no index only if there is none. -/
theorem queueRun_modesCompatible (x : Xdev) (grant : Grant) {rm : ResourceState}
    (other : ℕ → Slot) {e : DevEntry}
    (hentry : qdmaGetDevEntry rm x.dmaDeviceIndex x.funcId = some e)
    (hzero : ∀ t, e.activeQcnt t = 0) (es : List DeviceEvent)
    (hkept : Admitted (deviceStep x grant) (RestKept x) (qdmaDeviceInit x rm other) es)
    (hdirect : Admitted (deviceStep x grant) (ChoiceDirect x) (qdmaDeviceInit x rm other) es) :
    Always (deviceStep x grant) (ModesCompatible x) (qdmaDeviceInit x rm other) es ∧
      Admitted (deviceStep x grant) (LackJustified x) (qdmaDeviceInit x rm other) es := by
  have hinit := ModeInv.init x rm other hentry hzero
  constructor
  · refine hkept.always (fun d h => h.compatible) ?_ hinit hdirect
    exact fun d e h hkept hdirect => h.step grant e hkept hdirect
  · refine (hkept.and hdirect).steps ?_ ?_ hinit
    · exact fun d e h hok => h.step grant e hok.1 hok.2
    · exact fun d e h hok => h.lackJustified e hok.1

/-- A streaming queue pair of index 1, of which the C2H queue lives and dies; the library chooses
index 0 for another C2H queue, and finds no place for a memory mapped queue at index 1. -/
def modesRun : List DeviceEvent :=
  [.add { conf := { st := true }, qidx := 1 } {}, .add { c2hConf with qidx := 1 } {},
    .add (autoConf .c2h) {}, .start 5 0, .add { conf := {}, qidx := 1 } {}, .stop 5,
    .remove 5 fun _ => .answered]

theorem modesRun_modesCompatible :
    Always (deviceStep pollingPf fun _ => true) (ModesCompatible pollingPf) newDevice modesRun ∧
      Admitted (deviceStep pollingPf fun _ => true) (LackJustified pollingPf) newDevice
        modesRun := by
  have hpf : ∀ {p : Prop}, pollingPf.isVf = true → p := fun hvf => absurd hvf (by decide)
  have hnamed : ∀ {d : Device} {c : ClientConf}, c.qidx ≠ QDMA_QUEUE_IDX_INVALID →
      Direct pollingPf d c := fun hne hauto => absurd hauto hne
  apply queueRun_modesCompatible pollingPf (fun _ => true) (fun _ => newSlot)
    (e := { funcId := 0, entry := { qbase := 0, totalQ := 4 } }) (by decide +kernel)
    (fun t => by cases t <;> rfl)
  · exact ⟨hpf, hpf, hpf, trivial, hpf, trivial, trivial, trivial⟩
  · refine ⟨fun _ => hnamed (by decide), fun _ => hnamed (by decide), ?_, trivial,
      fun _ => hnamed (by decide), trivial, trivial, trivial⟩
    intro _ _ i hi
    have hzero : firstUsable pollingPf (run (deviceStep pollingPf fun _ => true) newDevice
        [.add { conf := { st := true }, qidx := 1 } {}, .add { c2hConf with qidx := 1 } {}])
        (autoConf .c2h).conf = some 0 := by decide +kernel
    exact Option.some.inj (hi.symm.trans hzero)

/-- With index 0 in use the library chooses index 1 for a streaming queue, and marks the slot of
index 2, beside a memory mapped queue. -/
theorem chosenRun_not_modesCompatible : ¬ ∀ es,
    Admitted (deviceStep pollingPf fun _ => true) (RestKept pollingPf) newDevice es →
    Always (deviceStep pollingPf fun _ => true) (ModesCompatible pollingPf) newDevice es := by
  intro h
  have hpf : ∀ {p : Prop}, pollingPf.isVf = true → p := fun hvf => absurd hvf (by decide)
  have hmodes := (h [.add { conf := { qType := .c2h }, qidx := 2 } {}, .add (autoConf .h2c) {},
    .add { conf := { st := true }, qidx := QDMA_QUEUE_IDX_INVALID } {}]
    ⟨hpf, hpf, hpf, trivial⟩).final 2 (by decide)
  have hsame := hmodes.sameMode
  revert hsame
  unfold Slot.InUse
  decide +kernel

end OnicDriver.Lifecycle
