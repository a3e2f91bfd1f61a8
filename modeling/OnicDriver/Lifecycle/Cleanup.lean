import OnicDriver.Lifecycle.Counts
import OnicDriver.Lifecycle.DeviceMemory

/-!
# Tearing a device down

Before the queues of a device are freed, `qdma_device_cleanup` stops and
removes those of the H2C and C2H arrays. The completion queues are left as they
are.
-/

namespace OnicDriver.Lifecycle

open Lib Access Queue Setup Resource
open scoped BigOperators

/-- What the hardware and the PF answer during a clean-up: the result of clearing the contexts of
the queue at a place, and the answers to the notifications about it. -/
structure CleanupEnv where
  clear : ℕ → ℤ := fun _ => 0
  mail : ℕ → ℕ → Mail := fun _ _ => .answered

/-- A device, and whether the contexts of the queue at a place are valid. -/
structure Teardown where
  dev : Device
  ctxt : ℕ → Bool

/-- A queue that is online is stopped, and its contexts are cleared. -/
def stopOnline (x : Xdev) (env : CleanupEnv) (st : Teardown) (id : ℕ) : Teardown :=
  if (st.dev.slots id).qState = .online then
    { dev := (qdmaQueueStop x st.dev id).2
      ctxt := if env.clear id < 0 then st.ctxt else Function.update st.ctxt id false }
  else st

/-- A queue that is added is removed. -/
def removeEnabled (x : Xdev) (env : CleanupEnv) (st : Teardown) (id : ℕ) : Teardown :=
  if (st.dev.slots id).qState = .enabled then
    { st with dev := (qdmaQueueRemove x st.dev id (env.mail id)).2 }
  else st

/-- The notifications of a VF about the removal of a queue are answered. -/
def Answered (x : Xdev) (mail : ℕ → Mail) (conf : QdmaQueueConf) : Prop :=
  x.isVf = true → mail 0 = .answered ∧ (conf.stC2h = true → mail 1 = .answered)

section

variable {x : Xdev} {env : CleanupEnv} {d : Device} {st st₀ : Teardown}

/-- The first `n` queues have been stopped. -/
structure Stopping (x : Xdev) (env : CleanupEnv) (st₀ : Teardown) (n : ℕ) (st : Teardown) :
    Prop where
  mem : MemInv x st.dev
  count : CountInv x st.dev
  stays : ∀ p, (st₀.dev.slots p).Stays (st.dev.slots p)
  later : ∀ p ≥ n, st.dev.slots p = st₀.dev.slots p
  off : ∀ p < n, (st.dev.slots p).qState ≠ .online
  ctxt : ∀ p, st.ctxt p = true ↔ st₀.ctxt p = true ∧
    ¬ (p < n ∧ (st₀.dev.slots p).qState = .online ∧ ¬ env.clear p < 0)

theorem qdmaQueueStop_online {id : ℕ} (hid : id < 3 * x.qmax)
    (hon : (d.slots id).qState = .online) :
    qdmaQueueStop x d id =
      (((d.slots id).stop d.mem).1,
        { d.setSlot id ((d.slots id).stop d.mem).2.1 with
          mem := ((d.slots id).stop d.mem).2.2 }) := by
  unfold qdmaQueueStop
  rw [getDescqById_eq, if_pos]
  refine ⟨hid, fun _ => ?_⟩
  rw [hon]
  exact nofun

theorem stop_not_online (s : Slot) (mem : Memory) : (s.stop mem).2.1.qState ≠ .online := by
  unfold Slot.stop
  split
  · assumption
  · rw [(qdmaDescqFreeResource_sameQueue { s with qState := .enabled } mem).qState]
    exact nofun

theorem Stopping.step {n : ℕ} (hn : n < 2 * x.qmax) (h : Stopping x env st₀ n st) :
    Stopping x env st₀ (n + 1) (stopOnline x env st n) := by
  unfold stopOnline
  split
  · rename_i hon
    have hstop := qdmaQueueStop_online (d := st.dev) (by omega : n < 3 * x.qmax) hon
    have hother : ∀ p ≠ n, (qdmaQueueStop x st.dev n).2.slots p = st.dev.slots p := by
      intro p hp
      rw [hstop]
      exact Function.update_of_ne hp _ _
    constructor
    · exact h.mem.stop n
    · exact h.count.step (fun _ => true) (.stop n) trivial
    · exact fun p => (h.stays p).trans (qdmaQueueStop_stays x st.dev n p)
    · intro p hp
      exact (hother p (by omega)).trans (h.later p (by omega))
    · intro p hp
      dsimp only
      rcases Nat.lt_succ_iff_lt_or_eq.mp hp with hlt | rfl
      · rw [hother p (by omega)]
        exact h.off p hlt
      · rw [hstop]
        dsimp only
        rw [Device.setSlot_self]
        exact stop_not_online _ _
    · intro p
      have hold := h.ctxt p
      have hon₀ : (st₀.dev.slots n).qState = .online := by
        rw [← h.later n (le_refl n)]
        exact hon
      dsimp only
      by_cases hp : p = n
      · subst hp
        split
        · rename_i hclear
          rw [hold]
          exact and_congr_right fun _ => iff_of_true (by omega) fun hall => hall.2.2 hclear
        · rename_i hclear
          rw [Function.update_self]
          exact iff_of_false Bool.false_ne_true fun hall => hall.2 ⟨Nat.lt_succ_self p, hon₀, hclear⟩
      · have hlt : p < n + 1 ↔ p < n := by omega
        rw [hlt, ← hold]
        split
        · rfl
        · rw [Function.update_of_ne hp]
  · rename_i hoff
    refine ⟨h.mem, h.count, h.stays, fun p hp => h.later p (by omega), ?_, ?_⟩
    · intro p hp
      rcases Nat.lt_succ_iff_lt_or_eq.mp hp with hlt | rfl
      · exact h.off p hlt
      · exact hoff
    · intro p
      rw [h.ctxt p]
      refine and_congr_right fun _ => not_congr (and_congr_left fun hall => ?_)
      have hne : p ≠ n := by
        rintro rfl
        rw [h.later p (le_refl p)] at hoff
        exact hoff hall.1
      omega

/-! ## Removing -/

/-- The resource manager knows the function. -/
def HasEntry (x : Xdev) (rm : ResourceState) : Prop := ∃ q n, Counted x rm q n

theorem CountInv.hasEntry (h : CountInv x d) : HasEntry x d.rm := by
  obtain ⟨q, hcounted, -⟩ := h.counted
  exact ⟨q, _, hcounted⟩

section

variable {rm : ResourceState} {mail : ℕ → Mail} {conf : QdmaQueueConf} {t : QType} {m : Mail}

theorem notify_hasEntry {call : ResourceState → ℤ × ResourceState} (h : HasEntry x rm)
    (hcall : HasEntry x (call rm).2) : HasEntry x (notify x m call rm).2 := by
  unfold notify
  split
  · exact hcall
  · cases m with
    | answered => exact hcall
    | failed code carried => cases carried <;> assumption

theorem delActive_hasEntry (h : HasEntry x rm) : HasEntry x (delActive x m t rm).2 := by
  refine notify_hasEntry h ?_
  obtain ⟨q, n, hcounted⟩ := h
  exact ⟨q, _, (hcounted.decrement t).2⟩

theorem addActive_hasEntry (h : HasEntry x rm) : HasEntry x (addActive x m t rm).2 := by
  refine notify_hasEntry h ?_
  obtain ⟨q, n, e, hentry, hq, hn⟩ := h
  by_cases hroom : u32 (e.activeQcnt (devQType t) + 1) ≤ e.entry.totalQ
  · exact ⟨q, _, .setActive e hq hn (increment_of_room hentry hroom).2⟩
  · rw [increment_of_full hentry (by omega)]
    exact ⟨q, n, e, hentry, hq, hn⟩

/-- Of a known function a queue is taken from the count if the call gets an answer. -/
theorem delActive_neg_iff (h : HasEntry x rm) :
    (delActive x m t rm).1 < 0 ↔ ¬ (x.isVf = true → m = .answered) := by
  obtain ⟨q, n, hcounted⟩ := h
  by_cases hanswer : x.isVf = true → m = .answered
  · obtain ⟨rm', hdel, -⟩ := hcounted.delActive hanswer t
    rw [hdel]
    exact iff_of_false (lt_irrefl _) (not_not.mpr hanswer)
  · refine iff_of_true ?_ hanswer
    obtain ⟨hvf, hne⟩ := Classical.not_imp.mp hanswer
    unfold delActive notify
    rw [if_neg (by rw [hvf]; exact Bool.true_eq_false_eq_False)]
    cases m with
    | answered => exact absurd rfl hne
    | failed code carried =>
      dsimp only
      omega

/-- Of a known function a queue is taken from its counts if every notification is answered. -/
theorem countRemoved_result (mail : ℕ → Mail) (conf : QdmaQueueConf) (h : HasEntry x rm) :
    HasEntry x (countRemoved x mail conf rm).2 ∧
      ((countRemoved x mail conf rm).1 < 0 ↔ ¬ Answered x mail conf) := by
  have hfirst := delActive_neg_iff (m := mail 0) (t := conf.qType) h
  have h₁ := delActive_hasEntry (m := mail 0) (t := conf.qType) h
  unfold countRemoved countQueue Answered
  dsimp only
  generalize delActive x (mail 0) conf.qType rm = res at hfirst h₁ ⊢
  obtain ⟨rv, rm₁⟩ := res
  dsimp only at hfirst h₁ ⊢
  split
  · rename_i hneg
    exact ⟨h₁, iff_of_true hneg fun hall => hfirst.mp hneg fun hvf => (hall hvf).1⟩
  · rename_i hrv
    have hanswer := not_not.mp (mt hfirst.mpr hrv)
    split
    · rename_i hst
      have hsecond := delActive_neg_iff (m := mail 1) (t := .cmpt) h₁
      have h₂ := delActive_hasEntry (m := mail 1) (t := .cmpt) h₁
      generalize delActive x (mail 1) .cmpt rm₁ = res at hsecond h₂ ⊢
      obtain ⟨rv₂, rm₂⟩ := res
      dsimp only at hsecond h₂ ⊢
      split
      · rename_i hneg
        exact ⟨addActive_hasEntry h₂,
          iff_of_true hneg fun hall => hsecond.mp hneg fun hvf => (hall hvf).2 hst⟩
      · rename_i hrv₂
        have hanswer₂ := not_not.mp (mt hsecond.mpr hrv₂)
        exact ⟨h₂, iff_of_false (lt_irrefl _)
          (not_not.mpr fun hvf => ⟨hanswer hvf, fun _ => hanswer₂ hvf⟩)⟩
    · rename_i hst
      exact ⟨h₁, iff_of_false (lt_irrefl _)
        (not_not.mpr fun hvf => ⟨hanswer hvf, fun hst' => absurd hst' hst⟩)⟩

end

/-- A queue is freed if the notifications about it are answered, and stays added if not. -/
theorem qdmaQueueRemove_enabled {id : ℕ} (mail : ℕ → Mail) (hentry : HasEntry x d.rm)
    (hid : id < 3 * x.qmax) (hen : (d.slots id).qState = .enabled) :
    HasEntry x (qdmaQueueRemove x d id mail).2.rm ∧
      (Answered x mail (d.slots id).conf ∧ (qdmaQueueRemove x d id mail).2.slots =
          Function.update d.slots id { d.slots id with qState := .disabled } ∨
        ¬ Answered x mail (d.slots id).conf ∧
          (qdmaQueueRemove x d id mail).2.slots = d.slots) := by
  obtain ⟨hentry', hneg⟩ := countRemoved_result mail (d.slots id).conf hentry
  have hfound : qdmaDeviceGetDescqById x d id true = some id := by
    rw [getDescqById_eq, if_pos]
    refine ⟨hid, fun _ => ?_⟩
    rw [hen]
    exact nofun
  unfold countRemoved at hentry' hneg
  unfold qdmaQueueRemove
  rw [hfound]
  dsimp only
  rw [if_neg (not_not.mpr hen)]
  split
  · rename_i hrv
    exact ⟨hentry', .inr ⟨hneg.mp hrv, rfl⟩⟩
  · rename_i hrv
    exact ⟨hentry', .inl ⟨not_not.mp (mt hneg.mpr hrv), rfl⟩⟩

/-- The first `n` queues have been removed, as far as a VF was answered. -/
structure Removing (x : Xdev) (env : CleanupEnv) (st₁ : Teardown) (n : ℕ) (st : Teardown) :
    Prop where
  mem : MemInv x st.dev
  entry : HasEntry x st.dev.rm
  ctxt : st.ctxt = st₁.ctxt
  later : ∀ p ≥ n, st.dev.slots p = st₁.dev.slots p
  off : ∀ p < n, (st.dev.slots p).qState = .disabled ↔
    ((st₁.dev.slots p).qState ≠ .disabled → Answered x (env.mail p) (st₁.dev.slots p).conf)
  count : (∀ p < n, (st₁.dev.slots p).qState ≠ .disabled →
    Answered x (env.mail p) (st₁.dev.slots p).conf) → CountInv x st.dev

theorem Answered.mailKept {mail : ℕ → Mail} {conf : QdmaQueueConf} (h : Answered x mail conf)
    (hvf : x.isVf = true) : MailKept mail conf := by
  obtain ⟨hfirst, hsecond⟩ := h hvf
  exact ⟨fun _ => hfirst, fun hst _ _ => hsecond hst, fun hst _ hne => absurd (hsecond hst) hne⟩

theorem Removing.step {st₁ : Teardown} {n : ℕ} (hn : n < 2 * x.qmax)
    (hoff : (st₁.dev.slots n).qState ≠ .online) (h : Removing x env st₁ n st) :
    Removing x env st₁ (n + 1) (removeEnabled x env st n) := by
  have hsame := h.later n (le_refl n)
  unfold removeEnabled
  split
  · rename_i hen
    obtain ⟨hentry, hslots⟩ := qdmaQueueRemove_enabled (env.mail n) h.entry
      (by omega : n < 3 * x.qmax) hen
    have hother : ∀ p ≠ n, (qdmaQueueRemove x st.dev n (env.mail n)).2.slots p =
        st.dev.slots p := by
      intro p hp
      rcases hslots with ⟨-, hslots⟩ | ⟨-, hslots⟩
      · rw [hslots, Function.update_of_ne hp]
      · rw [hslots]
    have hon₁ : (st₁.dev.slots n).qState ≠ .disabled := by
      rw [← hsame, hen]
      exact nofun
    refine ⟨h.mem.remove n _, hentry, h.ctxt, ?_, ?_, ?_⟩
    · exact fun p hp => (hother p (by omega)).trans (h.later p (by omega))
    · intro p hp
      dsimp only
      rcases Nat.lt_succ_iff_lt_or_eq.mp hp with hlt | rfl
      · rw [hother p (by omega)]
        exact h.off p hlt
      · rw [← hsame] at hon₁ ⊢
        rcases hslots with ⟨hanswer, hslots⟩ | ⟨hanswer, hslots⟩
        · rw [hslots, Function.update_self]
          exact iff_of_true rfl fun _ => hanswer
        · rw [hslots]
          exact iff_of_false hon₁ fun himp => hanswer (himp hon₁)
    · intro hall
      have hanswer := hall n (Nat.lt_succ_self n) hon₁
      rw [← hsame] at hanswer
      exact (h.count fun p hp => hall p (by omega)).remove n _ fun _ _ hvf => hanswer.mailKept hvf
  · rename_i hen
    have hfree : (st₁.dev.slots n).qState = .disabled := by
      rw [hsame] at hen
      cases hstate : (st₁.dev.slots n).qState with
      | disabled => rfl
      | enabled => exact absurd hstate hen
      | online => exact absurd hstate hoff
    refine ⟨h.mem, h.entry, h.ctxt, fun p hp => h.later p (by omega), ?_, ?_⟩
    · intro p hp
      rcases Nat.lt_succ_iff_lt_or_eq.mp hp with hlt | rfl
      · exact h.off p hlt
      · rw [hsame]
        exact iff_of_true hfree fun hne => absurd hfree hne
    · exact fun hall => h.count fun p hp => hall p (by omega)

/-! ## The whole clean-up -/

end

/-! ## Runs -/

/-- The calls that keep the counts and the memory in order. -/
def Sound (x : Xdev) (grant : Grant) (d : Device) (e : DeviceEvent) : Prop :=
  CallSafe x d e ∧ Orderly x grant d e

section

variable {x : Xdev} {grant : Grant} {d : Device}

theorem MemInv.step (h : MemInv x d) (hx : TablesOk x.csrInfo) (e : DeviceEvent)
    (hsound : Sound x grant d e) : MemInv x (deviceStep x grant d e) := by
  obtain ⟨hsafe, horderly⟩ := hsound
  cases e with
  | add c env =>
    apply h.add
    intro pos qidx hslot
    obtain ⟨⟨k, hk, rfl⟩, hoff⟩ := (hsafe ⟨pos, qidx, hslot⟩).reserved hslot
    exact ⟨base_add_lt hk, hoff⟩
  | config id c => exact h.config id c
  | start id ctxt => exact h.start hx id ctxt horderly
  | stop id => exact h.stop id
  | remove id mail => exact h.remove id mail
  | others rm => exact ⟨h.fits, h.are⟩

end

end OnicDriver.Lifecycle
