import OnicDriver.Lib.ListHead
import OnicDriver.Lifecycle.Modes

/-!
# The legacy interrupt

In legacy interrupt mode a queue that is added is put on a list, which is one
list for all devices. The first queue registers the interrupt line of its
device, and a queue that finds another one on the list is refused. A queue that
is removed leaves the list, and the last one frees the line.
-/

namespace OnicDriver.Interrupt

open Lib Access Queue Setup Resource Lifecycle

/-- The nodes of `legacy_intr_q_list`: its head, and the queue at a place of a device. -/
inductive LegacyNode
  | head
  | queue (dev pos : ℕ)
  deriving DecidableEq, Repr

/-- `legacy_intr_q_list`, the interrupt lines that are requested, each with its device, whether a
line was freed that was not requested, and whether a poisoned pointer was followed. -/
structure LegacyIntr where
  queues : ListHeads LegacyNode := .init
  lines : List (ℕ × ℕ) := []
  stray : Bool := false
  oops : Bool := false

/-- The results of `qdma_legacy_intr_conf` before and after the line is requested, and of
`request_threaded_irq`. -/
structure IntrEnv where
  disable : ℤ := 0
  request : ℤ := 0
  enable : ℤ := 0

/-- A queue is put at the end of the list. -/
def LegacyIntr.listAddTail (dev pos : ℕ) (s : LegacyIntr) : LegacyIntr :=
  match s.queues.listAddTail (.queue dev pos) .head with
  | none => { s with oops := true }
  | some queues => { s with queues := queues }

/-- `free_irq`. -/
def LegacyIntr.freeIrq (irq dev : ℕ) (s : LegacyIntr) : LegacyIntr :=
  if (irq, dev) ∈ s.lines then { s with lines := s.lines.erase (irq, dev) }
  else { s with stray := true }

/-- `intr_legacy_clear`. -/
def intrLegacyClear (irq dev pos : ℕ) (s : LegacyIntr) : LegacyIntr :=
  match s.queues.listDel (.queue dev pos) with
  | none => { s with oops := true }
  | some queues =>
    let s := { s with queues := queues }
    if queues.listEmpty .head then s.freeIrq irq dev else s

/-- `intr_legacy_setup`. -/
def intrLegacySetup (irq : ℕ) (env : IntrEnv) (dev pos : ℕ) (s : LegacyIntr) : ℤ × LegacyIntr :=
  if s.queues.listEmpty .head then
    if env.disable ≠ 0 then (-EINVAL, s)
    else if env.request < 0 then (env.request, s)
    else
      let s := { s with lines := (irq, dev) :: s.lines }.listAddTail dev pos
      if env.enable ≠ 0 then (-EINVAL, s) else (0, s)
  else (1, s.listAddTail dev pos)

/-! ## Calls -/

/-- The slot for which `qdma_queue_add` calls `intr_legacy_setup`. -/
def setupSlot (x : Xdev) (d : Device) (c : ClientConf) (env : AddEnv) : Option ℕ :=
  if addCheck x d c env < 0 then none
  else
    match findSlot x d c with
    | none => none
    | some (pos, _) =>
      if d.initQrange = false ∧ env.prep < 0 then none
      else if x.isVf = false ∧ x.drvMode = .legacyIntr then some pos
      else none

/-- `qdma_queue_add` with its call of `intr_legacy_setup`. A queue that finds another one on the
list leaves it again. -/
def legacyAdd (x : Xdev) (irq dev : ℕ) (d : Device) (c : ClientConf) (env : AddEnv)
    (intr : IntrEnv) (s : LegacyIntr) : Device × LegacyIntr :=
  match setupSlot x d c env with
  | none => ((qdmaQueueAdd x d c env).2.2, s)
  | some pos =>
    let (rv, s) := intrLegacySetup irq intr dev pos s
    ((qdmaQueueAdd x d c { env with legacy := rv }).2.2,
      if 0 < rv then intrLegacyClear irq dev pos s else s)

/-- `qdma_queue_remove` with its call of `intr_legacy_clear`. -/
def legacyRemove (x : Xdev) (irq dev : ℕ) (d : Device) (id : ℕ) (mail : ℕ → Mail)
    (s : LegacyIntr) : Device × LegacyIntr :=
  let (rv, d') := qdmaQueueRemove x d id mail
  (d',
    match qdmaDeviceGetDescqById x d id true with
    | none => s
    | some pos => if rv = 0 then intrLegacyClear irq dev pos s else s)

/-- The devices of the driver, all PFs in legacy interrupt mode, and the line of each. -/
structure LegacyDevices where
  xdev : ℕ → Xdev
  irq : ℕ → ℕ
  pf : ∀ dev, (xdev dev).isVf = false
  legacy : ∀ dev, (xdev dev).drvMode = .legacyIntr

/-- The state of all devices, and of the legacy interrupt. -/
structure LegacySystem where
  devs : ℕ → Device
  intr : LegacyIntr := {}

/-- A call on a device, and how setting up its interrupt ends. -/
structure LegacyEvent where
  dev : ℕ
  call : DeviceEvent
  intr : IntrEnv := {}

/-- The device and the legacy interrupt after a call. -/
def legacyCall (k : LegacyDevices) (grant : Grant) (s : LegacySystem) (e : LegacyEvent) :
    Device × LegacyIntr :=
  let x := k.xdev e.dev
  let d := s.devs e.dev
  match e.call with
  | .add c env => legacyAdd x (k.irq e.dev) e.dev d c env e.intr s.intr
  | .remove id mail => legacyRemove x (k.irq e.dev) e.dev d id mail s.intr
  | call => (deviceStep x grant d call, s.intr)

/-- The system after a call. -/
def legacyStep (k : LegacyDevices) (grant : Grant) (s : LegacySystem) (e : LegacyEvent) :
    LegacySystem where
  devs := Function.update s.devs e.dev (legacyCall k grant s e).1
  intr := (legacyCall k grant s e).2

/-- New devices. -/
def legacyInit (k : LegacyDevices) (rm : ℕ → ResourceState) (other : ℕ → ℕ → Slot) :
    LegacySystem where
  devs dev := qdmaDeviceInit (k.xdev dev) (rm dev) (other dev)

/-! ## What is to hold -/

/-- A queue is on the list. -/
def LegacyIntr.OnList (s : LegacyIntr) (dev pos : ℕ) : Prop :=
  s.queues.OnList .head (.queue dev pos)

/-- The line of a device is requested exactly while a queue of the device is on the list, it is
requested once and freed as it was requested, and each device has at most one queue on the list,
which is not `Q_STATE_DISABLED`. -/
structure LegacyProper (k : LegacyDevices) (s : LegacySystem) : Prop where
  requested : ∀ dev irq, (irq, dev) ∈ s.intr.lines ↔
    irq = k.irq dev ∧ ∃ pos, s.intr.OnList dev pos
  once : s.intr.lines.Nodup
  freed : s.intr.stray = false
  single : ∀ dev p p', s.intr.OnList dev p → s.intr.OnList dev p' → p = p'
  inUse : ∀ dev p, s.intr.OnList dev p → ((s.devs dev).slots p).InUse

/-- The additions that keep this: the PF can be prepared, the slot that is marked is free, and the
interrupt can be enabled once its line is requested. -/
def LegacySafe (k : LegacyDevices) (s : LegacySystem) (e : LegacyEvent) : Prop :=
  match e.call with
  | .add c env => ∀ pos qidx, Reserved (k.xdev e.dev) (s.devs e.dev) c env pos qidx →
      ¬ PrepFails (s.devs e.dev) env ∧ ¬ ((s.devs e.dev).slots pos).InUse ∧
      (s.intr.queues.listEmpty .head = true → e.intr.disable = 0 → ¬ e.intr.request < 0 →
        e.intr.enable = 0)
  | _ => True

/-- At most one queue of all devices is in use, it is the one on the list, and the line of its
device is the one that is requested. -/
structure LegacyInv (k : LegacyDevices) (s : LegacySystem) (on : Option (ℕ × ℕ)) : Prop where
  linked : s.intr.queues.Linked .head (on.toList.map fun q => .queue q.1 q.2)
  lines : s.intr.lines = on.toList.map fun q => (k.irq q.1, q.1)
  freed : s.intr.stray = false
  inUse : ∀ dev, ∀ p < 3 * (k.xdev dev).qmax,
    ((s.devs dev).slots p).InUse ↔ on = some (dev, p)
  place : ∀ q, on = some q → q.2 < 3 * (k.xdev q.1).qmax

section

variable {k : LegacyDevices} {s : LegacySystem} {on : Option (ℕ × ℕ)}

theorem LegacyInv.onList (h : LegacyInv k s on) {dev pos : ℕ} :
    s.intr.OnList dev pos ↔ on = some (dev, pos) := by
  unfold LegacyIntr.OnList
  rw [h.linked.onList_iff]
  cases on with
  | none => simp
  | some q => simp [Prod.ext_iff, eq_comm]

theorem LegacyInv.proper (h : LegacyInv k s on) : LegacyProper k s := by
  constructor
  · intro dev irq
    rw [h.lines]
    simp only [h.onList]
    cases on with
    | none => simp
    | some q =>
      simp only [Option.toList_some, List.map_cons, List.map_nil, List.mem_singleton,
        Prod.mk.injEq, Option.some.injEq]
      constructor
      · rintro ⟨rfl, rfl⟩
        exact ⟨rfl, q.2, rfl⟩
      · rintro ⟨rfl, p, rfl⟩
        exact ⟨rfl, rfl⟩
  · rw [h.lines]
    cases on <;> simp
  · exact h.freed
  · intro dev p p' hp hp'
    have heq := (h.onList.mp hp).symm.trans (h.onList.mp hp')
    exact (Prod.ext_iff.mp (Option.some.inj heq)).2
  · intro dev p hp
    have hon := h.onList.mp hp
    exact (h.inUse dev p (h.place _ hon)).mpr hon

end

/-! ## The slot of a new queue -/

section

variable {x : Xdev} {d : Device} {c : ClientConf} {env : AddEnv} {pos : ℕ}

theorem setupSlot_some (h : setupSlot x d c env = some pos) :
    ∃ qidx, Reserved x d c env pos qidx ∧ ¬ PrepFails d env := by
  unfold setupSlot at h
  split at h
  · cases h
  · rename_i hcheck
    split at h
    · cases h
    · rename_i pos' qidx hfind
      split at h
      · cases h
      · rename_i hprep
        split at h
        · cases h
          exact ⟨qidx, ⟨hcheck, hfind⟩, hprep⟩
        · cases h

theorem setupSlot_none (hpf : x.isVf = false) (hlegacy : x.drvMode = .legacyIntr)
    (h : setupSlot x d c env = none) {qidx : ℕ} (hslot : Reserved x d c env pos qidx) :
    PrepFails d env := by
  by_contra hprep
  obtain ⟨hcheck, hfind⟩ := hslot
  unfold setupSlot at h
  rw [if_neg hcheck, hfind] at h
  dsimp only at h
  have hok : ¬ (d.initQrange = false ∧ env.prep < 0) := hprep
  rw [if_neg hok, if_pos ⟨hpf, hlegacy⟩] at h
  cases h

/-- An addition of which the interrupt is not set up takes its mark back. -/
theorem qdmaQueueAdd_refused (hpf : x.isVf = false) (hlegacy : x.drvMode = .legacyIntr)
    (h : setupSlot x d c env = some pos) (hrv : env.legacy ≠ 0) :
    (qdmaQueueAdd x d c env).2.2 =
      { d.setState pos .disabled with initQrange := true } := by
  obtain ⟨qidx, ⟨hcheck, hfind⟩, hprep⟩ := setupSlot_some h
  unfold qdmaQueueAdd
  rw [if_neg hcheck, hfind]
  dsimp only
  unfold addMarked
  rw [prepQResource_ranged (d := d.setState pos .enabled) hprep]
  dsimp only
  rw [if_neg (lt_irrefl _), if_pos ⟨hpf, hlegacy, hrv⟩]
  simp [Device.setState, Device.setSlot]

/-- An addition of which the interrupt is set up leaves its slot in use, whether or not the queue
can be counted. -/
theorem qdmaQueueAdd_accepted (h : setupSlot x d c env = some pos) (hrv : env.legacy = 0) :
    ((qdmaQueueAdd x d c env).2.2.slots pos).InUse ∧
      ∀ p ≠ pos, (qdmaQueueAdd x d c env).2.2.slots p = d.slots p := by
  obtain ⟨qidx, ⟨hcheck, hfind⟩, hprep⟩ := setupSlot_some h
  unfold qdmaQueueAdd
  rw [if_neg hcheck, hfind]
  dsimp only
  unfold addMarked
  rw [prepQResource_ranged (d := d.setState pos .enabled) hprep]
  dsimp only
  rw [if_neg (lt_irrefl _), if_neg fun hfails => hfails.2.2 hrv]
  unfold addConfigured
  dsimp only
  split
  · constructor
    · rw [Device.setSlot_self]
      unfold Slot.InUse Slot.configure Device.setState
      dsimp only
      rw [Device.setSlot_self]
      exact nofun
    · intro p hp
      rw [Device.setSlot_of_ne hp]
      exact Device.setSlot_of_ne hp _
  · constructor
    · rw [Device.setSlot_self]
      unfold Slot.InUse
      dsimp only
      rw [Device.setSlot_self]
      unfold Slot.configure Device.setState
      dsimp only
      rw [Device.setSlot_self]
      exact nofun
    · intro p hp
      rw [Device.setSlot_of_ne hp]
      change ((d.setState pos .enabled).setSlot pos _).slots p = d.slots p
      rw [Device.setSlot_of_ne hp]
      exact Device.setSlot_of_ne hp _

/-- Where no queue is in use, the slot that is marked lies in the array of its type. -/
theorem Reserved.pos_lt {qidx : ℕ} (h : Reserved x d c env pos qidx)
    (hidle : ∀ p < 3 * x.qmax, ¬ (d.slots p).InUse) : pos < 3 * x.qmax := by
  obtain ⟨hlt, -⟩ := h.usable
  rcases h.cases with ⟨-, hfirst, rfl⟩ | ⟨-, -, rfl⟩
  · have hzero : isUsableQueue x d 0 c.conf.qType c.conf.st = true := by
      have hnone : ∀ t, ¬ (d.queue x t 0).InUse := fun t => hidle _ (base_add_lt (by omega))
      refine isUsableQueue_iff.mpr ⟨hnone _, ?_⟩
      cases c.conf.qType with
      | h2c => exact ⟨fun _ => hnone _, fun huse => absurd huse (hnone _)⟩
      | c2h => exact ⟨fun _ => hnone _, fun huse => absurd huse (hnone _)⟩
      | cmpt => exact ⟨fun hst => hnone _ hst.1, fun hst => hnone _ hst.1⟩
    obtain ⟨-, -, hmin⟩ := List.find?_range_eq_some.mp hfirst
    have hidx : qidx = 0 := by
      by_contra hne
      have hbefore := hmin 0 (Nat.pos_of_ne_zero hne)
      rw [hzero] at hbefore
      exact absurd hbefore (by decide)
    have hfirst := base_add_lt (t := c.conf.qType) hlt
    rw [hidx] at hfirst ⊢
    exact hfirst
  · exact base_add_lt hlt

end

/-! ## The list -/

section

variable {s : LegacyIntr} {irq dev pos : ℕ} {env : IntrEnv}

/-- The first queue registers the line of its device, unless the line or the hardware refuses. -/
theorem intrLegacySetup_first (h : s.queues.Linked .head []) (irq : ℕ) (env : IntrEnv)
    (dev pos : ℕ) (henable : env.disable = 0 → ¬ env.request < 0 → env.enable = 0) :
    (∃ rv, intrLegacySetup irq env dev pos s = (rv, s) ∧ rv < 0) ∨
      ∃ queues, intrLegacySetup irq env dev pos s =
          (0, { s with lines := (irq, dev) :: s.lines, queues := queues }) ∧
        queues.Linked .head [.queue dev pos] := by
  unfold intrLegacySetup
  rw [if_pos (h.listEmpty.mpr rfl)]
  split
  · exact .inl ⟨_, rfl, by decide⟩
  · rename_i hdisable
    split
    · rename_i hrequest
      exact .inl ⟨_, rfl, hrequest⟩
    · rename_i hrequest
      have hok := henable (not_not.mp hdisable) hrequest
      obtain ⟨queues, heq, hlinked⟩ := h.listAddTail (n := .queue dev pos) (by simp)
      right
      unfold LegacyIntr.listAddTail
      dsimp only
      rw [heq, if_neg (not_not.mpr hok)]
      exact ⟨queues, rfl, hlinked⟩

/-- A queue that finds another one on the list joins and leaves it. -/
theorem intrLegacySetup_second {q : ℕ × ℕ} (h : s.queues.Linked .head [.queue q.1 q.2])
    (irq : ℕ) (env : IntrEnv) (hne : (dev, pos) ≠ q) :
    ∃ s₁ queues, intrLegacySetup irq env dev pos s = (1, s₁) ∧
      intrLegacyClear irq dev pos s₁ = { s with queues := queues } ∧
      queues.Linked .head [.queue q.1 q.2] := by
  have hfull : ¬ s.queues.listEmpty .head = true := fun hempty => by
    cases h.listEmpty.mp hempty
  have hnew : LegacyNode.queue dev pos ∉ LegacyNode.head :: [LegacyNode.queue q.1 q.2] := by
    simp only [List.mem_cons, reduceCtorEq, List.not_mem_nil, or_false, false_or,
      LegacyNode.queue.injEq]
    exact fun heq => hne (Prod.ext heq.1 heq.2)
  obtain ⟨joined, hjoin, hjoined⟩ := h.listAddTail hnew
  obtain ⟨left, hleave, hleft⟩ := @ListHeads.Linked.listDel _ _ _ _ _ [] _ hjoined
  have hkept : ¬ left.listEmpty .head = true := fun hempty => by
    have hnil := hleft.listEmpty.mp hempty
    cases hnil
  refine ⟨{ s with queues := joined }, left, ?_, ?_, hleft⟩
  · unfold intrLegacySetup LegacyIntr.listAddTail
    rw [if_neg hfull, hjoin]
  · unfold intrLegacyClear
    dsimp only
    rw [hleave]
    dsimp only
    rw [if_neg hkept]

/-- The last queue frees the line of its device. -/
theorem intrLegacyClear_last (h : s.queues.Linked .head [.queue dev pos])
    (hlines : s.lines = [(irq, dev)]) :
    ∃ queues, intrLegacyClear irq dev pos s = { s with queues := queues, lines := [] } ∧
      queues.Linked .head [] := by
  obtain ⟨queues, hdel, hlinked⟩ := @ListHeads.Linked.listDel _ _ _ _ [] [] _ h
  refine ⟨queues, ?_, hlinked⟩
  unfold intrLegacyClear
  rw [hdel]
  dsimp only
  rw [if_pos (hlinked.listEmpty.mpr rfl)]
  unfold LegacyIntr.freeIrq
  dsimp only
  rw [hlines, if_pos List.mem_cons_self, List.erase_cons_head]

end

/-! ## Runs -/

section

variable {k : LegacyDevices} {grant : Grant} {s : LegacySystem} {on : Option (ℕ × ℕ)}

/-- A call that leaves the queues of a device and the list as they are. -/
theorem LegacyInv.kept (h : LegacyInv k s on) {dev : ℕ} {d : Device} {intr : LegacyIntr}
    (huse : ∀ p < 3 * (k.xdev dev).qmax, (d.slots p).InUse ↔ ((s.devs dev).slots p).InUse)
    (hlinked : intr.queues.Linked .head (on.toList.map fun q => .queue q.1 q.2))
    (hlines : intr.lines = s.intr.lines) (hstray : intr.stray = s.intr.stray) :
    LegacyInv k { devs := Function.update s.devs dev d, intr := intr } on := by
  refine ⟨hlinked, hlines.trans h.lines, hstray.trans h.freed, ?_, h.place⟩
  intro dev' p hp
  by_cases hdev : dev' = dev
  · subst hdev
    dsimp only
    rw [Function.update_self, huse p hp]
    exact h.inUse dev' p hp
  · dsimp only
    rw [Function.update_of_ne hdev]
    exact h.inUse dev' p hp

theorem LegacyInv.add (h : LegacyInv k s on) (dev : ℕ) (c : ClientConf) (env : AddEnv)
    (intr : IntrEnv) (hsafe : LegacySafe k s { dev := dev, call := .add c env, intr := intr }) :
    ∃ on', LegacyInv k (legacyStep k grant s { dev := dev, call := .add c env, intr := intr })
      on' := by
  have hpf := k.pf dev
  have hlegacy := k.legacy dev
  unfold legacyStep legacyCall legacyAdd
  dsimp only
  generalize hslot : setupSlot (k.xdev dev) (s.devs dev) c env = slot
  cases slot with
  | none =>
    have hres : ∀ {pos qidx}, ¬ Reserved (k.xdev dev) (s.devs dev) c env pos qidx := fun hres =>
      (hsafe _ _ hres).1 (setupSlot_none hpf hlegacy hslot hres)
    have hadd := qdmaQueueAdd_result (k.xdev dev) (s.devs dev) c env
    dsimp only
    generalize qdmaQueueAdd (k.xdev dev) (s.devs dev) c env = res at hadd ⊢
    cases hadd with
    | refused hneg => exact ⟨on, h.kept (fun _ _ => Iff.rfl) h.linked rfl rfl⟩
    | unwound hres' hneg => exact absurd hres' hres
    | marked hres' hpf' hprep => exact absurd hres' hres
    | uncounted hres' hprep hlegacy' hcount hneg => exact absurd hres' hres
    | added hres' hprep hlegacy' hcount hrv => exact absurd hres' hres
  | some pos =>
    obtain ⟨qidx, hres, -⟩ := setupSlot_some hslot
    obtain ⟨-, hfree, henable⟩ := hsafe pos qidx hres
    -- a mark that is taken back
    have hrefused : ∀ rv, rv ≠ 0 → ∀ p < 3 * (k.xdev dev).qmax,
        ((qdmaQueueAdd (k.xdev dev) (s.devs dev) c { env with legacy := rv }).2.2.slots p).InUse ↔
          ((s.devs dev).slots p).InUse := by
      intro rv hrv p _
      have hslot' : setupSlot (k.xdev dev) (s.devs dev) c { env with legacy := rv } = some pos :=
        hslot
      rw [qdmaQueueAdd_refused hpf hlegacy hslot' hrv]
      change (((s.devs dev).setState pos .disabled).slots p).InUse ↔ _
      rw [setState_disabled (not_not.mp hfree)]
    dsimp only
    cases on with
    | none =>
      have hidle : ∀ p < 3 * (k.xdev dev).qmax, ¬ ((s.devs dev).slots p).InUse := fun p hp huse =>
        nomatch (h.inUse dev p hp).mp huse
      rcases intrLegacySetup_first h.linked (k.irq dev) intr dev pos
        (henable (h.linked.listEmpty.mpr rfl)) with ⟨rv, heq, hneg⟩ | ⟨queues, heq, hlinked⟩
      · rw [heq]
        dsimp only
        rw [if_neg hneg.not_gt]
        exact ⟨none, h.kept (hrefused rv hneg.ne) h.linked rfl rfl⟩
      · rw [heq]
        dsimp only
        rw [if_neg (lt_irrefl 0)]
        have hslot' : setupSlot (k.xdev dev) (s.devs dev) c { env with legacy := 0 } = some pos :=
          hslot
        obtain ⟨huse, hother⟩ := qdmaQueueAdd_accepted hslot' rfl
        refine ⟨some (dev, pos), hlinked, ?_, h.freed, ?_, ?_⟩
        · dsimp only
          rw [h.lines]
          rfl
        · intro dev' p hp
          by_cases hat : dev' = dev
          · subst hat
            dsimp only
            rw [Function.update_self]
            by_cases hpos : p = pos
            · subst hpos
              exact iff_of_true huse rfl
            · rw [hother p hpos]
              refine iff_of_false (hidle p hp) fun heq => hpos ?_
              exact ((Prod.ext_iff.mp (Option.some.inj heq)).2).symm
          · dsimp only
            rw [Function.update_of_ne hat]
            refine iff_of_false (fun huse => nomatch (h.inUse dev' p hp).mp huse) fun heq => hat ?_
            exact ((Prod.ext_iff.mp (Option.some.inj heq)).1).symm
        · intro q hq
          cases hq
          exact Reserved.pos_lt hres hidle
    | some q =>
      have hne : (dev, pos) ≠ q := by
        rintro rfl
        exact hfree ((h.inUse dev pos (h.place _ rfl)).mpr rfl)
      obtain ⟨s₁, queues, heq, hclear, hlinked⟩ :=
        intrLegacySetup_second h.linked (k.irq dev) intr hne
      rw [heq]
      dsimp only
      rw [if_pos one_pos, hclear]
      exact ⟨some q, h.kept (hrefused 1 one_ne_zero) hlinked rfl rfl⟩

theorem LegacyInv.remove (h : LegacyInv k s on) (dev id : ℕ) (mail : ℕ → Mail) (intr : IntrEnv) :
    ∃ on', LegacyInv k (legacyStep k grant s { dev := dev, call := .remove id mail, intr := intr })
      on' := by
  unfold legacyStep legacyCall legacyRemove
  dsimp only
  generalize hpos : qdmaDeviceGetDescqById (k.xdev dev) (s.devs dev) id true = place
  cases place with
  | none =>
    have hsame : (qdmaQueueRemove (k.xdev dev) (s.devs dev) id mail).2 = s.devs dev := by
      unfold qdmaQueueRemove
      rw [hpos]
    rw [hsame]
    exact ⟨on, h.kept (fun _ _ => Iff.rfl) h.linked rfl rfl⟩
  | some pos =>
    obtain ⟨rfl, hlt, huse⟩ := getDescqById_some hpos
    have hon := (h.inUse dev pos hlt).mp (huse rfl)
    subst hon
    dsimp only
    rcases qdmaQueueRemove_slots (k.xdev dev) (s.devs dev) pos mail with
      ⟨hne, hslots⟩ | ⟨hrv, hslots⟩
    · rw [if_neg hne]
      refine ⟨_, h.kept (fun p _ => ?_) h.linked rfl rfl⟩
      rw [hslots]
    · rw [if_pos hrv]
      obtain ⟨queues, hclear, hlinked⟩ := @intrLegacyClear_last _ (k.irq dev) _ _ h.linked h.lines
      rw [hclear]
      refine ⟨none, hlinked, rfl, h.freed, ?_, fun q hq => nomatch hq⟩
      intro dev' p hp
      refine iff_of_false (fun huse' => ?_) nofun
      by_cases hdev : dev' = dev
      · subst hdev
        dsimp only at huse'
        rw [Function.update_self, hslots] at huse'
        by_cases hp' : p = pos
        · subst hp'
          rw [Function.update_self] at huse'
          exact huse' rfl
        · rw [Function.update_of_ne hp'] at huse'
          have heq := (h.inUse dev' p hp).mp huse'
          exact hp' ((Prod.ext_iff.mp (Option.some.inj heq)).2).symm
      · dsimp only at huse'
        rw [Function.update_of_ne hdev] at huse'
        have heq := (h.inUse dev' p hp).mp huse'
        exact hdev ((Prod.ext_iff.mp (Option.some.inj heq)).1).symm

/-- Every safe call keeps the list and the lines together. -/
theorem LegacyInv.step (h : LegacyInv k s on) (grant : Grant) (e : LegacyEvent)
    (hsafe : LegacySafe k s e) : ∃ on', LegacyInv k (legacyStep k grant s e) on' := by
  obtain ⟨dev, call, intr⟩ := e
  have hstays : ∀ {d : Device}, (∀ p, ((s.devs dev).slots p).Stays (d.slots p)) →
      LegacyInv k { devs := Function.update s.devs dev d, intr := s.intr } on := fun hs =>
    h.kept (fun p _ => (hs p).inUse) h.linked rfl rfl
  cases call with
  | add c env => exact h.add dev c env intr hsafe
  | remove id mail => exact h.remove dev id mail intr
  | config id c => exact ⟨on, hstays (qdmaQueueConfig_stays _ (s.devs dev) id c)⟩
  | start id ctxt => exact ⟨on, hstays (qdmaQueueStart_stays _ grant (s.devs dev) id ctxt)⟩
  | stop id => exact ⟨on, hstays (qdmaQueueStop_stays _ (s.devs dev) id)⟩
  | others rm => exact ⟨on, hstays fun p => .refl _⟩

theorem LegacyInv.init (k : LegacyDevices) (rm : ℕ → ResourceState) (other : ℕ → ℕ → Slot) :
    LegacyInv k (legacyInit k rm other) none := by
  refine ⟨ListHeads.init_linked _, rfl, rfl, ?_, fun q hq => nomatch hq⟩
  intro dev p hp
  refine iff_of_false (fun huse => huse ?_) nofun
  unfold legacyInit qdmaDeviceInit
  dsimp only
  rw [if_pos hp]

end

/-- Throughout any safe calls on new devices, the line of a device is requested exactly while a
queue of it is on the list. -/
theorem legacyRun_proper (k : LegacyDevices) (grant : Grant) (rm : ℕ → ResourceState)
    (other : ℕ → ℕ → Slot) (es : List LegacyEvent)
    (h : Admitted (legacyStep k grant) (LegacySafe k) (legacyInit k rm other) es) :
    Always (legacyStep k grant) (LegacyProper k) (legacyInit k rm other) es := by
  have hinv : ∀ s, (∃ on, LegacyInv k s on) → LegacyProper k s := fun _ ⟨_, h⟩ => h.proper
  refine @Admitted.always _ _ _ (LegacySafe k) (LegacySafe k) _ _ hinv ?_ _ _
    ⟨none, .init k rm other⟩ h h
  exact fun s e ⟨on, hon⟩ hsafe _ => hon.step grant e hsafe

/-- PFs in legacy interrupt mode, each with a line of its own. -/
def legacyPfs : LegacyDevices where
  xdev _ := { pollingPf with drvMode := .legacyIntr }
  irq dev := 16 + dev
  pf _ := rfl
  legacy _ := rfl

/-- The devices before their first queue. -/
def newLegacyPfs : LegacySystem := legacyInit legacyPfs (fun _ => fourQueues) fun _ _ => newSlot

/-- Queue 0 of a type is added to a device. -/
def addFirst (dev : ℕ) (t : QType) : LegacyEvent where
  dev := dev
  call := .add { conf := { qType := t }, qidx := 0 } {}

/-- The second device is refused until the queue of the first one is removed. -/
def legacyRun : List LegacyEvent :=
  [addFirst 0 .h2c, addFirst 1 .h2c, { dev := 0, call := .remove 0 fun _ => .answered },
    addFirst 1 .c2h]

theorem legacyRun_legacyProper :
    Always (legacyStep legacyPfs fun _ => true) (LegacyProper legacyPfs) newLegacyPfs
      legacyRun := by
  have hadd : ∀ (s : LegacySystem) dev t, LegacySafe legacyPfs s (addFirst dev t) := by
    intro s dev t pos qidx hres
    obtain ⟨-, hoff, -, hpos⟩ := hres.spec
    refine ⟨fun hfails => absurd hfails.2 (lt_irrefl 0), ?_, fun _ _ _ => rfl⟩
    rw [hpos.mp fun hauto => absurd hauto (by decide : (0 : ℕ) ≠ QDMA_QUEUE_IDX_INVALID)]
    exact not_not.mpr hoff
  apply legacyRun_proper
  exact ⟨hadd _ _ _, hadd _ _ _, trivial, hadd _ _ _, trivial⟩

/-- A queue that stays enabled because its function cannot be prepared frees a line that was never
requested when it is removed. -/
theorem unpreparedRun_not_legacyProper : ¬ ∀ es,
    Always (legacyStep legacyPfs fun _ => true) (LegacyProper legacyPfs) newLegacyPfs es := by
  intro h
  have hfreed := (h [{ dev := 0, call := .add { conf := {}, qidx := 0 } { prep := -EINVAL } },
    { dev := 0, call := .remove 0 fun _ => .answered }]).final.freed
  revert hfreed
  decide +kernel

end OnicDriver.Interrupt
