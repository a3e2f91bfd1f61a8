import OnicDriver.Lifecycle.Slot
import OnicDriver.Resource.Counting

/-!
# The queues of a device

The queues of a device lie in three arrays one after the other, and a handle
is the place of a queue among all of them. A call finds the queue by its
handle; `qdma_queue_add` finds a place for it.
-/

namespace OnicDriver.Lifecycle

open Lib Access Queue Setup Resource

def QDMA_QUEUE_IDX_INVALID : ℕ := 0xFFFF

def EPERM : ℤ := 1

/-- `struct qdma_dev` of a device: the slots from the start of the H2C array on, of which those
after the third array belong to somebody else, whether the range of the function is set, the
memory of all queues, and the resource manager of the PF. -/
structure Device where
  slots : ℕ → Slot
  initQrange : Bool := false
  mem : Memory := {}
  rm : ResourceState

namespace Device

variable (d : Device)

/-- The device with another slot at a place. -/
def setSlot (pos : ℕ) (s : Slot) : Device := { d with slots := Function.update d.slots pos s }

/-- The state of a slot is stored to. -/
def setState (pos : ℕ) (st : QState) : Device :=
  d.setSlot pos { d.slots pos with qState := st }

@[simp] theorem setSlot_self (pos : ℕ) (s : Slot) : (d.setSlot pos s).slots pos = s :=
  Function.update_self ..

variable {d}

theorem setSlot_of_ne {pos p : ℕ} (h : p ≠ pos) (s : Slot) :
    (d.setSlot pos s).slots p = d.slots p :=
  Function.update_of_ne h _ _

end Device

/-- Where the array of a type begins: `h2c_descq`, `c2h_descq` and `cmpt_descq`. -/
def Xdev.base (x : Xdev) : QType → ℕ
  | .h2c => 0
  | .c2h => x.qmax
  | .cmpt => 2 * x.qmax

/-! ## Handles -/

/-- `qdma_device_get_descq_by_id`: the place of a queue, which must have been added if `init`. -/
def qdmaDeviceGetDescqById (x : Xdev) (d : Device) (idx : ℕ) (init : Bool) : Option ℕ :=
  let descq :=
    if idx ≥ x.qmax then
      let idx := idx - x.qmax
      if idx ≥ x.qmax then
        let idx := idx - x.qmax
        if idx ≥ x.qmax then none else some (x.base .cmpt + idx)
      else some (x.base .c2h + idx)
    else some (x.base .h2c + idx)
  descq.filter fun pos => !init || decide ((d.slots pos).qState ≠ .disabled)

/-- `qdma_device_get_id_from_descq`: the queue is searched from the array of its type on, and
`none` stands for `-EINVAL`. -/
def qdmaDeviceGetIdFromDescq (x : Xdev) (d : Device) (pos : ℕ) : Option ℕ :=
  let base := x.base (d.slots pos).conf.qType
  ((List.range (2 * x.qmax)).find? fun k => decide (base + k = pos)).map (base + ·)

/-! ## Active queues -/

/-- How a notification of the VF to the PF ends: it is answered, or it fails, and the PF has
carried it out or not. -/
inductive Mail
  | answered
  | failed (code : ℕ) (carried : Bool)
  deriving DecidableEq, Repr

/-- A call of the resource manager: the PF makes it, and a VF asks the PF to
(`qdma_dev_notify_qadd` and `qdma_dev_notify_qdel`). -/
def notify (x : Xdev) (mail : Mail) (call : ResourceState → ℤ × ResourceState)
    (rm : ResourceState) : ℤ × ResourceState :=
  if x.isVf = false then call rm
  else
    match mail with
    | .answered => (if (call rm).1 < 0 then -EINVAL else 0, (call rm).2)
    | .failed code carried => (-(code : ℤ) - 1, if carried then (call rm).2 else rm)

/-- The type in the resource manager. -/
def devQType : QType → DevQType
  | .h2c => .h2c
  | .c2h => .c2h
  | .cmpt => .cmpt

/-- A queue is counted as active. -/
def addActive (x : Xdev) (mail : Mail) (t : QType) (rm : ResourceState) : ℤ × ResourceState :=
  notify x mail
    (fun rm => qdmaDevIncrementActiveQueue rm x.dmaDeviceIndex x.funcId (some (devQType t))) rm

/-- A queue is no longer counted as active. -/
def delActive (x : Xdev) (mail : Mail) (t : QType) (rm : ResourceState) : ℤ × ResourceState :=
  notify x mail
    (fun rm => qdmaDevDecrementActiveQueue rm x.dmaDeviceIndex x.funcId (some (devQType t))) rm

/-- The counts that a queue is entered in by `add`, the second of a streaming C2H queue being
that of its completions. If that one fails, `undo` takes the first one back. -/
def countQueue (add undo : QType → Mail → ResourceState → ℤ × ResourceState) (mail : ℕ → Mail)
    (conf : QdmaQueueConf) (rm : ResourceState) : ℤ × ResourceState :=
  let (rv, rm) := add conf.qType (mail 0) rm
  if rv < 0 then (rv, rm)
  else if conf.stC2h then
    let (rv, rm) := add .cmpt (mail 1) rm
    if rv < 0 then (rv, (undo conf.qType (mail 2) rm).2) else (0, rm)
  else (0, rm)

/-- The queues of a type that `qdma_queue_add` takes to be active, as an unsigned number. The VF
asks the PF, and `told` is what it learns. -/
def activeQcnt (x : Xdev) (told : QType → ℕ) (t : QType) (rm : ResourceState) : ℕ :=
  if x.isVf then told t
  else u32 (qdmaGetDeviceActiveQueueCount rm x.dmaDeviceIndex x.funcId (devQType t))

/-! ## Adding a queue -/

/-- `is_usable_queue`. The mode bit is set by the queues of data, and a completion queue counts
as memory mapped. -/
def isUsableQueue (x : Xdev) (d : Device) (qidx : ℕ) (qType : QType) (st : Bool) : Bool :=
  let slot := fun t => d.slots (x.base t + qidx)
  let present := fun t => decide ((slot t).qState ≠ .disabled)
  let mode := present .h2c && (slot .h2c).conf.st || present .c2h && (slot .c2h).conf.st
  match qType with
  | .cmpt => !(present .cmpt || mode)
  | .h2c =>
    !(st && present .cmpt || st && present .c2h && !mode || !st && present .c2h && mode ||
      present .h2c)
  | .c2h =>
    !(st && present .cmpt || st && present .h2c && !mode || !st && present .h2c && mode ||
      present .c2h)

/-- What decides on the way of a call of `qdma_queue_add` besides the device: what
`qdma_device_prep_q_resource` returns when it sets the range, what `intr_legacy_setup` returns,
the answers to a VF, and the counts it is told. -/
structure AddEnv where
  prep : ℤ := 0
  legacy : ℤ := 0
  mail : ℕ → Mail := fun _ => .answered
  told : QType → ℕ := fun _ => 0

/-- The checks of `qdma_queue_add` before it looks for a slot. -/
def addCheck (x : Xdev) (d : Device) (c : ClientConf) (env : AddEnv) : ℤ :=
  if qdmaQueueAddAccepts x.attributes x.ipType c.conf = false then -EINVAL
  else if c.qidx ≠ QDMA_QUEUE_IDX_INVALID ∧ c.qidx ≥ x.qmax then -EINVAL
  else if activeQcnt x env.told c.conf.qType d.rm ≥ x.qmax then - EIO
  else 0

/-- The first usable index, if the client leaves the choice to the library. -/
def firstUsable (x : Xdev) (d : Device) (conf : QdmaQueueConf) : Option ℕ :=
  (List.range x.qmax).find? fun i => isUsableQueue x d i conf.qType conf.st

/-- The slot that `qdma_queue_add` takes, and the index it gives the queue. The search moves the
pointer with the index, and the index is added to it once more. -/
def findSlot (x : Xdev) (d : Device) (c : ClientConf) : Option (ℕ × ℕ) :=
  if c.qidx = QDMA_QUEUE_IDX_INVALID then
    (firstUsable x d c.conf).map fun i => (x.base c.conf.qType + i + i, i)
  else if isUsableQueue x d c.qidx c.conf.qType c.conf.st then
    some (x.base c.conf.qType + c.qidx, c.qidx)
  else none

/-- `qdma_device_prep_q_resource`. -/
def prepQResource (d : Device) (env : AddEnv) : ℤ × Device :=
  if d.initQrange then (0, d)
  else if env.prep < 0 then (env.prep, d)
  else (0, { d with initQrange := true })

/-- `qdma_queue_add` with its slot prepared: the queue is configured and counted, and gets its
handle. -/
def addConfigured (x : Xdev) (d : Device) (c : ClientConf) (env : AddEnv) (pos qidx : ℕ) :
    ℤ × ℕ × Device :=
  let d := d.setSlot pos ((d.slots pos).configure { c with qidx := qidx })
  let (rv, rm) :=
    countQueue (fun t m => addActive x m t) (fun t m => delActive x m t) env.mail c.conf d.rm
  let d := { d with rm := rm }
  if rv < 0 then (rv, QDMA_QUEUE_IDX_INVALID, d)
  else
    let qhndl := (d.slots pos).qidx + x.base c.conf.qType
    (0, qhndl, d.setSlot pos { d.slots pos with qHndl := qhndl })

/-- `qdma_queue_add` with its slot marked. What fails here takes the mark back, but not the
preparation of the PF. -/
def addMarked (x : Xdev) (d : Device) (c : ClientConf) (env : AddEnv) (pos qidx : ℕ) :
    ℤ × ℕ × Device :=
  match prepQResource d env with
  | (rv, d) =>
    if rv < 0 then
      (rv, QDMA_QUEUE_IDX_INVALID, if x.isVf then d.setState pos .disabled else d)
    else if x.isVf = false ∧ x.drvMode = .legacyIntr ∧ env.legacy ≠ 0 then
      (-EINVAL, QDMA_QUEUE_IDX_INVALID, d.setState pos .disabled)
    else addConfigured x d c env pos qidx

/-- `qdma_queue_add`: the return value, `*qhndl` and the device. -/
def qdmaQueueAdd (x : Xdev) (d : Device) (c : ClientConf) (env : AddEnv) : ℤ × ℕ × Device :=
  if addCheck x d c env < 0 then (addCheck x d c env, QDMA_QUEUE_IDX_INVALID, d)
  else
    match findSlot x d c with
    | none => (-EPERM, QDMA_QUEUE_IDX_INVALID, d)
    | some (pos, qidx) => addMarked x (d.setState pos .enabled) c env pos qidx

/-! ## The other calls -/

/-- `qdma_queue_remove`. -/
def qdmaQueueRemove (x : Xdev) (d : Device) (id : ℕ) (mail : ℕ → Mail) : ℤ × Device :=
  match qdmaDeviceGetDescqById x d id true with
  | none => (-EINVAL, d)
  | some pos =>
    if (d.slots pos).qState ≠ .enabled then (-EINVAL, d)
    else
      let (rv, rm) := countQueue (fun t m => delActive x m t) (fun t m => addActive x m t) mail
        (d.slots pos).conf d.rm
      let d := { d with rm := rm }
      if rv < 0 then (rv, d) else (0, d.setState pos .disabled)

/-- `qdma_queue_config`. -/
def qdmaQueueConfig (x : Xdev) (d : Device) (id : ℕ) (c : ClientConf) : ℤ × Device :=
  match qdmaDeviceGetDescqById x d id false with
  | none => (-EINVAL, d)
  | some pos =>
    let (rv, s) := (d.slots pos).config x c
    (rv, d.setSlot pos s)

/-- `qdma_queue_start`. -/
def qdmaQueueStart (x : Xdev) (grant : Grant) (d : Device) (id : ℕ) (ctxt : ℤ) : ℤ × Device :=
  match qdmaDeviceGetDescqById x d id true with
  | none => (-EINVAL, d)
  | some pos =>
    let (rv, s, mem) := (d.slots pos).start x grant ctxt d.mem
    (rv, { d.setSlot pos s with mem := mem })

/-- `qdma_queue_stop`. -/
def qdmaQueueStop (x : Xdev) (d : Device) (id : ℕ) : ℤ × Device :=
  match qdmaDeviceGetDescqById x d id true with
  | none => (-EINVAL, d)
  | some pos =>
    let (rv, s, mem) := (d.slots pos).stop d.mem
    (rv, { d.setSlot pos s with mem := mem })

/-- The device that `qdma_device_init` sets up. -/
def qdmaDeviceInit (x : Xdev) (rm : ResourceState) (other : ℕ → Slot) : Device where
  slots pos :=
    if pos < 3 * x.qmax then { descq := { conf := {} }, qidx := pos % x.qmax } else other pos
  rm := rm

end OnicDriver.Lifecycle
