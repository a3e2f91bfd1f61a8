import OnicDriver.Lib.CInt
import Mathlib.Data.List.Basic

/-!
# The queue resource manager

A translation of `qdma_resource_mgmt.c`. Each resource master hands ranges of
hardware queues to the functions of one device and keeps the unassigned
ranges in a free list. Linked lists become Lean lists; a node pointer into
the free list becomes the node together with the nodes on either side of it.
-/

namespace OnicDriver.Resource

open Lib

/-- Results of the successive calls of `qdma_calloc`; the empty list stands for
an allocator that never fails. -/
abbrev CallocResults := List Bool

/-- `qdma_calloc`: whether the next allocation succeeds, and the later results. -/
def qdmaCalloc : CallocResults → Bool × CallocResults
  | [] => (true, [])
  | ok :: mem => (ok, mem)

def QDMA_SUCCESS : ℤ := 0
def QDMA_ERR_NO_MEM : ℤ := 2
def QDMA_ERR_RM_RES_EXISTS : ℤ := 8
def QDMA_ERR_RM_RES_NOT_EXISTS : ℤ := 9
def QDMA_ERR_RM_DEV_EXISTS : ℤ := 10
def QDMA_ERR_RM_DEV_NOT_EXISTS : ℤ := 11
def QDMA_ERR_RM_NO_QUEUES_LEFT : ℤ := 12
def QDMA_ERR_RM_QMAX_CONF_REJECTED : ℤ := 13

/-- `struct qdma_resource_entry`. -/
structure ResourceEntry where
  qbase : ℤ
  totalQ : ℕ
  deriving DecidableEq, Repr

/-- `struct qdma_dev_entry`. -/
structure DevEntry where
  funcId : ℕ
  activeH2cQcnt : ℕ := 0
  activeC2hQcnt : ℕ := 0
  activeCmptQcnt : ℕ := 0
  entry : ResourceEntry
  deriving DecidableEq, Repr

/-- `struct qdma_resource_master`. -/
structure ResourceMaster where
  dmaDeviceIndex : ℕ
  pciBusStart : ℕ
  pciBusEnd : ℕ
  totalQ : ℕ
  qbase : ℤ
  devList : List DevEntry := []
  freeList : List ResourceEntry := []
  activeQcnt : ℕ := 0
  deriving DecidableEq, Repr

/-- The file-level state: `master_resource_list` and the static `index` of
`qdma_master_resource_create`. -/
structure ResourceState where
  masterResourceList : List ResourceMaster := []
  index : ℕ := 0
  deriving DecidableEq, Repr

/-! ## The free list -/

/-- `qdma_free_entry_create`. -/
def qdmaFreeEntryCreate (qBase : ℤ) (totalQ : ℕ) (mem : CallocResults) :
    Option ResourceEntry × CallocResults :=
  match qdmaCalloc mem with
  | (true, mem) => (some ⟨qBase, totalQ⟩, mem)
  | (false, mem) => (none, mem)

/-- The insertion loop of `qdma_submit_to_free_list`: before the first node with
a larger base, else at the tail. -/
def insertFree (new : ResourceEntry) : List ResourceEntry → List ResourceEntry
  | [] => [new]
  | node :: rest =>
    if node.qbase > new.qbase then new :: node :: rest else node :: insertFree new rest

/-- The merge loop of `qdma_submit_to_free_list` once `streach_node` is set. -/
def defragmentFrom (streach : ResourceEntry) : List ResourceEntry → List ResourceEntry
  | [] => [streach]
  | node :: rest =>
    if u32 (streach.qbase + streach.totalQ) = u32 node.qbase then
      defragmentFrom { streach with totalQ := u32 (streach.totalQ + node.totalQ) } rest
    else streach :: defragmentFrom node rest

/-- The merge loop of `qdma_submit_to_free_list`. -/
def defragment : List ResourceEntry → List ResourceEntry
  | [] => []
  | node :: rest => defragmentFrom node rest

/-- `qdma_submit_to_free_list`: the caller's entry and the free list afterwards.
A failed allocation returns before the merge loop. -/
def qdmaSubmitToFreeList (entry : ResourceEntry) (free : List ResourceEntry)
    (mem : CallocResults) : ResourceEntry × List ResourceEntry × CallocResults :=
  if entry.totalQ = 0 then (entry, free, mem)
  else match qdmaFreeEntryCreate entry.qbase entry.totalQ mem with
    | (none, mem) => (entry, free, mem)
    | (some new, mem) => (⟨-1, 0⟩, defragment (insertFree new free), mem)

/-- A node of the free list with the nodes before and after it. -/
structure FreeNode where
  before : List ResourceEntry
  node : ResourceEntry
  after : List ResourceEntry
  deriving DecidableEq, Repr

/-- The free list a node belongs to. -/
def FreeNode.list (n : FreeNode) : List ResourceEntry := n.before ++ n.node :: n.after

/-- The test of `qdma_get_resource_node` that `node` holds the requested range. -/
def holdsRequest (qmax : ℕ) (qbase : ℤ) (node : ResourceEntry) : Bool :=
  decide (qbase ≥ node.qbase) && decide (u32 (node.qbase + node.totalQ) ≥ u32 (qbase + qmax))

/-- The first loop of `qdma_get_resource_node`, from the nodes already passed. -/
def findRequested (qmax : ℕ) (qbase : ℤ) (before : List ResourceEntry) :
    List ResourceEntry → Option FreeNode
  | [] => none
  | node :: rest =>
    if holdsRequest qmax qbase node then some ⟨before, node, rest⟩
    else findRequested qmax qbase (before ++ [node]) rest

/-- The second loop of `qdma_get_resource_node`: the last of the smallest nodes
that fit. `best` is the best node among those already passed. -/
def findBestFit (qmax : ℕ) (best : Option FreeNode) (before : List ResourceEntry) :
    List ResourceEntry → Option FreeNode
  | [] => best
  | node :: rest =>
    let better := node.totalQ ≥ qmax ∧ ∀ b ∈ best, b.node.totalQ ≥ node.totalQ
    findBestFit qmax (if better then some ⟨before, node, rest⟩ else best) (before ++ [node]) rest

/-- The part of `qdma_get_resource_node` after `fragment_free_list`: cut the
requested range out of the chosen node. A failed allocation returns no node, and
leaves the pieces cut so far in the list. -/
def fragmentFreeList (qmax : ℕ) (qbase : ℤ) (best : FreeNode) (mem : CallocResults) :
    Option FreeNode × List ResourceEntry × CallocResults :=
  let node := best.node
  if qbase = node.qbase ∧ qmax = node.totalQ then (some best, best.list, mem)
  else if qbase = node.qbase ∧ qmax ≠ node.totalQ then
    let lqbase := s32 (node.qbase + qmax)
    let lqmax := u32 (node.totalQ - qmax)
    match qdmaFreeEntryCreate lqbase lqmax mem with
    | (none, mem) => (none, best.list, mem)
    | (some new, mem) =>
      let cut : FreeNode :=
        ⟨best.before, { node with totalQ := u32 (node.totalQ - lqmax) }, new :: best.after⟩
      (some cut, cut.list, mem)
  else if qbase > node.qbase ∧ u32 (qbase + qmax) = u32 (node.qbase + node.totalQ) then
    let lqmax := u32 (qbase - node.qbase)
    match qdmaFreeEntryCreate node.qbase lqmax mem with
    | (none, mem) => (none, best.list, mem)
    | (some new, mem) =>
      let cut : FreeNode := ⟨best.before ++ [new], ⟨qbase, qmax⟩, best.after⟩
      (some cut, cut.list, mem)
  else
    let lqmax := u32 (qbase - node.qbase)
    match qdmaFreeEntryCreate node.qbase lqmax mem with
    | (none, mem) => (none, best.list, mem)
    | (some left, mem) =>
      let node := { node with qbase := qbase, totalQ := u32 (node.totalQ - lqmax) }
      match qdmaFreeEntryCreate (s32 (node.qbase + qmax)) (u32 (node.totalQ - qmax)) mem with
      | (none, mem) => (none, best.before ++ left :: node :: best.after, mem)
      | (some right, mem) =>
        let cut : FreeNode :=
          ⟨best.before ++ [left], { node with totalQ := qmax }, right :: best.after⟩
        (some cut, cut.list, mem)

/-- `qdma_get_resource_node`: the node for the request, and the free list. -/
def qdmaGetResourceNode (qmax : ℕ) (qbase : ℤ) (free : List ResourceEntry)
    (mem : CallocResults) : Option FreeNode × List ResourceEntry × CallocResults :=
  let requested := if qbase ≥ 0 then findRequested qmax qbase [] free else none
  match requested with
  | some best => fragmentFreeList qmax qbase best mem
  | none =>
    match findBestFit qmax none [] free with
    | some best => fragmentFreeList qmax best.node.qbase best mem
    | none => (none, free, mem)

/-- `qdma_request_q_resource`: the return value, the caller's entry and the free
list. A request that cannot be met asks for the old range again. -/
def qdmaRequestQResource (entry : ResourceEntry) (newQmax : ℕ) (newQbase : ℤ)
    (free : List ResourceEntry) (mem : CallocResults) :
    ℤ × ResourceEntry × List ResourceEntry × CallocResults :=
  let qmax := entry.totalQ
  let qbase := entry.qbase
  match qdmaSubmitToFreeList entry free mem with
  | (entry, free, mem) =>
    if newQmax = 0 then (0, entry, free, mem)
    else match qdmaGetResourceNode newQmax newQbase free mem with
      | (some new, _, mem) => (QDMA_SUCCESS, new.node, new.before ++ new.after, mem)
      | (none, free, mem) =>
        match qdmaGetResourceNode qmax qbase free mem with
        | (some old, _, mem) =>
          (-QDMA_ERR_RM_NO_QUEUES_LEFT, old.node, old.before ++ old.after, mem)
        | (none, free, mem) => (-QDMA_ERR_RM_NO_QUEUES_LEFT, ⟨-1, 0⟩, free, mem)

/-! ## Masters and device entries -/

/-- `qdma_find_master_resource_entry`. -/
def qdmaFindMasterResourceEntry (s : ResourceState) (busStart busEnd : ℕ) :
    Option ResourceMaster :=
  s.masterResourceList.find? fun m =>
    decide (m.pciBusStart = busStart) && decide (m.pciBusEnd = busEnd)

/-- `qdma_get_master_resource_entry`. -/
def qdmaGetMasterResourceEntry (s : ResourceState) (dmaDeviceIndex : ℕ) : Option ResourceMaster :=
  s.masterResourceList.find? fun m => decide (m.dmaDeviceIndex = dmaDeviceIndex)

/-- The loop of `qdma_get_dev_entry` over the entries of one master. -/
def ResourceMaster.devEntry (m : ResourceMaster) (funcId : ℕ) : Option DevEntry :=
  m.devList.find? fun d => decide (d.funcId = funcId)

/-- `qdma_get_dev_entry`. -/
def qdmaGetDevEntry (s : ResourceState) (dmaDeviceIndex funcId : ℕ) : Option DevEntry :=
  (qdmaGetMasterResourceEntry s dmaDeviceIndex).bind fun m => m.devEntry funcId

/-- Write back the first list element that satisfies `p`. -/
def writeFirst {α : Type*} (p : α → Bool) (a : α) : List α → List α
  | [] => []
  | b :: l => if p b then a :: l else b :: writeFirst p a l

/-- Write a master back to the list it was found in. -/
def ResourceState.setMaster (s : ResourceState) (m : ResourceMaster) : ResourceState :=
  { s with masterResourceList :=
      writeFirst (fun n => decide (n.dmaDeviceIndex = m.dmaDeviceIndex)) m s.masterResourceList }

/-- Write a device entry back to the list it was found in. -/
def ResourceMaster.setDev (m : ResourceMaster) (d : DevEntry) : ResourceMaster :=
  { m with devList := writeFirst (fun e => decide (e.funcId = d.funcId)) d m.devList }

/-- The master that `qdma_master_resource_create` sets up: all its queues are free. -/
def newMaster (index busStart busEnd : ℕ) (qBase : ℤ) (totalQ : ℕ) : ResourceMaster :=
  { dmaDeviceIndex := index, pciBusStart := busStart, pciBusEnd := busEnd
    totalQ := totalQ, qbase := qBase, freeList := [⟨qBase, totalQ⟩] }

/-- `qdma_master_resource_create`: the return value, `*dma_device_index` and the
new state. -/
def qdmaMasterResourceCreate (s : ResourceState) (busStart busEnd : ℕ) (qBase : ℤ)
    (totalQ : ℕ) (mem : CallocResults) : ℤ × ℕ × ResourceState :=
  match qdmaFindMasterResourceEntry s busStart busEnd with
  | some m => (-QDMA_ERR_RM_RES_EXISTS, m.dmaDeviceIndex, s)
  | none =>
    match qdmaCalloc mem with
    | (false, _) => (-QDMA_ERR_NO_MEM, s.index, s)
    | (true, mem) =>
      match qdmaCalloc mem with
      | (false, _) => (-QDMA_ERR_NO_MEM, s.index, s)
      | (true, _) =>
        let master := newMaster s.index busStart busEnd qBase totalQ
        (QDMA_SUCCESS, s.index,
          { masterResourceList := s.masterResourceList ++ [master], index := u32 (s.index + 1) })

/-- `qdma_dev_entry_create`. -/
def qdmaDevEntryCreate (s : ResourceState) (dmaDeviceIndex funcId : ℕ) (mem : CallocResults) :
    ℤ × ResourceState :=
  match qdmaGetMasterResourceEntry s dmaDeviceIndex with
  | none => (-QDMA_ERR_RM_RES_NOT_EXISTS, s)
  | some m =>
    match m.devEntry funcId with
    | some _ => (-QDMA_ERR_RM_DEV_EXISTS, s)
    | none =>
      match qdmaCalloc mem with
      | (false, _) => (-QDMA_ERR_NO_MEM, s)
      | (true, _) =>
        let d : DevEntry := { funcId := funcId, entry := ⟨-1, 0⟩ }
        (QDMA_SUCCESS, s.setMaster { m with devList := m.devList ++ [d] })

/-- `qdma_dev_entry_destroy`. -/
def qdmaDevEntryDestroy (s : ResourceState) (dmaDeviceIndex funcId : ℕ) (mem : CallocResults) :
    ResourceState :=
  match qdmaGetMasterResourceEntry s dmaDeviceIndex with
  | none => s
  | some m =>
    match m.devEntry funcId with
    | none => s
    | some d =>
      match qdmaSubmitToFreeList d.entry m.freeList mem with
      | (_, free, _) =>
        s.setMaster { m with
          devList := m.devList.eraseP (fun e => decide (e.funcId = funcId)), freeList := free }

/-- `qdma_dev_update`: the return value, `*qbase` and the new state. -/
def qdmaDevUpdate (s : ResourceState) (dmaDeviceIndex funcId qmax : ℕ) (qbase : ℤ)
    (mem : CallocResults) : ℤ × ℤ × ResourceState :=
  match qdmaGetMasterResourceEntry s dmaDeviceIndex with
  | none => (-QDMA_ERR_RM_RES_NOT_EXISTS, qbase, s)
  | some m =>
    match m.devEntry funcId with
    | none => (-QDMA_ERR_RM_DEV_NOT_EXISTS, qbase, s)
    | some d =>
      if d.activeH2cQcnt ≠ 0 ∨ d.activeC2hQcnt ≠ 0 ∨ d.activeCmptQcnt ≠ 0 then
        (-QDMA_ERR_RM_QMAX_CONF_REJECTED, qbase, s)
      else
        match qdmaRequestQResource d.entry qmax qbase m.freeList mem with
        | (rv, entry, free, _) =>
          let m := { m with freeList := free }
          (rv, entry.qbase, s.setMaster (m.setDev { d with entry := entry }))

/-- `enum qdma_dev_q_range`. -/
inductive DevQRange
  | outOfRange
  | inRange
  deriving DecidableEq, Repr

/-- The range test of `qdma_dev_is_queue_in_range` on one device entry. -/
def DevEntry.isQueueInRange (d : DevEntry) (qidHw : ℕ) : Bool :=
  let qmax := u32 (d.entry.qbase + d.entry.totalQ)
  decide (d.entry.totalQ ≠ 0) && decide (qidHw < qmax) && decide (s32 qidHw ≥ d.entry.qbase)

/-- `qdma_dev_is_queue_in_range`. -/
def qdmaDevIsQueueInRange (s : ResourceState) (dmaDeviceIndex funcId qidHw : ℕ) : DevQRange :=
  match qdmaGetDevEntry s dmaDeviceIndex funcId with
  | none => .outOfRange
  | some d => if d.isQueueInRange qidHw then .inRange else .outOfRange

end OnicDriver.Resource
