import OnicDriver.Queue.Request
import Mathlib.Data.List.Count

/-!
# Transmitting a packet

`onic_start_xmit` and the completion callback `onic_tx_done` as the sequence
of what they do to the socket buffer, the request and the DMA mappings. The
end of the file names the fault patterns under which everything is given back
exactly once.
-/

namespace OnicDriver.Netdev

open Lib

/-- The parts of a `struct sk_buff` that transmission looks at; `frags` are the sizes of
its fragments. -/
structure Skb where
  len : ℕ
  headlen : ℕ
  frags : List ℕ
  gso : Bool
  queueMapping : ℕ
  frags_le : frags.length ≤ MAX_SKB_FRAGS

/-- What happens to the resources of a transmission. `read` is an access of
`onic_start_xmit` to the socket buffer. -/
inductive TxEvent
  | read
  | consume
  | reqAlloc
  | reqFree
  | map (dmaAddr len : ℕ)
  | unmap (dmaAddr len : ℕ)
  | queued
  deriving DecidableEq, Repr

/-- The queue that `qdma_queue_packet_write` looks up. -/
structure TxQueue where
  st : Bool
  qType : QType
  online : Bool
  deriving DecidableEq, Repr

/-- What a transmission depends on besides the packet: the state of the device, the
outcomes of the calls that can fail, and whether the completion callback runs before
`onic_start_xmit` goes on. -/
structure TxEnv where
  carrierOk : Bool
  realNumTxQueues : ℕ
  skbPutPadto : Skb → Option Skb
  kmemCacheZalloc : Option ℕ
  dmaMapSingle : Option ℕ
  skbFragDmaMap : ℕ → Option ℕ
  devHndlOk : Bool
  descq : Option TxQueue
  sglMap : ℤ
  doneEarly : Bool

/-- The outcome of a transmission: the return value of `onic_start_xmit`, everything that
happened until the transmission ended, and the increments of the queue statistics. -/
structure TxResult where
  ret : ℤ
  events : List TxEvent
  txPackets : ℕ := 0
  txBytes : ℕ := 0
  txDropped : ℕ := 0

def DMA_MAPPING_ERROR : ℕ := 2 ^ 64 - 1

/-! ## The functions -/

/-- The fragment loop of `onic_unmap_free_pkt_data`. -/
def unmapFrags : List ℕ → List SwSg → List TxEvent
  | size :: frags, sg :: sgl => .unmap sg.dmaAddr size :: unmapFrags frags sgl
  | _, _ => []

/-- `onic_unmap_free_pkt_data`. The device and the socket buffer of a request are set as
soon as it is allocated. -/
def onicUnmapFreePktData (skb : Skb) (req : QdmaRequest) : ℤ × List TxEvent :=
  match req.uldData, req.sgl with
  | some _, qdmaSgl :: next =>
    (0, .unmap qdmaSgl.dmaAddr skb.headlen :: unmapFrags skb.frags next ++ [.consume, .reqFree])
  | _, _ => (-EINVAL, [])

/-- `onic_tx_done`. -/
def onicTxDone (skb : Skb) (req : QdmaRequest) : List TxEvent := (onicUnmapFreePktData skb req).2

/-- What follows the label `free_packet_data` of `onic_start_xmit`. -/
def freePacketData (skb : Skb) (req : QdmaRequest) : List TxEvent :=
  match onicUnmapFreePktData skb req with
  | (ret, events) => if ret ≠ 0 then events ++ [.reqFree] else events

/-- The fragment loop of `onic_start_xmit`: whether all fragments were mapped, the request
and what happened. The element that could not be mapped stays in the list. -/
def mapFrags (skbFragDmaMap : ℕ → Option ℕ) :
    ℕ → List ℕ → QdmaRequest → Bool × QdmaRequest × List TxEvent
  | _, [], req => (true, req, [])
  | fragIndex, size :: frags, req =>
    let req := { req with count := u32 (req.count + size) }
    match skbFragDmaMap fragIndex with
    | none =>
      (false, { req with sgl := req.sgl ++ [{ len := size, dmaAddr := DMA_MAPPING_ERROR }] },
        [.read])
    | some dmaAddr =>
      match mapFrags skbFragDmaMap (fragIndex + 1) frags { req with
          sgl := req.sgl ++ [{ len := size, dmaAddr := dmaAddr }], sgcnt := req.sgcnt + 1 } with
      | (ok, req, events) => (ok, req, .read :: .map dmaAddr size :: events)

/-- `qdma_queue_packet_write`: the return value, and whether the request was put on the
work list of the queue. -/
def qdmaQueuePacketWrite (env : TxEnv) (req : QdmaRequest) : ℤ × Bool :=
  if env.devHndlOk = false then (-EINVAL, false)
  else match env.descq with
  | none => (-EINVAL, false)
  | some descq =>
    if descq.st = false ∨ descq.qType = .c2h then (-EINVAL, false)
    -- the request is on the work list from here on, also when an error is returned
    else if req.dmaMapped = false ∧ env.sglMap < 0 then (env.sglMap, true)
    else if req.checkQstateDisabled = false ∧ descq.online = false then (-EINVAL, true)
    else (s32 req.count, true)

/-- `onic_start_xmit` from the call of `qdma_queue_packet_write` on. A queued request is
completed once, before or after the rest of the function runs. -/
def submitPacket (env : TxEnv) (skb : Skb) (req : QdmaRequest) (events : List TxEvent) :
    TxResult :=
  match qdmaQueuePacketWrite env req with
  | (count, false) =>
    { ret := count, events := events ++ freePacketData skb req, txDropped := 1 }
  | (count, true) =>
    let rest := if count < 0 then freePacketData skb req else [.read]
    let ended := if env.doneEarly then onicTxDone skb req ++ rest else rest ++ onicTxDone skb req
    if count < 0 then { ret := count, events := events ++ .queued :: ended, txDropped := 1 }
    else
      { ret := NETDEV_TX_OK, events := events ++ .queued :: ended
        txPackets := 1, txBytes := skb.len }

/-- The request of `onic_start_xmit` after the head of the packet was mapped. -/
def headRequest (skb : Skb) (dmaAddr : ℕ) : QdmaRequest :=
  { sgl := [{ len := skb.headlen, dmaAddr := dmaAddr }], count := skb.headlen }

/-- `onic_start_xmit` from the allocation of the request on, for a padded packet. -/
def transmitPacket (env : TxEnv) (skb : Skb) (onicReq : ℕ) : TxResult :=
  match env.dmaMapSingle with
  | none =>
    { ret := -EFAULT
      events := [.read, .reqAlloc, .read] ++ freePacketData skb (headRequest skb DMA_MAPPING_ERROR)
      txDropped := 1 }
  | some dmaAddr =>
    let events := [.read, .reqAlloc, .read, .map dmaAddr skb.headlen]
    match mapFrags env.skbFragDmaMap 0 skb.frags { headRequest skb dmaAddr with sgcnt := 1 } with
    | (false, req, fragEvents) =>
      { ret := -EFAULT, events := events ++ fragEvents ++ freePacketData skb req, txDropped := 1 }
    | (true, req, fragEvents) =>
      submitPacket env skb { req with
        dmaMapped := true, checkQstateDisabled := true, fpDone := true
        uldData := some onicReq } (events ++ fragEvents)

/-- `onic_start_xmit`, followed by the completion of the packet if it was queued.
`skb_put_padto` frees the socket buffer when it fails. -/
def onicStartXmit (env : TxEnv) (skb : Skb) : TxResult :=
  if env.carrierOk = false then { ret := -EINVAL, events := [.consume] }
  else if skb.gso then { ret := -EINVAL, events := [.read] }
  else match env.skbPutPadto skb with
  | none => { ret := -EINVAL, events := [.read, .consume, .consume] }
  | some skb =>
    if skb.queueMapping ≥ env.realNumTxQueues then { ret := -EINVAL, events := [.read, .consume] }
    else match env.kmemCacheZalloc with
    | none => { ret := -ENOMEM, events := [.read] }
    | some onicReq => transmitPacket env skb onicReq

/-! ## Ownership -/

/-- Everything a transmission took is given back exactly once: the socket buffer is
consumed, or kept exactly when `NETDEV_TX_BUSY` is returned; every mapping is undone, none
before it was made; the request is freed; and the socket buffer is not read once the packet
is queued. -/
structure TransmitOk (r : TxResult) : Prop where
  consumed : r.events.count .consume = if r.ret = NETDEV_TX_BUSY then 0 else 1
  unmapped : ∀ dmaAddr len, r.events.count (.unmap dmaAddr len) = r.events.count (.map dmaAddr len)
  mappedBefore : ∀ before after, r.events = before ++ after → ∀ dmaAddr len,
    before.count (.unmap dmaAddr len) ≤ before.count (.map dmaAddr len)
  freed : r.events.count .reqFree = r.events.count .reqAlloc
  notRead : ∀ before after, r.events = before ++ .queued :: after → .read ∉ after

/-- The queue library rejects a packet before it queues it. -/
def WriteRejected (env : TxEnv) : Prop :=
  env.devHndlOk = false ∨ ∀ descq, env.descq = some descq → descq.st = false ∨ descq.qType = .c2h

/-- The transmissions that give everything back. -/
def ReleasesAll (env : TxEnv) (skb : Skb) : Prop :=
  env.carrierOk = false ∨
    (skb.gso = false ∧ ∃ padded, env.skbPutPadto skb = some padded ∧
      (env.realNumTxQueues ≤ padded.queueMapping ∨
        (env.kmemCacheZalloc ≠ none ∧ env.dmaMapSingle ≠ none ∧
          (∀ fragIndex < padded.frags.length, env.skbFragDmaMap fragIndex ≠ none) ∧
          WriteRejected env)))

/-! ## The loops -/

section Loops

variable {f : ℕ → Option ℕ} {i : ℕ} {l : List ℕ} {r : QdmaRequest}

/-- The mapping loop reads the socket buffer and makes mappings. -/
theorem mapFrags_events : ∀ e ∈ (mapFrags f i l r).2.2,
    e = .read ∨ ∃ dmaAddr len, e = .map dmaAddr len := by
  induction l generalizing i r with
  | nil => simp [mapFrags]
  | cons size l ih =>
    unfold mapFrags
    cases f i with
    | none => simp
    | some dmaAddr =>
      intro e he
      rcases List.mem_cons.mp he with rfl | he
      · exact Or.inl rfl
      · rcases List.mem_cons.mp he with rfl | he
        · exact Or.inr ⟨dmaAddr, size, rfl⟩
        · exact ih e he

/-- The mapping loop succeeds when every fragment can be mapped. -/
theorem mapFrags_ok_iff : (mapFrags f i l r).1 = true ↔
    ∀ k < l.length, f (i + k) ≠ none := by
  induction l generalizing i r with
  | nil => simp [mapFrags]
  | cons size l ih =>
    unfold mapFrags
    rw [List.length_cons]
    cases hmap : f i with
    | none =>
      simp only [Bool.false_eq_true, false_iff, not_forall]
      exact ⟨0, Nat.succ_pos _, by simp [hmap]⟩
    | some dmaAddr =>
      dsimp only
      rw [ih]
      constructor
      · intro h k hk
        cases k with
        | zero => simp [hmap]
        | succ k =>
          have hnext := h k (by omega)
          rwa [show i + (k + 1) = i + 1 + k by omega]
      · intro h k hk
        have hnext := h (k + 1) (by omega)
        rwa [show i + (k + 1) = i + 1 + k by omega] at hnext

/-- The mapping loop leaves the pointer of the client alone. -/
theorem mapFrags_uldData :
    (mapFrags f i l r).2.1.uldData = r.uldData := by
  induction l generalizing i r with
  | nil => rfl
  | cons size l ih =>
    unfold mapFrags
    cases f i with
    | none => rfl
    | some dmaAddr => exact ih

/-- The elements appended by a successful mapping loop undo exactly its mappings. -/
theorem mapFrags_unmapFrags (hok : (mapFrags f i l r).1 = true) :
    ∃ sgl, (mapFrags f i l r).2.1.sgl = r.sgl ++ sgl ∧
      ∀ dmaAddr len, (unmapFrags l sgl).count (.unmap dmaAddr len) =
        (mapFrags f i l r).2.2.count (.map dmaAddr len) := by
  induction l generalizing i r with
  | nil => exact ⟨[], by simp [mapFrags], by simp [mapFrags, unmapFrags]⟩
  | cons size l ih =>
    unfold mapFrags at hok ⊢
    cases hmap : f i with
    | none => simp [hmap] at hok
    | some dmaAddr =>
      rw [hmap] at hok
      obtain ⟨sgl, hsgl, hcount⟩ := ih hok
      refine ⟨{ len := size, dmaAddr := dmaAddr } :: sgl, ?_, ?_⟩
      · dsimp only
        rw [hsgl]
        simp
      · intro addr len
        simp only [unmapFrags, List.count_cons, hcount, beq_iff_eq, TxEvent.unmap.injEq,
          TxEvent.map.injEq, reduceCtorEq, if_false, add_zero]

/-- The unmapping loop only undoes mappings. -/
theorem unmapFrags_events {sgl : List SwSg} :
    ∀ e ∈ unmapFrags l sgl, ∃ dmaAddr len, e = .unmap dmaAddr len := by
  induction l generalizing sgl with
  | nil => simp [unmapFrags]
  | cons size l ih =>
    cases sgl with
    | nil => simp [unmapFrags]
    | cons sg sgl =>
      intro e he
      rcases List.mem_cons.mp he with rfl | he
      · exact ⟨sg.dmaAddr, size, rfl⟩
      · exact ih e he

end Loops

/-! ## Complete transmissions -/

/-- An event by which the driver takes something or looks at the socket buffer. -/
def TxEvent.Takes : TxEvent → Prop
  | .read | .reqAlloc | .map _ _ => True
  | _ => False

/-- An event that undoes a mapping. -/
def TxEvent.Unmaps : TxEvent → Prop
  | .unmap _ _ => True
  | _ => False

section Balance

variable {taken undone : List TxEvent}

theorem count_eq_zero_of_takes (htaken : ∀ e ∈ taken, e.Takes) {e : TxEvent} (he : ¬ e.Takes) :
    taken.count e = 0 :=
  List.count_eq_zero.mpr fun hmem => he (htaken e hmem)

theorem count_eq_zero_of_unmaps (hundone : ∀ e ∈ undone, e.Unmaps) {e : TxEvent}
    (he : ¬ e.Unmaps) : undone.count e = 0 :=
  List.count_eq_zero.mpr fun hmem => he (hundone e hmem)

/-- A transmission that takes, undoes its mappings, and then consumes the packet and frees
the request. -/
theorem transmitOk_of_undone {r : TxResult} (hret : r.ret ≠ NETDEV_TX_BUSY)
    (hevents : r.events = taken ++ (undone ++ [.consume, .reqFree]))
    (htaken : ∀ e ∈ taken, e.Takes) (hundone : ∀ e ∈ undone, e.Unmaps)
    (halloc : taken.count .reqAlloc = 1)
    (hcount : ∀ dmaAddr len, undone.count (.unmap dmaAddr len) = taken.count (.map dmaAddr len)) :
    TransmitOk r := by
  have htail : ∀ dmaAddr len,
      (undone ++ [TxEvent.consume, .reqFree]).count (.unmap dmaAddr len) =
        taken.count (.map dmaAddr len) := by
    intro dmaAddr len
    rw [List.count_append, hcount]
    simp
  refine ⟨?_, ?_, ?_, ?_, ?_⟩
  · rw [hevents, if_neg hret, List.count_append, List.count_append,
      count_eq_zero_of_takes htaken (by simp [TxEvent.Takes]),
      count_eq_zero_of_unmaps hundone (by simp [TxEvent.Unmaps])]
    rfl
  · intro dmaAddr len
    have hmaps : (undone ++ [TxEvent.consume, .reqFree]).count (.map dmaAddr len) = 0 := by
      rw [List.count_append, count_eq_zero_of_unmaps hundone (by simp [TxEvent.Unmaps])]
      simp
    rw [hevents, List.count_append, htail, List.count_append, hmaps,
      count_eq_zero_of_takes htaken (by simp [TxEvent.Takes]), zero_add, add_zero]
  · intro before after hsplit dmaAddr len
    rw [hevents] at hsplit
    rcases List.append_eq_append_iff.mp hsplit with ⟨c, rfl, hrest⟩ | ⟨c, rfl, hrest⟩
    · -- the prefix reaches into the events that undo
      have hle : c.count (.unmap dmaAddr len) ≤ taken.count (.map dmaAddr len) := by
        rw [← htail, hrest, List.count_append]
        exact Nat.le_add_right _ _
      rw [List.count_append, List.count_append,
        count_eq_zero_of_takes htaken (by simp [TxEvent.Takes])]
      omega
    · have hnone : before.count (.unmap dmaAddr len) = 0 :=
        count_eq_zero_of_takes (fun e he => htaken e (List.mem_append_left _ he))
          (by simp [TxEvent.Takes])
      omega
  · rw [hevents, List.count_append, List.count_append, List.count_append, List.count_append,
      halloc, count_eq_zero_of_takes htaken (by simp [TxEvent.Takes]),
      count_eq_zero_of_unmaps hundone (by simp [TxEvent.Unmaps]),
      count_eq_zero_of_unmaps hundone (by simp [TxEvent.Unmaps])]
    rfl
  · intro before after hsplit
    have hqueued : TxEvent.queued ∈ taken ++ (undone ++ [.consume, .reqFree]) := by
      rw [← hevents, hsplit]
      simp
    simp only [List.mem_append, List.mem_cons, reduceCtorEq, List.not_mem_nil, or_false] at hqueued
    rcases hqueued with hqueued | hqueued
    · exact absurd (htaken _ hqueued) (by simp [TxEvent.Takes])
    · exact absurd (hundone _ hqueued) (by simp [TxEvent.Unmaps])

/-- A transmission that keeps the packet without saying so. -/
theorem not_transmitOk_of_kept {ret : ℤ} {events : List TxEvent} {packets bytes dropped : ℕ}
    (hret : ret ≠ NETDEV_TX_BUSY) (hcount : events.count .consume ≠ 1) :
    ¬ TransmitOk ⟨ret, events, packets, bytes, dropped⟩ := by
  intro h
  have hconsumed := h.consumed
  rw [if_neg hret] at hconsumed
  exact hcount hconsumed

/-- A packet refused at the start, which is consumed before anything is taken. -/
theorem transmitOk_of_refused {ret : ℤ} {events : List TxEvent} {packets bytes dropped : ℕ}
    (hret : ret ≠ NETDEV_TX_BUSY)
    (hevents : events = [.consume] ∨ events = [.read, .consume]) :
    TransmitOk ⟨ret, events, packets, bytes, dropped⟩ := by
  have hnoMap : ∀ dmaAddr len, .unmap dmaAddr len ∉ events := by
    rcases hevents with rfl | rfl <;> simp
  have hnoQueue : TxEvent.queued ∉ events := by
    rcases hevents with rfl | rfl <;> simp
  refine ⟨?_, ?_, ?_, ?_, ?_⟩
  · rw [if_neg hret]
    rcases hevents with rfl | rfl <;> rfl
  · intro dmaAddr len
    rcases hevents with rfl | rfl <;> simp
  · intro before after hsplit dmaAddr len
    have hzero : before.count (.unmap dmaAddr len) = 0 := by
      refine List.count_eq_zero.mpr fun hmem => hnoMap dmaAddr len ?_
      rw [show events = before ++ after from hsplit]
      exact List.mem_append_left _ hmem
    omega
  · rcases hevents with rfl | rfl <;> rfl
  · intro before after hsplit
    refine absurd ?_ hnoQueue
    rw [show events = before ++ .queued :: after from hsplit]
    simp

end Balance

/-! ## Every exit -/

section Exits

variable {env : TxEnv} {skb : Skb} {onicReq : ℕ}

/-- Unwinding a request whose client pointer is not set only frees the request. -/
theorem freePacketData_of_unset {req : QdmaRequest} (h : req.uldData = none) :
    freePacketData skb req = [.reqFree] := by
  simp [freePacketData, onicUnmapFreePktData, h, EINVAL]

/-- Unwinding and completing a prepared request undo its mappings and consume the packet. -/
theorem onicUnmapFreePktData_of_set {req : QdmaRequest} {sg : SwSg} {sgl : List SwSg}
    (huld : req.uldData = some onicReq) (hsgl : req.sgl = sg :: sgl) :
    onicUnmapFreePktData skb req =
      (0, .unmap sg.dmaAddr skb.headlen :: unmapFrags skb.frags sgl ++ [.consume, .reqFree]) := by
  simp [onicUnmapFreePktData, huld, hsgl]

theorem freePacketData_of_set {req : QdmaRequest} {sg : SwSg} {sgl : List SwSg}
    (huld : req.uldData = some onicReq) (hsgl : req.sgl = sg :: sgl) :
    freePacketData skb req =
      .unmap sg.dmaAddr skb.headlen :: unmapFrags skb.frags sgl ++ [.consume, .reqFree] := by
  simp [freePacketData, onicUnmapFreePktData_of_set huld hsgl]

/-- For the requests of `onic_start_xmit` an error means that nothing was queued. -/
theorem qdmaQueuePacketWrite_cases (env : TxEnv) {req : QdmaRequest}
    (hmapped : req.dmaMapped = true) (hcheck : req.checkQstateDisabled = true) :
    (WriteRejected env ∧ qdmaQueuePacketWrite env req = (-EINVAL, false)) ∨
      (¬ WriteRejected env ∧ qdmaQueuePacketWrite env req = (s32 req.count, true)) := by
  unfold qdmaQueuePacketWrite WriteRejected
  cases hhndl : env.devHndlOk with
  | false => simp
  | true =>
    cases hdescq : env.descq with
    | none => simp
    | some descq =>
      by_cases hconf : descq.st = false ∨ descq.qType = .c2h
      · simp [hconf]
      · simp [hconf, hmapped, hcheck]

/-- A prepared packet gives everything back exactly when the queue library rejects it. -/
theorem submitPacket_transmitOk_iff {req : QdmaRequest} {sg : SwSg} {sgl : List SwSg}
    {taken : List TxEvent} (huld : req.uldData = some onicReq) (hsgl : req.sgl = sg :: sgl)
    (hmapped : req.dmaMapped = true) (hcheck : req.checkQstateDisabled = true)
    (htaken : ∀ e ∈ taken, e.Takes) (halloc : taken.count .reqAlloc = 1)
    (hcount : ∀ dmaAddr len,
      (TxEvent.unmap sg.dmaAddr skb.headlen :: unmapFrags skb.frags sgl).count
      (.unmap dmaAddr len) = taken.count (.map dmaAddr len)) :
    TransmitOk (submitPacket env skb req taken) ↔ WriteRejected env := by
  have hundone : ∀ e ∈ TxEvent.unmap sg.dmaAddr skb.headlen :: unmapFrags skb.frags sgl,
      e.Unmaps := by
    intro e he
    rcases List.mem_cons.mp he with rfl | he
    · trivial
    · obtain ⟨dmaAddr, len, rfl⟩ := unmapFrags_events e he
      trivial
  have hnone : ∀ l : List TxEvent, (∀ e ∈ l, e.Takes) → l.count .consume = 0 :=
    fun l hl => count_eq_zero_of_takes hl (by simp [TxEvent.Takes])
  rcases qdmaQueuePacketWrite_cases env hmapped hcheck with ⟨hrej, hwrite⟩ | ⟨hacc, hwrite⟩
  · refine iff_of_true ?_ hrej
    unfold submitPacket
    rw [hwrite]
    have hret : -EINVAL ≠ NETDEV_TX_BUSY := by decide
    exact transmitOk_of_undone hret (by rw [freePacketData_of_set huld hsgl]) htaken hundone
      halloc hcount
  · refine iff_of_false ?_ hacc
    unfold submitPacket
    rw [hwrite]
    dsimp only
    have hdone : (onicTxDone skb req).count .consume = 1 := by
      unfold onicTxDone
      rw [onicUnmapFreePktData_of_set huld hsgl, List.count_append,
        count_eq_zero_of_unmaps hundone (by simp [TxEvent.Unmaps])]
      rfl
    by_cases hneg : s32 req.count < 0
    · -- a count above `INT_MAX` is taken for an error although the packet is queued
      have hfree : (freePacketData skb req).count .consume = 1 := by
        rw [freePacketData_of_set huld hsgl, List.count_append,
          count_eq_zero_of_unmaps hundone (by simp [TxEvent.Unmaps])]
        rfl
      rw [if_pos hneg, if_pos hneg]
      refine not_transmitOk_of_kept ?_ ?_
      · unfold NETDEV_TX_BUSY
        omega
      · rw [List.count_append, List.count_cons, hnone taken htaken]
        split <;> simp [List.count_append, hdone, hfree]
    · rw [if_neg hneg, if_neg hneg]
      intro h
      refine h.notRead _ _ rfl ?_
      split <;> simp

/-- The outcome after the request was allocated. -/
theorem transmitPacket_transmitOk_iff :
    TransmitOk (transmitPacket env skb onicReq) ↔
      env.dmaMapSingle ≠ none ∧
        (∀ fragIndex < skb.frags.length, env.skbFragDmaMap fragIndex ≠ none) ∧
        WriteRejected env := by
  unfold transmitPacket
  cases hhead : env.dmaMapSingle with
  | none =>
    dsimp only
    rw [freePacketData_of_unset rfl]
    exact iff_of_false (not_transmitOk_of_kept (by decide) (by decide)) (by simp)
  | some dmaAddr =>
    obtain ⟨ok, req, fragEvents, hmap⟩ : ∃ ok req fragEvents, mapFrags env.skbFragDmaMap 0 skb.frags
        { headRequest skb dmaAddr with sgcnt := 1 } = (ok, req, fragEvents) := ⟨_, _, _, rfl⟩
    have hok := mapFrags_ok_iff (f := env.skbFragDmaMap) (i := 0) (l := skb.frags)
      (r := { headRequest skb dmaAddr with sgcnt := 1 })
    have huld := mapFrags_uldData (f := env.skbFragDmaMap) (i := 0) (l := skb.frags)
      (r := { headRequest skb dmaAddr with sgcnt := 1 })
    have hevents := mapFrags_events (f := env.skbFragDmaMap) (i := 0) (l := skb.frags)
      (r := { headRequest skb dmaAddr with sgcnt := 1 })
    have hundo := mapFrags_unmapFrags (f := env.skbFragDmaMap) (i := 0) (l := skb.frags)
      (r := { headRequest skb dmaAddr with sgcnt := 1 })
    simp only [hmap, zero_add] at hok huld hevents hundo
    dsimp only
    rw [hmap]
    have htaken : ∀ e ∈ [TxEvent.read, .reqAlloc, .read, .map dmaAddr skb.headlen] ++ fragEvents,
        e.Takes := by
      intro e he
      rcases List.mem_append.mp he with he | he
      · simp only [List.mem_cons, List.not_mem_nil, or_false] at he
        rcases he with rfl | rfl | rfl | rfl <;> trivial
      · rcases hevents e he with rfl | ⟨addr, len, rfl⟩ <;> trivial
    cases ok with
    | false =>
      dsimp only
      rw [freePacketData_of_unset huld]
      refine iff_of_false (not_transmitOk_of_kept (by decide) ?_) fun h => ?_
      · rw [List.count_append, count_eq_zero_of_takes htaken (by simp [TxEvent.Takes])]
        decide
      · exact absurd (hok.mpr h.2.1) (by simp)
    | true =>
      obtain ⟨sgl, hsgl, hcount⟩ := hundo rfl
      have hsgl : req.sgl = { len := skb.headlen, dmaAddr := dmaAddr } :: sgl := hsgl
      have halloc : ([TxEvent.read, .reqAlloc, .read, .map dmaAddr skb.headlen] ++
          fragEvents).count .reqAlloc = 1 := by
        have hnone : fragEvents.count .reqAlloc = 0 := by
          refine List.count_eq_zero.mpr fun hmem => ?_
          rcases hevents _ hmem with h | ⟨addr, len, h⟩ <;> cases h
        rw [List.count_append, hnone]
        simp
      dsimp only
      refine Iff.trans (submitPacket_transmitOk_iff rfl hsgl rfl rfl htaken halloc ?_) ?_
      · intro addr len
        rw [List.count_cons, hcount, List.count_append]
        simp [List.count_cons, add_comm]
      · exact ⟨fun h => ⟨by simp, hok.mp rfl, h⟩, fun h => h.2.2⟩

/-- A transmission gives back everything exactly once if and only if the carrier is down, or
the packet needs no segmentation, could be padded, and is then either refused for its queue
mapping or fully mapped and rejected by the queue library. -/
theorem onicStartXmit_transmitOk_iff (env : TxEnv) (skb : Skb) :
    TransmitOk (onicStartXmit env skb) ↔ ReleasesAll env skb := by
  unfold onicStartXmit ReleasesAll
  by_cases hcarrier : env.carrierOk = false
  · rw [if_pos hcarrier]
    have hret : -EINVAL ≠ NETDEV_TX_BUSY := by decide
    exact iff_of_true (transmitOk_of_refused hret (by simp)) (Or.inl hcarrier)
  · rw [if_neg hcarrier]
    simp only [hcarrier, Bool.true_eq_false, false_or]
    cases hgso : skb.gso with
    | true => exact iff_of_false (not_transmitOk_of_kept (by decide) (by decide)) (by simp)
    | false =>
      simp only [Bool.false_eq_true, if_false, true_and]
      cases hpad : env.skbPutPadto skb with
      | none => exact iff_of_false (not_transmitOk_of_kept (by decide) (by decide)) (by simp)
      | some padded =>
        simp only [Option.some.injEq, exists_eq_left']
        by_cases hmapping : env.realNumTxQueues ≤ padded.queueMapping
        · rw [if_pos hmapping]
          have hret : -EINVAL ≠ NETDEV_TX_BUSY := by decide
          exact iff_of_true (transmitOk_of_refused hret (by simp)) (Or.inl hmapping)
        · rw [if_neg hmapping]
          simp only [hmapping, false_or]
          cases halloc : env.kmemCacheZalloc with
          | none => exact iff_of_false (not_transmitOk_of_kept (by decide) (by decide)) (by simp)
          | some onicReq =>
            dsimp only
            rw [transmitPacket_transmitOk_iff]
            simp

end Exits

/-- A segmentation-offload packet is neither consumed nor reported as busy. -/
theorem onicStartXmit_gso_kept :
    (onicStartXmit
      { carrierOk := true, realNumTxQueues := 1, skbPutPadto := some, kmemCacheZalloc := some 1
        dmaMapSingle := some 4096, skbFragDmaMap := fun _ => some 8192, devHndlOk := true
        descq := some { st := true, qType := .h2c, online := true }, sglMap := 0
        doneEarly := false }
      { len := 9000, headlen := 9000, frags := [], gso := true, queueMapping := 0
        frags_le := by decide }).ret ≠ NETDEV_TX_BUSY ∧
    ¬ TransmitOk (onicStartXmit
      { carrierOk := true, realNumTxQueues := 1, skbPutPadto := some, kmemCacheZalloc := some 1
        dmaMapSingle := some 4096, skbFragDmaMap := fun _ => some 8192, devHndlOk := true
        descq := some { st := true, qType := .h2c, online := true }, sglMap := 0
        doneEarly := false }
      { len := 9000, headlen := 9000, frags := [], gso := true, queueMapping := 0
        frags_le := by decide }) :=
  ⟨by decide, not_transmitOk_of_kept (by decide) (by decide)⟩

end OnicDriver.Netdev
