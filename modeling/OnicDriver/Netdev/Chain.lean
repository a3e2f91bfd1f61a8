import OnicDriver.Netdev.Transmit
import Mathlib.Logic.Function.Basic

/-!
# The scatter-gather chain of a packet

`onic_start_xmit` once more, now with the array in which it builds the chain
for the queue library: the elements are linked by pointers, and the pointer to
the next element is taken without a look at the end of the array. The array
has an element for each fragment that a packet may have and none for the head.
-/

namespace OnicDriver.Netdev

open Lib

def ETH_ZLEN : ℕ := 60

/-- A `struct sk_buff` with its data: the linear part and the fragments. -/
structure SkbData where
  head : List UInt8
  frags : List (List UInt8)
  gso : Bool := false
  queueMapping : ℕ := 0
  frags_le : frags.length ≤ MAX_SKB_FRAGS
  len_lt : (head ++ frags.flatten).length < 2 ^ 32

namespace SkbData

/-- The bytes of a packet in their order. -/
def bytes (skb : SkbData) : List UInt8 := skb.head ++ skb.frags.flatten

/-- `skb->len`. -/
def len (skb : SkbData) : ℕ := skb.bytes.length

/-- The packet without its data. -/
def toSkb (skb : SkbData) : Skb where
  len := skb.len
  headlen := skb.head.length
  frags := skb.frags.map List.length
  gso := skb.gso
  queueMapping := skb.queueMapping
  frags_le := by
    rw [List.length_map]
    exact skb.frags_le

end SkbData

/-- `struct qdma_sw_sg` as an element of an array. `next` is the index of the element it points
to, and `mapped` are the bytes behind the DMA address. -/
structure SgElem where
  next : Option ℕ := none
  len : ℕ := 0
  dmaAddr : ℕ := 0
  mapped : List UInt8 := []
  deriving DecidableEq, Repr

/-- `struct onic_dma_request`: the request and the array `sgl`, of which `assigned` are the
indices that were assigned to. What has an index from `MAX_SKB_FRAGS` on is memory behind the
structure. -/
structure OnicDmaRequest where
  qdma : QdmaRequest := {}
  sgl : ℕ → SgElem := fun _ => {}
  assigned : List ℕ := []

/-- An assignment to element `i`. -/
def OnicDmaRequest.setSg (r : OnicDmaRequest) (i : ℕ) (sg : SgElem) : OnicDmaRequest :=
  { r with sgl := Function.update r.sgl i sg, assigned := r.assigned ++ [i] }

/-- The element of a mapped fragment is linked to element `cur`. -/
def OnicDmaRequest.addFrag (r : OnicDmaRequest) (cur : ℕ) (frag : List UInt8) (dmaAddr : ℕ) :
    OnicDmaRequest :=
  let r := r.setSg cur { r.sgl cur with next := some (cur + 1) }
  let r := { r with qdma := { r.qdma with count := u32 (r.qdma.count + frag.length) } }
  let r := r.setSg (cur + 1) { len := frag.length, dmaAddr := dmaAddr, mapped := frag }
  { r with qdma := { r.qdma with sgcnt := r.qdma.sgcnt + 1 } }

/-- The fragment loop of `onic_start_xmit`, with `cur` for `qdma_sgl`: whether all fragments were
mapped, and the request. -/
def chainFrags (skbFragDmaMap : ℕ → Option ℕ) :
    ℕ → List (List UInt8) → ℕ → OnicDmaRequest → Bool × OnicDmaRequest
  | _, [], _, r => (true, r)
  | fragIndex, frag :: frags, cur, r =>
    match skbFragDmaMap fragIndex with
    | none =>
      let r := r.setSg cur { r.sgl cur with next := some (cur + 1) }
      let r := { r with qdma := { r.qdma with count := u32 (r.qdma.count + frag.length) } }
      (false, r.setSg (cur + 1) { len := frag.length, dmaAddr := DMA_MAPPING_ERROR })
    | some dmaAddr =>
      chainFrags skbFragDmaMap (fragIndex + 1) frags (cur + 1) (r.addFrag cur frag dmaAddr)

/-- The request with the head of the packet, which is mapped at `dmaAddr`. -/
def chainHead (skb : SkbData) (dmaAddr : ℕ) : OnicDmaRequest :=
  let r : OnicDmaRequest :=
    { qdma := { count := u32 skb.head.length, sgcnt := 1 } }
  r.setSg 0 { len := skb.head.length, dmaAddr := dmaAddr, mapped := skb.head }

/-- The chain that `onic_start_xmit` builds for a padded packet once it has a request, if it can
map the packet. -/
def buildChain (env : TxEnv) (skb : SkbData) (onicReq : ℕ) : Option OnicDmaRequest :=
  match env.dmaMapSingle with
  | none => none
  | some dmaAddr =>
    match chainFrags env.skbFragDmaMap 0 skb.frags 0 (chainHead skb dmaAddr) with
    | (false, _) => none
    | (true, r) =>
      some { r with qdma := { r.qdma with
        dmaMapped := true, checkQstateDisabled := true, fpDone := true
        uldData := some onicReq } }

/-- The request that `onic_start_xmit` passes to `qdma_queue_packet_write`, if it gets there.
`skbPutPadto` is `skb_put_padto` of the kernel. -/
def onicStartXmitChain (env : TxEnv) (skbPutPadto : SkbData → Option SkbData) (skb : SkbData) :
    Option OnicDmaRequest :=
  if env.carrierOk = false then none
  else if skb.gso then none
  else match skbPutPadto skb with
  | none => none
  | some skb =>
    if skb.queueMapping ≥ env.realNumTxQueues then none
    else match env.kmemCacheZalloc with
    | none => none
    | some onicReq => buildChain env skb onicReq

/-- What `skb_put_padto` does to a packet that it does not drop: one below the least length of an
Ethernet packet is filled up with zeros. -/
def PadsTo (skbPutPadto : SkbData → Option SkbData) : Prop :=
  ∀ skb padded, skbPutPadto skb = some padded →
    padded.bytes = skb.bytes ++ List.replicate (ETH_ZLEN - skb.len) 0

/-- The chain for a packet of the given bytes and number of fragments: one element for the head
and each fragment, all in the array and each linked to the next, with the bytes in their order. -/
structure ChainOk (r : OnicDmaRequest) (bytes : List UInt8) (nrFrags : ℕ) : Prop where
  sgcnt : r.qdma.sgcnt = 1 + nrFrags
  inArray : ∀ i ∈ r.assigned, i < MAX_SKB_FRAGS
  linked : ∀ i < nrFrags, (r.sgl i).next = some (i + 1)
  last : (r.sgl nrFrags).next = none
  lens : ∀ i ≤ nrFrags, (r.sgl i).len = (r.sgl i).mapped.length
  count : r.qdma.count = ((List.range (1 + nrFrags)).map fun i => (r.sgl i).len).sum
  len : r.qdma.count = bytes.length
  order : ((List.range (1 + nrFrags)).flatMap fun i => (r.sgl i).mapped) = bytes

/-! ## The loop -/

/-- The chain so far: `done` are the parts of the packet in the elements up to `cur`. -/
structure ChainTo (r : OnicDmaRequest) (done : List (List UInt8)) (cur : ℕ) : Prop where
  length : done.length = cur + 1
  sgcnt : r.qdma.sgcnt = cur + 1
  assigned : ∀ i, i ∈ r.assigned ↔ i ≤ cur
  linked : ∀ i < cur, (r.sgl i).next = some (i + 1)
  last : (r.sgl cur).next = none
  parts : ∀ i (hi : i < done.length),
    (r.sgl i).mapped = done[i] ∧ (r.sgl i).len = done[i].length
  count : r.qdma.count = done.flatten.length

section

variable {r r' : OnicDmaRequest} {done frags : List (List UInt8)} {frag : List UInt8}
  {cur fragIndex : ℕ} {skbFragDmaMap : ℕ → Option ℕ}

/-- The first element is the head of the packet. -/
theorem chainTo_chainHead (skb : SkbData) (dmaAddr : ℕ) :
    ChainTo (chainHead skb dmaAddr) [skb.head] 0 := by
  have hlen := skb.len_lt
  rw [List.length_append] at hlen
  refine ⟨rfl, rfl, ?_, ?_, rfl, ?_, ?_⟩
  · intro i
    change i ∈ [0] ↔ i ≤ 0
    rw [List.mem_singleton]
    omega
  · intro i hi
    omega
  · intro i hi
    have hzero : i = 0 := by
      rw [List.length_singleton] at hi
      omega
    subst hzero
    exact ⟨rfl, rfl⟩
  · change u32 skb.head.length = [skb.head].flatten.length
    rw [List.flatten_singleton]
    exact u32_natCast (by omega)

/-- One turn of the loop adds the element of a fragment. -/
theorem ChainTo.step (h : ChainTo r done cur) (dmaAddr : ℕ)
    (hlen : done.flatten.length + frag.length < 2 ^ 32) :
    ChainTo (r.addFrag cur frag dmaAddr) (done ++ [frag]) (cur + 1) := by
  have hne (i : ℕ) (hi : i ≤ cur) : i ≠ cur + 1 := by omega
  refine ⟨?_, ?_, ?_, ?_, ?_, ?_, ?_⟩
  · rw [List.length_append, h.length, List.length_singleton]
  · exact congrArg (· + 1) h.sgcnt
  · intro i
    change i ∈ r.assigned ++ [cur] ++ [cur + 1] ↔ i ≤ cur + 1
    rw [List.mem_append, List.mem_append, List.mem_singleton, List.mem_singleton, h.assigned]
    omega
  · intro i hi
    change (Function.update (Function.update r.sgl cur _) (cur + 1) _ i).next = _
    rw [Function.update_of_ne (hne i (by omega))]
    by_cases hcur : i = cur
    · rw [hcur, Function.update_self]
    · rw [Function.update_of_ne hcur]
      exact h.linked i (by omega)
  · change (Function.update (Function.update r.sgl cur _) (cur + 1) _ (cur + 1)).next = none
    rw [Function.update_self]
  · intro i hi
    change (Function.update (Function.update r.sgl cur _) (cur + 1) _ i).mapped = _ ∧
      (Function.update (Function.update r.sgl cur _) (cur + 1) _ i).len = _
    rw [List.length_append, h.length, List.length_singleton] at hi
    by_cases hlast : i = cur + 1
    · subst hlast
      rw [Function.update_self, List.getElem_append_right (by rw [h.length])]
      simp [h.length]
    · have hlt : i < done.length := by
        rw [h.length]
        omega
      obtain ⟨hmapped, hlen'⟩ := h.parts i hlt
      rw [Function.update_of_ne hlast, List.getElem_append_left hlt]
      by_cases hcur : i = cur
      · subst hcur
        rw [Function.update_self]
        exact ⟨hmapped, hlen'⟩
      · rw [Function.update_of_ne hcur]
        exact ⟨hmapped, hlen'⟩
  · change u32 (r.qdma.count + frag.length) = _
    rw [h.count, List.flatten_append, List.flatten_singleton, List.length_append, ← Nat.cast_add]
    exact u32_natCast hlen

/-- The loop adds the elements of all fragments. -/
theorem ChainTo.chainFrags (h : ChainTo r done cur)
    (hlen : (done ++ frags).flatten.length < 2 ^ 32)
    (hok : chainFrags skbFragDmaMap fragIndex frags cur r = (true, r')) :
    ChainTo r' (done ++ frags) (cur + frags.length) := by
  induction frags generalizing done cur fragIndex r with
  | nil =>
    cases hok
    rw [List.append_nil]
    exact h
  | cons frag frags ih =>
    unfold Netdev.chainFrags at hok
    dsimp only at hok
    have hpart : done.flatten.length + frag.length < 2 ^ 32 := by
      rw [List.flatten_append, List.length_append, List.flatten_cons, List.length_append] at hlen
      omega
    cases hmap : skbFragDmaMap fragIndex with
    | none =>
      rw [hmap] at hok
      cases hok
    | some dmaAddr =>
      rw [hmap] at hok
      have hassoc : done ++ [frag] ++ frags = done ++ frag :: frags := by
        rw [List.append_assoc, List.singleton_append]
      have hnext := ih (h.step dmaAddr hpart) (by rwa [hassoc]) hok
      rw [hassoc, show cur + 1 + frags.length = cur + (frag :: frags).length by
        rw [List.length_cons]
        omega] at hnext
      exact hnext

/-- A complete chain is right if and only if the array has an element for each of its parts. -/
theorem ChainTo.chainOk_iff {parts : List (List UInt8)} {nrFrags : ℕ}
    (h : ChainTo r parts nrFrags) :
    ChainOk r parts.flatten nrFrags ↔ nrFrags < MAX_SKB_FRAGS := by
  have hparts : (List.range (1 + nrFrags)).map (fun i => (r.sgl i).mapped) = parts := by
    apply List.ext_getElem
    · rw [List.length_map, List.length_range, h.length, Nat.add_comm]
    · intro i hi hi'
      rw [List.getElem_map, List.getElem_range]
      exact (h.parts i hi').1
  have hlens : (List.range (1 + nrFrags)).map (fun i => (r.sgl i).len) =
      parts.map List.length := by
    apply List.ext_getElem
    · rw [List.length_map, List.length_range, List.length_map, h.length, Nat.add_comm]
    · intro i hi hi'
      rw [List.length_map] at hi'
      rw [List.getElem_map, List.getElem_range, List.getElem_map]
      exact (h.parts i hi').2
  constructor
  · intro hok
    exact hok.inArray nrFrags ((h.assigned nrFrags).mpr le_rfl)
  · intro hlt
    refine ⟨h.sgcnt.trans (Nat.add_comm _ _), ?_, h.linked, h.last, ?_, ?_, h.count, ?_⟩
    · intro i hi
      have hle := (h.assigned i).mp hi
      omega
    · intro i hi
      obtain ⟨hmapped, hlen⟩ := h.parts i (by
        rw [h.length]
        omega)
      rw [hmapped, hlen]
    · rw [hlens, h.count, List.length_flatten]
    · rw [← hparts, List.flatMap_def]

/-! ## The request of the other model -/

/-- The first `n` elements of the array as a list. -/
def OnicDmaRequest.list (r : OnicDmaRequest) (n : ℕ) : List SwSg :=
  (List.range n).map fun i => { len := (r.sgl i).len, dmaAddr := (r.sgl i).dmaAddr }

/-- The element of a fragment is the last of the list. -/
theorem OnicDmaRequest.list_addFrag (r : OnicDmaRequest) (cur : ℕ) (frag : List UInt8)
    (dmaAddr : ℕ) : (r.addFrag cur frag dmaAddr).list (cur + 1 + 1) =
      r.list (cur + 1) ++ [{ len := frag.length, dmaAddr := dmaAddr }] := by
  have hlast : (r.addFrag cur frag dmaAddr).sgl (cur + 1) =
      { len := frag.length, dmaAddr := dmaAddr, mapped := frag } := Function.update_self ..
  have hrange : List.range (cur + 1 + 1) = List.range (cur + 1) ++ [cur + 1] := List.range_succ
  unfold list
  rw [hrange, List.map_append, List.map_singleton, hlast]
  congr 1
  apply List.map_congr_left
  intro i hi
  have hlt := List.mem_range.mp hi
  have hsame : (r.addFrag cur frag dmaAddr).sgl i =
      Function.update r.sgl cur { r.sgl cur with next := some (cur + 1) } i :=
    Function.update_of_ne (by omega) ..
  rw [hsame]
  by_cases hcur : i = cur
  · rw [hcur, Function.update_self]
  · rw [Function.update_of_ne hcur]

/-- The loop over the array does what the loop over the list does. -/
theorem mapFrags_eq_chainFrags {req : QdmaRequest}
    (hreq : req = { r.qdma with sgl := r.list (cur + 1) }) :
    (mapFrags skbFragDmaMap fragIndex (frags.map List.length) req).1 =
        (chainFrags skbFragDmaMap fragIndex frags cur r).1 ∧
      ((chainFrags skbFragDmaMap fragIndex frags cur r).1 = true →
        (mapFrags skbFragDmaMap fragIndex (frags.map List.length) req).2.1 =
          { (chainFrags skbFragDmaMap fragIndex frags cur r).2.qdma with
            sgl := (chainFrags skbFragDmaMap fragIndex frags cur r).2.list
              (cur + 1 + frags.length) }) := by
  induction frags generalizing cur fragIndex r req with
  | nil => exact ⟨rfl, fun _ => hreq⟩
  | cons frag frags ih =>
    rw [List.map_cons]
    unfold mapFrags Netdev.chainFrags
    dsimp only
    cases skbFragDmaMap fragIndex with
    | none =>
      refine ⟨rfl, fun hfalse => ?_⟩
      cases hfalse
    | some dmaAddr =>
      dsimp only
      have hcons : cur + 1 + (frag :: frags).length = cur + 1 + 1 + frags.length := by
        rw [List.length_cons]
        omega
      rw [hcons]
      apply ih
      rw [OnicDmaRequest.list_addFrag, hreq]
      rfl

end

/-! ## The chain of a packet -/

section

variable {env : TxEnv} {skb padded : SkbData} {skbPutPadto : SkbData → Option SkbData}
  {r : OnicDmaRequest} {onicReq : ℕ}

/-- A chain that is built has elements for the head and all fragments. -/
theorem buildChain_chainTo (h : buildChain env skb onicReq = some r) :
    ChainTo r (skb.head :: skb.frags) skb.frags.length := by
  unfold buildChain at h
  cases hhead : env.dmaMapSingle with
  | none =>
    rw [hhead] at h
    cases h
  | some dmaAddr =>
    rw [hhead] at h
    dsimp only at h
    split at h
    · cases h
    · rename_i r' hfrags
      cases h
      have hlen : ([skb.head] ++ skb.frags).flatten.length < 2 ^ 32 := by
        rw [List.singleton_append, List.flatten_cons]
        exact skb.len_lt
      have hto := (chainTo_chainHead skb dmaAddr).chainFrags hlen hfrags
      rw [Nat.zero_add] at hto
      exact ⟨hto.length, hto.sgcnt, hto.assigned, hto.linked, hto.last, hto.parts, hto.count⟩

/-- The packet that the other model transmits is the one of the chain. -/
theorem transmitPacket_of_buildChain (h : buildChain env skb onicReq = some r) :
    ∃ events, transmitPacket env skb.toSkb onicReq =
      submitPacket env skb.toSkb { r.qdma with sgl := r.list (1 + skb.frags.length) } events := by
  unfold buildChain at h
  unfold transmitPacket
  cases hhead : env.dmaMapSingle with
  | none =>
    rw [hhead] at h
    cases h
  | some dmaAddr =>
    rw [hhead] at h
    dsimp only at h ⊢
    have hlen := skb.len_lt
    rw [List.length_append] at hlen
    have hcount : u32 skb.head.length = skb.head.length := u32_natCast (by omega)
    have hreq : ({ headRequest skb.toSkb dmaAddr with sgcnt := 1 } : QdmaRequest) =
        { (chainHead skb dmaAddr).qdma with sgl := (chainHead skb dmaAddr).list (0 + 1) } := by
      change ({ sgl := _, count := skb.head.length, sgcnt := 1 } : QdmaRequest) =
        { sgl := _, count := u32 skb.head.length, sgcnt := 1 }
      rw [hcount]
      rfl
    obtain ⟨hok, hsame⟩ := @mapFrags_eq_chainFrags (chainHead skb dmaAddr) skb.frags 0 0
      env.skbFragDmaMap _ hreq
    split at h
    · cases h
    · rename_i r' hfrags
      cases h
      rw [hfrags] at hok hsame
      have hsgl := hsame rfl
      change (mapFrags env.skbFragDmaMap 0 skb.toSkb.frags _).1 = true at hok
      change (mapFrags env.skbFragDmaMap 0 skb.toSkb.frags _).2.1 = _ at hsgl
      generalize mapFrags env.skbFragDmaMap 0 skb.toSkb.frags _ = mapped at hok hsgl ⊢
      obtain ⟨ok, req, events⟩ := mapped
      dsimp only at hok hsgl
      subst hok hsgl
      exact ⟨_, by rw [Nat.add_comm 1]; rfl⟩

/-- The chain of a packet is right if and only if the packet, padded, has fewer fragments than a
packet may have. -/
theorem onicStartXmit_chainOk_iff (hpads : PadsTo skbPutPadto)
    (hpadded : skbPutPadto skb = some padded)
    (hbuilt : onicStartXmitChain env skbPutPadto skb = some r) :
    ChainOk r (skb.bytes ++ List.replicate (ETH_ZLEN - skb.len) 0) padded.frags.length ↔
      padded.frags.length < MAX_SKB_FRAGS := by
  have hchain : ∃ onicReq, buildChain env padded onicReq = some r := by
    unfold onicStartXmitChain at hbuilt
    rw [hpadded] at hbuilt
    split at hbuilt
    · cases hbuilt
    split at hbuilt
    · cases hbuilt
    dsimp only at hbuilt
    split at hbuilt
    · cases hbuilt
    · split at hbuilt
      · cases hbuilt
      · exact ⟨_, hbuilt⟩
  obtain ⟨onicReq, hchain⟩ := hchain
  rw [← hpads skb padded hpadded]
  exact (buildChain_chainTo hchain).chainOk_iff

end

/-! ## Two packets -/

/-- A packet of a head of 64 bytes and `n` fragments of one byte. -/
def fragmented (n : ℕ) (h : n ≤ MAX_SKB_FRAGS) : SkbData where
  head := List.replicate 64 0
  frags := List.replicate n [1]
  frags_le := by
    rw [List.length_replicate]
    exact h
  len_lt := by
    have hle : n ≤ 17 := h
    simp
    omega

/-- A device on which nothing fails. -/
def workingTx : TxEnv where
  carrierOk := true
  realNumTxQueues := 1
  skbPutPadto := some
  kmemCacheZalloc := some 1
  dmaMapSingle := some 4096
  skbFragDmaMap _ := some 8192
  devHndlOk := true
  descq := some { st := true, qType := .h2c, online := true }
  sglMap := 0
  doneEarly := false

/-- `skb_put_padto` for packets that need no padding; others are dropped. -/
def keepLong (skb : SkbData) : Option SkbData := if skb.len < ETH_ZLEN then none else some skb

theorem padsTo_keepLong : PadsTo keepLong := by
  intro skb padded h
  unfold keepLong at h
  split at h
  · cases h
  · rename_i hlong
    cases h
    rw [Nat.sub_eq_zero_of_le (Nat.le_of_not_lt hlong), List.replicate_zero, List.append_nil]

/-- `onic_start_xmit` of such a packet. -/
def fragmentedChain (n : ℕ) (h : n ≤ MAX_SKB_FRAGS) : Option OnicDmaRequest :=
  onicStartXmitChain workingTx keepLong (fragmented n h)

/-- A packet of two fragments has a chain of three elements. -/
theorem fragmentedChain_ok : ∃ r, fragmentedChain 2 (by decide) = some r ∧
    ChainOk r ((fragmented 2 (by decide)).bytes ++
      List.replicate (ETH_ZLEN - (fragmented 2 (by decide)).len) 0) 2 :=
  ⟨_, rfl, (@onicStartXmit_chainOk_iff workingTx (fragmented 2 (by decide))
    (fragmented 2 (by decide)) keepLong _ padsTo_keepLong rfl rfl).mpr (by decide)⟩

/-- The last element of the chain of a packet with all fragments that it may have is behind the
array. -/
theorem fragmentedChain_not_ok : ∃ r, fragmentedChain MAX_SKB_FRAGS le_rfl = some r ∧
    ∀ bytes, ¬ ChainOk r bytes MAX_SKB_FRAGS := by
  refine ⟨_, rfl, fun bytes h => ?_⟩
  exact absurd (h.inArray MAX_SKB_FRAGS (by decide)) (lt_irrefl _)

end OnicDriver.Netdev
