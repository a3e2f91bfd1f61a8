import OnicDriver.H2c.Accounting
import OnicDriver.H2c.Pieces
import Mathlib.Algebra.Order.BigOperators.Group.List

/-!
# Coverage of requests

The descriptors that are made for a request, taken together in the order in which
they are made, transfer the bytes of its list one after the other, whenever the
request is suspended and wherever it goes on: what they transfer is always the part
of the list up to the offset of the request.
-/

namespace OnicDriver.H2c

open Lib Queue

/-! ## Bytes -/

/-- The device address of a byte of a request. In a keyhole window the addresses start again at its
end. -/
def deviceByte (conf : QueueConf) (req : QdmaRequest) (k : ℕ) : ℕ :=
  if conf.apertureSize ≠ 0 then u64 ((req.epAddr : ℤ) + (k % conf.apertureSize : ℕ))
  else u64 ((req.epAddr : ℤ) + k)

/-- What is to be transferred for a request: the host address of each byte, with its device address
on a memory mapped queue. -/
def transfer (conf : QueueConf) (req : QdmaRequest) : List (ℕ × Option ℕ) :=
  (hostBytes (elems req)).mapIdx fun k host =>
    (host, if conf.st then none else some (deviceByte conf req k))

/-- The host address, the device address and the length in a memory mapped descriptor. -/
def mmFields (conf : QueueConf) (d : MmDesc) : ℕ × ℕ × ℕ :=
  if conf.qType = .c2h then (d.dstAddr, d.srcAddr, d.flagLen % 2 ^ QDMA_DESC_BLEN_BITS)
  else (d.srcAddr, d.dstAddr, d.flagLen % 2 ^ QDMA_DESC_BLEN_BITS)

/-- The bytes that the descriptor in a slot transfers. -/
def descBytes (conf : QueueConf) (d : MmDesc × H2cDesc) : List (ℕ × Option ℕ) :=
  if conf.st then (List.range d.2.len).map fun k : ℕ => (u64 ((d.2.srcAddr : ℤ) + k), none)
  else
    let (host, ep, len) := mmFields conf d.1
    (List.range len).map fun k : ℕ => (u64 ((host : ℤ) + k), some (u64 ((ep : ℤ) + k)))

/-- A descriptor is within its limits: the packet size on a streaming queue, the keyhole window on a
memory mapped one. -/
def DescFits (conf : QueueConf) (req : QdmaRequest) (d : MmDesc × H2cDesc) : Prop :=
  if conf.st then d.2.len ≤ pktsz req
  else conf.apertureSize ≠ 0 →
    let (_, ep, len) := mmFields conf d.1
    req.epAddr ≤ ep ∧ ep + len ≤ req.epAddr + conf.apertureSize

/-- The bytes of a request have numbers of 32 bits, and the keyhole window, if there is one, is a
power of two that a descriptor can hold, and not at the end of the device's memory. -/
structure Cuttable (conf : QueueConf) (req : QdmaRequest) : Prop where
  size : ((elems req).map SwSg.len).sum < 2 ^ 32
  window : conf.apertureSize ≠ 0 →
    (∃ m < QDMA_DESC_BLEN_BITS, conf.apertureSize = 2 ^ m) ∧
      req.epAddr + 2 * conf.apertureSize ≤ 2 ^ 64

/-! ## The log of the descriptors -/

/-- A descriptor that was made, with its request. -/
abbrev Made := ReqId × MmDesc × H2cDesc

/-- The descriptors that a step made, the oldest first: those in the slots from the producer index
on. -/
def madeBy (conf : QueueConf) (q q' : Descq) : List Made :=
  let n := q'.written - q.written
  (List.range n).map fun j =>
    ((q'.owners.drop (q'.owners.length - n)).getD j 0, q'.slot ((q.pidx + j) % conf.rngsz))

/-- The descriptors of a request. -/
def ofReq (id : ReqId) (log : List Made) : List (MmDesc × H2cDesc) :=
  log.filterMap fun made => if made.1 = id then some made.2 else none

/-- The log of a sequence of steps. -/
inductive CallLog (conf : QueueConf) : Descq → List Made → Descq → Prop
  | refl (q : Descq) : CallLog conf q [] q
  | tail {q q' q'' : Descq} {log : List Made} (h : CallLog conf q log q')
    (hstep : CallStep conf q' q'') : CallLog conf q (log ++ madeBy conf q' q'') q''

section

variable {conf : QueueConf} {q q' q'' : Descq} {id : ReqId}

/-! ## Descriptors of pieces -/

/-- A byte of a piece, as it is in a descriptor of the queue. -/
def forQueue (conf : QueueConf) (byte : ℕ × ℕ) : ℕ × Option ℕ :=
  (byte.1, if conf.st then none else some byte.2)

theorem QDMA_DESC_BLEN_MAX_lt : QDMA_DESC_BLEN_MAX < 2 ^ QDMA_DESC_BLEN_BITS := by decide

/-- The flags of a descriptor are above its length. -/
theorem mmFields_mmDescOf {p : Piece} (hlen : p.len < 2 ^ QDMA_DESC_BLEN_BITS) (sop eop : Bool) :
    mmFields conf (mmDescOf conf sop eop p) = (p.host, p.ep, p.len) := by
  have hdv : 1 <<< S_DESC_F_DV % 2 ^ QDMA_DESC_BLEN_BITS = 0 := by decide
  have heop : 1 <<< S_DESC_F_EOP % 2 ^ QDMA_DESC_BLEN_BITS = 0 := by decide
  have hsop : 1 <<< S_DESC_F_SOP % 2 ^ QDMA_DESC_BLEN_BITS = 0 := by decide
  have hmod : p.len % 2 ^ QDMA_DESC_BLEN_BITS = p.len := Nat.mod_eq_of_lt hlen
  have hflags : (mmDescOf conf sop eop p).flagLen % 2 ^ QDMA_DESC_BLEN_BITS = p.len := by
    by_cases hdir : conf.qType = .c2h <;> cases sop <;> cases eop <;>
      simp [mmDescOf, hdir, Nat.or_mod_two_pow, hdv, heop, hsop, hmod]
  unfold mmFields
  rw [hflags]
  unfold mmDescOf
  dsimp only
  split
  · rfl
  · rfl

/-- The slots behind the first one are other slots, up to a turn of the ring. -/
theorem iterate_nextSlot_ne {pidx n : ℕ} (hpidx : pidx < conf.rngsz) (hn : n + 1 < conf.rngsz) :
    ∀ j ≤ n, (nextSlot conf.rngsz)^[j] (nextSlot conf.rngsz pidx) ≠ pidx := by
  intro j hj heq
  rw [← Function.iterate_succ_apply, iterate_nextSlot hpidx] at heq
  have hself : (pidx + 0) % conf.rngsz = pidx := Nat.mod_eq_of_lt hpidx
  have hsame := eq_of_mod_eq (r := pidx) (n := conf.rngsz) (by omega) (by omega) (by omega)
    (by omega) (heq.trans hself.symm)
  omega

/-- The slot of a piece holds its descriptor. -/
theorem storeMm_get {pieces : List Piece} {sop : Bool} {pidx j : ℕ} {desc : ℕ → MmDesc}
    {p : Piece} (hpidx : pidx < conf.rngsz) (hlen : pieces.length < conf.rngsz)
    (hp : pieces[j]? = some p) :
    ∃ sop' eop, storeMm conf sop pieces pidx desc ((nextSlot conf.rngsz)^[j] pidx) =
      mmDescOf conf sop' eop p := by
  induction pieces generalizing sop pidx j desc with
  | nil => cases hp
  | cons p' pieces ih =>
    rw [List.length_cons] at hlen
    have hnext : nextSlot conf.rngsz pidx < conf.rngsz := by
      rw [nextSlot_eq_mod hpidx]
      exact Nat.mod_lt _ conf.rngsz_pos
    unfold storeMm
    cases j with
    | zero =>
      cases hp
      refine ⟨sop, pieces.isEmpty, ?_⟩
      rw [Function.iterate_zero_apply, storeMm_of_ne (iterate_nextSlot_ne hpidx hlen),
        Function.update_self]
    | succ j =>
      rw [Function.iterate_succ_apply]
      exact ih hnext (by omega) hp

theorem storeSt_get {pieces : List Piece} {n pidx j : ℕ} {desc : ℕ → H2cDesc}
    {p : Piece} (hpidx : pidx < conf.rngsz) (hlen : pieces.length < conf.rngsz)
    (hp : pieces[j]? = some p) :
    (storeSt conf n pieces pidx desc ((nextSlot conf.rngsz)^[j] pidx)).len = u16 p.len ∧
      (storeSt conf n pieces pidx desc ((nextSlot conf.rngsz)^[j] pidx)).srcAddr = p.host := by
  induction pieces generalizing pidx j desc with
  | nil => cases hp
  | cons p' pieces ih =>
    rw [List.length_cons] at hlen
    have hnext : nextSlot conf.rngsz pidx < conf.rngsz := by
      rw [nextSlot_eq_mod hpidx]
      exact Nat.mod_lt _ conf.rngsz_pos
    have hne := iterate_nextSlot_ne hpidx hlen
    unfold storeSt
    dsimp only
    cases j with
    | zero =>
      cases hp
      have hself : pidx ≠ nextSlot conf.rngsz pidx := (hne 0 (Nat.zero_le _)).symm
      rw [Function.iterate_zero_apply, storeSt_of_ne hne]
      split
      · rw [Function.update_self]
        exact ⟨rfl, rfl⟩
      · rw [Function.update_of_ne hself, Function.update_self]
        exact ⟨rfl, rfl⟩
    | succ j =>
      rw [Function.iterate_succ_apply]
      exact ih hnext (by omega) hp

/-! ## What a step leaves alone -/

theorem offset_qdmaSgtReqDone (error : ℤ) (j : ReqId) :
    ((qdmaSgtReqDone conf q id error).cb j).offset = (q.cb j).offset := by
  have hcb : (unlinkReq q id).cb = q.cb := unlinkReq_cb
  have hset : ∀ (cb : SgtReqCb), cb.offset = ((unlinkReq q id).cb id).offset →
      (Function.update (unlinkReq q id).cb id cb j).offset = (q.cb j).offset := by
    intro cb heq
    obtain rfl | hne := eq_or_ne j id
    · rw [Function.update_self, heq, hcb]
    · rw [Function.update_of_ne hne, hcb]
  unfold qdmaSgtReqDone
  dsimp only
  split
  · exact hset _ rfl
  · exact hset _ rfl

theorem offset_setCb {cb : SgtReqCb} (heq : cb.offset = (q.cb id).offset) (j : ReqId) :
    ((q.setCb id cb).cb j).offset = (q.cb j).offset := by
  change (Function.update q.cb id cb j).offset = _
  obtain rfl | hne := eq_or_ne j id
  · rw [Function.update_self, heq]
  · rw [Function.update_of_ne hne]

theorem offset_completeRequests (cr : ℕ) (pend : List ReqId) (j : ReqId) :
    ((completeRequests conf cr pend q).2.cb j).offset = (q.cb j).offset := by
  induction pend generalizing cr q with
  | nil => rfl
  | cons id pend ih =>
    unfold completeRequests
    dsimp only
    split
    · split
      · exact offset_qdmaSgtReqDone 0 j
      · rw [ih]
        exact offset_qdmaSgtReqDone 0 j
    · exact @offset_setCb q id { q.cb id with descNr := (q.cb id).descNr - cr } rfl j

theorem cb_qdmaPidxUpdate (force : Bool) : (qdmaPidxUpdate conf q force).2.cb = q.cb := by
  unfold qdmaPidxUpdate queuePidxUpdate
  split
  · cases q.doorbells with
    | nil => rfl
    | cons b rest => cases b <;> rfl
  · rfl

/-- What a look at the completion status leaves alone. -/
structure LookKeeps (q q' : Descq) : Prop where
  work : KeepsWork q q'
  offset : ∀ j, (q'.cb j).offset = (q.cb j).offset
  nodup : q'.pending.Nodup
  written : q'.written = q.written
  pidx : q'.pidx = q.pidx

theorem LookKeeps.refl (hnodup : q.pending.Nodup) : LookKeeps q q :=
  ⟨KeepsWork.refl q, fun _ => rfl, hnodup, rfl, rfl⟩

theorem LookKeeps.look (h : Accounted conf q) (hnodup : q.pending.Nodup) :
    LookKeeps q (descqMmNH2cCmplStatus conf q) := by
  obtain ⟨k, m, hind⟩ := h
  have hpending : (descqMmNH2cCmplStatus conf q).pending.Nodup :=
    (Completes.status (P := fun _ => True) hnodup).walk.pending hnodup
  have hapart : ∀ id ∈ q.pendList, id ∉ q.workList := by
    intro id hpend hwork
    exact (List.nodup_append.mp hnodup).2.2 id hpend id hwork rfl
  have hring : ∀ {α : Type} (f : RingView → α), (∀ v c a o s b p d, f { v with
      cidx := c, avail := a, owners := o, advances := s, doorbells := b, posted := p
      descPend := d } = f v) → f (descqMmNH2cCmplStatus conf q).ring = f q.ring :=
    fun f hf => ring_descqMmNH2cCmplStatus hind f hf
  refine ⟨?_, ?_, hpending, hring RingView.written fun _ _ _ _ _ _ _ _ => rfl,
    hring RingView.pidx fun _ _ _ _ _ _ _ _ => rfl⟩
  · obtain ⟨rest, -, heq⟩ | ⟨r, n, rest, -, -, -, heq⟩ := descqMmNH2cCmplStatus_cases hind
    · rw [heq]
      exact KeepsWork.of_eq rfl rfl rfl rfl
    · rw [heq]
      set q₀ := takeBack conf r { q with advances := rest }
      have hback : KeepsWork q q₀ := KeepsWork.of_eq rfl rfl rfl rfl
      have hcomplete : KeepsWork q₀ (completeRequests conf q₀.credit q₀.pendList q₀).2 :=
        KeepsWork.completeRequests hapart
      have hcredit : KeepsWork q₀ (giveCredit conf q₀) :=
        hcomplete.trans (KeepsWork.of_eq rfl rfl rfl rfl)
      exact (hback.trans hcredit).trans (KeepsWork.qdmaPidxUpdate true)
  · intro j
    obtain ⟨rest, -, heq⟩ | ⟨r, n, rest, -, -, -, heq⟩ := descqMmNH2cCmplStatus_cases hind
    · rw [heq]
    · rw [heq, cb_qdmaPidxUpdate]
      exact offset_completeRequests _ _ j

theorem LookKeeps.poll (h : Accounted conf q) (hnodup : q.pending.Nodup) :
    LookKeeps q (descqPollMmNH2cCmplStatus conf q) := by
  unfold descqPollMmNH2cCmplStatus
  split
  · have hflag : Advances conf q { q with procReqRunning := true } := h.same rfl rfl
    have hkeep : KeepsWork q { q with procReqRunning := true } := KeepsWork.of_eq rfl rfl rfl rfl
    have hlook := LookKeeps.look hflag.accounted hnodup
    exact ⟨hkeep.trans hlook.work, hlook.offset, hlook.nodup, hlook.written, hlook.pidx⟩
  · exact LookKeeps.refl hnodup

/-! ## What a pass makes -/

theorem ofReq_append (log log' : List Made) :
    ofReq id (log ++ log') = ofReq id log ++ ofReq id log' := List.filterMap_append

/-- The descriptors of a step that made them for one request. -/
theorem ofReq_madeBy {n : ℕ} {owner : ReqId} {owners : List ReqId}
    (howners : q'.owners = owners ++ List.replicate n owner)
    (hwritten : q'.written = q.written + n) :
    ofReq id (madeBy conf q q') = if owner = id then
      (List.range n).map fun j => q'.slot ((q.pidx + j) % conf.rngsz) else [] := by
  have hdrop : q'.owners.drop (q'.owners.length - n) = List.replicate n owner := by
    rw [howners, List.length_append, List.length_replicate, Nat.add_sub_cancel,
      List.drop_left' rfl]
  have howner : ∀ j ∈ List.range n, (List.replicate n owner).getD j 0 = owner := by
    intro j hj
    rw [List.getD_eq_getElem?_getD, List.getElem?_replicate_of_lt (List.mem_range.mp hj)]
    rfl
  unfold ofReq madeBy
  dsimp only
  rw [hwritten, Nat.add_sub_cancel_left, hdrop, List.filterMap_map]
  split
  · rename_i heq
    rw [← List.filterMap_eq_map]
    apply List.filterMap_congr
    intro j hj
    rw [Function.comp_apply, howner j hj, if_pos heq]
    rfl
  · rename_i hne
    rw [List.filterMap_eq_nil_iff]
    intro j hj
    rw [Function.comp_apply, howner j hj, if_neg hne]

theorem madeBy_eq_nil (hwritten : q'.written = q.written) : madeBy conf q q' = [] := by
  unfold madeBy
  rw [hwritten, Nat.sub_self]
  rfl

/-- The bytes of the pieces, read from the slots that hold their descriptors. -/
theorem flatMap_descBytes {pieces : List Piece} {slot : ℕ → MmDesc × H2cDesc}
    (hslot : ∀ j p, pieces[j]? = some p →
      descBytes conf (slot j) = p.bytes.map (forQueue conf)) :
    ((List.range pieces.length).map slot).flatMap (descBytes conf) =
      (pieces.flatMap Piece.bytes).map (forQueue conf) := by
  have hlists : ((List.range pieces.length).map slot).map (descBytes conf) =
      pieces.map fun p => p.bytes.map (forQueue conf) := by
    apply List.ext_getElem?
    intro j
    rw [List.getElem?_map, List.getElem?_map, List.getElem?_map]
    obtain hlt | hge := lt_or_ge j pieces.length
    · rw [List.getElem?_range hlt, List.getElem?_eq_getElem hlt, Option.map_some, Option.map_some,
        Option.map_some, hslot j _ (List.getElem?_eq_getElem hlt)]
    · rw [List.getElem?_eq_none (by rwa [List.length_range]), List.getElem?_eq_none hge]
      rfl
  rw [List.flatMap_def, hlists, List.map_flatMap, List.flatMap_def]

theorem descBytes_mm (hst : conf.st = false) {d : MmDesc × H2cDesc} {p : Piece}
    (hfields : mmFields conf d.1 = (p.host, p.ep, p.len)) :
    descBytes conf d = p.bytes.map (forQueue conf) := by
  unfold descBytes Piece.bytes forQueue
  rw [hst, if_neg Bool.false_ne_true, hfields, List.map_map]
  rfl

theorem descBytes_st (hst : conf.st = true) {d : MmDesc × H2cDesc} {p : Piece}
    (hlen : d.2.len = p.len) (hsrc : d.2.srcAddr = p.host) :
    descBytes conf d = p.bytes.map (forQueue conf) := by
  unfold descBytes Piece.bytes forQueue
  rw [hst, if_pos rfl, hlen, hsrc, List.map_map]
  rfl

@[simp] theorem length_transfer (req : QdmaRequest) :
    (transfer conf req).length = ((elems req).map SwSg.len).sum := by
  rw [transfer, List.length_mapIdx, length_hostBytes]

theorem transfer_mm (hst : conf.st = false) (req : QdmaRequest) :
    transfer conf req =
      (paired (deviceByte conf req) 0 (hostBytes (elems req))).map (forQueue conf) := by
  apply List.ext_getElem
  · rw [length_transfer, List.length_map, length_paired, length_hostBytes]
  · intro k hk hk'
    simp [transfer, paired, forQueue, hst]

theorem transfer_st (hst : conf.st = true) (dev : ℕ → ℕ) (o : ℕ) (req : QdmaRequest) :
    transfer conf req = (paired dev o (hostBytes (elems req))).map (forQueue conf) := by
  apply List.ext_getElem
  · rw [length_transfer, List.length_map, length_paired, length_hostBytes]
  · intro k hk hk'
    simp [transfer, paired, forQueue, hst]

/-! ## The invariant -/

/-- What was made for a request goes up to its offset. It is on the work list until that has reached
its count, unless it is `gone`. -/
structure Covered (conf : QueueConf) (gone : Prop) (req : QdmaRequest) (id : ReqId)
    (log : List Made) (q : Descq) : Prop where
  accounted : Accounted conf q
  nodup : q.pending.Nodup
  le : (q.cb id).offset ≤ (transfer conf req).length
  bytes : (ofReq id log).flatMap (descBytes conf) = (transfer conf req).take (q.cb id).offset
  fits : ∀ d ∈ ofReq id log, DescFits conf req d
  work : id ∈ q.workList → q.req id = req ∧ (req.count = 0 → (q.cb id).offset = 0)
  left : id ∉ q.workList → gone ∨ req.count ≤ (q.cb id).offset

section

variable {gone : Prop} {req : QdmaRequest} {log : List Made} {owner : ReqId} {rest : List ReqId}

theorem Covered.kept (h : Covered conf gone req id log q) (haccounted : Accounted conf q')
    (hkeep : LookKeeps q q') : Covered conf gone req id log q' := by
  have hoffset := hkeep.offset id
  have hwork := hkeep.work.work
  refine ⟨haccounted, hkeep.nodup, ?_, ?_, h.fits, fun hid => ?_, fun hid => ?_⟩
  · rw [hoffset]
    exact h.le
  · rw [hoffset]
    exact h.bytes
  · rw [hwork] at hid
    rw [hoffset, hkeep.work.req id hid]
    exact h.work hid
  · rw [hwork] at hid
    rw [hoffset]
    exact h.left hid

theorem offset_qdmaUpdateRequest (n c : ℕ) (j : ReqId) :
    ((qdmaUpdateRequest q id n c).cb j).offset =
      if j = id then u32 ((q.cb id).offset + c) else (q.cb j).offset := by
  have hcb : (qdmaUpdateRequest q id n c).cb = Function.update q.cb id { q.cb id with
      descNr := (q.cb id).descNr + n, offset := u32 ((q.cb id).offset + c) } := by
    unfold qdmaUpdateRequest
    dsimp only
    split
    · rfl
    · rfl
  rw [hcb]
  split
  · rename_i heq
    rw [heq, Function.update_self]
  · rename_i hne
    rw [Function.update_of_ne hne]

/-- The first request stays on the work list as long as its offset is below its count. -/
theorem mem_workList_qdmaUpdateRequest (hnodup : q.pending.Nodup)
    (hwork : q.workList = owner :: rest) {n c : ℕ}
    (hid : id ∈ (qdmaUpdateRequest q owner n c).workList) :
    id ∈ q.workList ∧ (id = owner → u32 ((q.cb owner).offset + c) < (q.req owner).count) := by
  have hrest : owner ∉ rest := by
    rw [Descq.pending, hwork] at hnodup
    exact (List.nodup_cons.mp (List.nodup_append.mp hnodup).2.1).1
  unfold qdmaUpdateRequest at hid
  dsimp only [Descq.setCb] at hid
  split at hid
  · change id ∈ q.workList.erase owner at hid
    rw [hwork, List.erase_cons_head] at hid
    rw [hwork]
    refine ⟨List.mem_cons_of_mem _ hid, ?_⟩
    rintro rfl
    exact absurd hid hrest
  · rename_i hlt
    exact ⟨hid, fun _ => not_le.mp hlt⟩

/-- No other request leaves it, and the first one only then. -/
theorem not_mem_workList_qdmaUpdateRequest {n c : ℕ} (hwork : id ∈ q.workList)
    (hid : id ∉ (qdmaUpdateRequest q owner n c).workList) :
    id = owner ∧ (q.req owner).count ≤ u32 ((q.cb owner).offset + c) := by
  unfold qdmaUpdateRequest at hid
  dsimp only [Descq.setCb] at hid
  split at hid
  · rename_i hge
    refine ⟨?_, hge⟩
    by_contra hne
    exact hid ((List.mem_erase_of_ne hne).mpr hwork)
  · exact absurd hwork hid

/-- The offset of a request goes on with its descriptors. -/
theorem Covered.update (h : Covered conf gone req id log q) (hcut : Cuttable conf req)
    (hwork : q.workList = owner :: rest) {made : List Made} {n c : ℕ}
    (haccounted : Accounted conf q')
    (hmove : q'.workList = (qdmaUpdateRequest q owner n c).workList ∧
      q'.pendList = (qdmaUpdateRequest q owner n c).pendList ∧
      q'.cb = (qdmaUpdateRequest q owner n c).cb ∧ q'.req = q.req)
    (hother : owner ≠ id → ofReq id made = [])
    (hbytes : owner = id → (q.cb id).offset + c ≤ (transfer conf req).length ∧
      (ofReq id made).flatMap (descBytes conf) =
        ((transfer conf req).drop (q.cb id).offset).take c ∧
      ∀ d ∈ ofReq id made, DescFits conf req d) :
    Covered conf gone req id (log ++ made) q' := by
  obtain ⟨hworkList, hpendList, hcb, hreq⟩ := hmove
  have hoffset : (q'.cb id).offset =
      if id = owner then u32 ((q.cb owner).offset + c) else (q.cb id).offset := by
    rw [hcb]
    exact offset_qdmaUpdateRequest n c id
  have hnodup : q'.pending.Nodup := by
    rw [Descq.pending, hworkList, hpendList]
    exact (@Moves.update (fun _ => True) conf _ _ _ hwork n c).pending h.nodup
  have hsize := hcut.size
  obtain heq | hne := eq_or_ne owner id
  · subst heq
    obtain ⟨hle, hflat, hfits⟩ := hbytes rfl
    have hsum : u32 (((q.cb owner).offset : ℤ) + c) = (q.cb owner).offset + c := by
      rw [length_transfer] at hle
      rw [← Nat.cast_add]
      exact u32_natCast (by omega)
    rw [if_pos rfl, hsum] at hoffset
    have hfirst : owner ∈ q.workList := by
      rw [hwork]
      exact List.mem_cons_self
    refine ⟨haccounted, hnodup, ?_, ?_, ?_, ?_, ?_⟩
    · rw [hoffset]
      exact hle
    · rw [hoffset, List.take_add, ofReq_append, List.flatMap_append, hflat, h.bytes]
    · intro d hd
      rw [ofReq_append] at hd
      obtain hd | hd := List.mem_append.mp hd
      · exact h.fits d hd
      · exact hfits d hd
    · intro hid
      rw [hworkList] at hid
      obtain ⟨hold, hlt⟩ := mem_workList_qdmaUpdateRequest h.nodup hwork hid
      have hcount := hlt rfl
      rw [(h.work hfirst).1] at hcount
      rw [hreq]
      exact ⟨(h.work hfirst).1, fun hzero => by omega⟩
    · intro hid
      rw [hworkList] at hid
      obtain ⟨-, hge⟩ := not_mem_workList_qdmaUpdateRequest hfirst hid
      rw [(h.work hfirst).1, hsum] at hge
      rw [hoffset]
      exact Or.inr hge
  · rw [if_neg hne.symm] at hoffset
    have hlog : ofReq id (log ++ made) = ofReq id log := by
      rw [ofReq_append, hother hne, List.append_nil]
    refine ⟨haccounted, hnodup, ?_, ?_, ?_, ?_, ?_⟩
    · rw [hoffset]
      exact h.le
    · rw [hoffset, hlog]
      exact h.bytes
    · rw [hlog]
      exact h.fits
    · intro hid
      rw [hworkList] at hid
      rw [hreq, hoffset]
      exact h.work (mem_workList_qdmaUpdateRequest h.nodup hwork hid).1
    · intro hid
      rw [hworkList] at hid
      rw [hoffset]
      apply h.left
      intro hold
      exact hne (not_mem_workList_qdmaUpdateRequest hold hid).1.symm

/-- The pieces of a request that goes on, and the descriptors they are stored in. -/
structure Stored (conf : QueueConf) (req : QdmaRequest) (off : ℕ) (pieces : List Piece)
    (slot : ℕ → MmDesc × H2cDesc) : Prop where
  le : off + (pieces.map Piece.len).sum ≤ (transfer conf req).length
  bytes : (pieces.flatMap Piece.bytes).map (forQueue conf) =
    ((transfer conf req).drop off).take (pieces.map Piece.len).sum
  slots : ∀ j p, pieces[j]? = some p →
    descBytes conf (slot j) = p.bytes.map (forQueue conf) ∧ DescFits conf req (slot j)

/-- The descriptors of the pieces. -/
theorem Covered.issue (h : Covered conf gone req id log q) (hcut : Cuttable conf req)
    (hwork : q.workList = owner :: rest) {pieces : List Piece} (hlen : pieces.length ≤ q.avail)
    {mm : ℕ → MmDesc} {st : ℕ → H2cDesc}
    (hmm : ∀ s, (∀ j ≤ pieces.length, (nextSlot conf.rngsz)^[j] q.pidx ≠ s) → mm s = q.mmDesc s)
    (hst : ∀ s, (∀ j ≤ pieces.length, (nextSlot conf.rngsz)^[j] q.pidx ≠ s) → st s = q.h2cDesc s)
    (hstored : owner = id → Stored conf req (q.cb id).offset pieces fun j =>
      (mm ((nextSlot conf.rngsz)^[j] q.pidx), st ((nextSlot conf.rngsz)^[j] q.pidx))) :
    let q' := H2c.issue conf owner pieces { q with mmDesc := mm, h2cDesc := st }
    Covered conf gone req id (log ++ madeBy conf q q') q' := by
  intro q'
  have hpidx : q.pidx < conf.rngsz := h.accounted.ringOk.pidx
  have haccounted : Accounted conf q' := (h.accounted.issue hlen hmm hst).accounted
  have hstore : Covered conf gone req id log { q with mmDesc := mm, h2cDesc := st } :=
    ⟨h.accounted, h.nodup, h.le, h.bytes, h.fits, h.work, h.left⟩
  have hslot : ∀ s, q'.slot s = (mm s, st s) := by
    intro s
    change (qdmaUpdateRequest _ owner _ _).slot s = _
    rw [slot_qdmaUpdateRequest]
    rfl
  have howners : q'.owners = q.owners ++ List.replicate pieces.length owner := by
    have hview := @ring_qdmaUpdateRequest { q with mmDesc := mm, h2cDesc := st } owner
      pieces.length (dataCnt pieces)
    exact congrArg (· ++ List.replicate pieces.length owner) (congrArg RingView.owners hview)
  have hwritten : q'.written = q.written + pieces.length := written_issue pieces
  refine hstore.update hcut hwork (n := pieces.length) (c := dataCnt pieces) haccounted
    ⟨rfl, rfl, rfl, req_qdmaUpdateRequest _ _⟩ (fun hne => ?_) fun heq => ?_
  · rw [ofReq_madeBy howners hwritten, if_neg hne]
  · obtain ⟨hle, hbytes, hslots⟩ := hstored heq
    have hcount : dataCnt pieces = (pieces.map Piece.len).sum := by
      have hsize := hcut.size
      rw [length_transfer] at hle
      exact u32_natCast (by omega)
    have hlist : (List.range pieces.length).map (fun j => q'.slot ((q.pidx + j) % conf.rngsz)) =
        (List.range pieces.length).map fun j =>
          (mm ((nextSlot conf.rngsz)^[j] q.pidx), st ((nextSlot conf.rngsz)^[j] q.pidx)) := by
      apply List.map_congr_left
      intro j _
      rw [hslot, iterate_nextSlot hpidx]
    rw [hcount, ofReq_madeBy howners hwritten, if_pos heq, hlist]
    refine ⟨hle, ?_, fun d hd => ?_⟩
    · rw [flatMap_descBytes fun j p hp => (hslots j p hp).1]
      exact hbytes
    · obtain ⟨j, hj, rfl⟩ := List.mem_map.mp hd
      exact (hslots j _ (List.getElem?_eq_getElem (List.mem_range.mp hj))).2

/-- A request that cannot be found in its list is updated without descriptors. -/
theorem Covered.lost (h : Covered conf gone req id log q) (hcut : Cuttable conf req)
    (hwork : q.workList = owner :: rest) :
    Covered conf gone req id (log ++ madeBy conf q (qdmaUpdateRequest q owner 0 0))
      (qdmaUpdateRequest q owner 0 0) := by
  have hnone : madeBy conf q (qdmaUpdateRequest q owner 0 0) = [] :=
    madeBy_eq_nil (congrArg RingView.written (ring_qdmaUpdateRequest 0 0))
  rw [hnone]
  refine h.update hcut hwork (h.accounted.update 0 0).accounted
    ⟨rfl, rfl, rfl, req_qdmaUpdateRequest 0 0⟩ (fun _ => rfl) fun _ => ⟨h.le, ?_, fun d hd => ?_⟩
  · rw [List.take_zero]
    rfl
  · exact absurd hd List.not_mem_nil

/-! ## Passes -/

theorem transfer_eq {dev : ℕ → ℕ} (hdev : conf.st = false → dev = deviceByte conf req) :
    transfer conf req = (paired dev 0 (hostBytes (elems req))).map (forQueue conf) := by
  cases hst : conf.st with
  | true => exact transfer_st hst dev 0 req
  | false =>
    rw [hdev hst]
    exact transfer_mm hst req

/-- What is cut from where a request goes on. -/
theorem cut_bytes (hcut : Cuttable conf req) {limit : ℕ} {window : Option (ℕ × ℕ)} {dev : ℕ → ℕ}
    {place : ℕ → ℕ → Prop} (hfollows : Follows limit window dev place) {cb : SgtReqCb}
    {ep i off : ℕ} (hplace : place ep cb.offset) (hfind : qdmaSglFindOffset req cb = some (i, off))
    (hzero : req.count = 0 → cb.offset = 0) (room : ℕ) :
    let pieces := cutList limit window i ((req.sgl.take req.sgcnt).drop i) off room ep
    let n := (pieces.map Piece.len).sum
    n ≤ (hostBytes (elems req)).length - cb.offset ∧
      pieces.flatMap Piece.bytes =
        paired dev cb.offset (((hostBytes (elems req)).drop cb.offset).take n) ∧
      ∀ p ∈ pieces, Fits limit window p := by
  have hsize := hcut.size
  have hlens : ∀ sg ∈ (elems req).drop i, sg.len < 2 ^ 32 := by
    intro sg hsg
    have hle := List.single_le_sum (fun x _ => Nat.zero_le x) sg.len
      (List.mem_map_of_mem (f := SwSg.len) (List.mem_of_mem_drop hsg))
    omega
  have hgoes : HeadReaches ((elems req).drop i) off ∧
      (hostBytes ((elems req).drop i)).drop off = (hostBytes (elems req)).drop cb.offset := by
    unfold qdmaSglFindOffset at hfind
    split at hfind
    · rename_i hcount
      cases hfind
      rw [hzero hcount, List.drop_zero]
      exact ⟨fun sg _ => Nat.zero_le _, rfl⟩
    · obtain ⟨-, hreach, hbytes⟩ := findOffset_bytes hfind (Nat.zero_le _)
        (by rw [Nat.zero_add]; exact hsize)
      exact ⟨hreach, hbytes⟩
  obtain ⟨hreach, hdrop⟩ := hgoes
  obtain ⟨hle, hflat, hfits⟩ :=
    @cutList_bytes _ _ _ _ hfollows _ room _ _ _ i hlens hreach hplace
  rw [hdrop] at hflat
  have hlength := congrArg List.length hdrop
  rw [List.length_drop, List.length_drop] at hlength
  exact ⟨hle.trans hlength.le, hflat, hfits⟩

/-- The pieces, once it is known what their slots hold. -/
theorem cut_stored (hcut : Cuttable conf req) {limit : ℕ} {window : Option (ℕ × ℕ)} {dev : ℕ → ℕ}
    {place : ℕ → ℕ → Prop} (hfollows : Follows limit window dev place)
    (hdev : conf.st = false → dev = deviceByte conf req) {cb : SgtReqCb} {ep i off room : ℕ}
    (hplace : place ep cb.offset) (hfind : qdmaSglFindOffset req cb = some (i, off))
    (hzero : req.count = 0 → cb.offset = 0) (hle : cb.offset ≤ (transfer conf req).length)
    {slot : ℕ → MmDesc × H2cDesc} (hslot : ∀ j p,
      (cutList limit window i ((req.sgl.take req.sgcnt).drop i) off room ep)[j]? = some p →
      Fits limit window p →
      descBytes conf (slot j) = p.bytes.map (forQueue conf) ∧ DescFits conf req (slot j)) :
    Stored conf req cb.offset
      (cutList limit window i ((req.sgl.take req.sgcnt).drop i) off room ep) slot := by
  obtain ⟨hsum, hflat, hfits⟩ := cut_bytes hcut hfollows hplace hfind hzero room
  have hlength : (hostBytes (elems req)).length = (transfer conf req).length := by
    rw [length_transfer, length_hostBytes]
  refine ⟨by omega, ?_, fun j p hp => hslot j p hp (hfits p (List.mem_of_getElem? hp))⟩
  rw [hflat, transfer_eq hdev, ← List.map_drop, ← List.map_take, drop_paired, take_paired,
    Nat.zero_add]

theorem mm_follows (hcut : Cuttable conf req) : ∃ place : ℕ → ℕ → Prop,
    Follows conf.aperture (mmWindow conf req) (deviceByte conf req) place ∧
      ∀ cb : SgtReqCb, place (mmEpAddr conf req cb) cb.offset := by
  unfold mmWindow mmEpAddr
  by_cases hkeyhole : conf.apertureSize = 0
  · have hdev : deviceByte conf req = fun k : ℕ => u64 ((req.epAddr : ℤ) + k) := by
      funext k
      unfold deviceByte
      rw [if_neg (not_not.mpr hkeyhole)]
    rw [if_neg (not_not.mpr hkeyhole), hdev]
    refine ⟨_, follows_none req.epAddr, fun cb => ?_⟩
    rw [if_neg (not_not.mpr hkeyhole)]
  · obtain ⟨⟨m, hm, hpow⟩, hend⟩ := hcut.window hkeyhole
    have hlt : conf.apertureSize < 2 ^ 32 := by
      rw [hpow]
      exact Nat.pow_lt_pow_right (by decide) (hm.trans (by decide))
    have hdev : deviceByte conf req =
        fun k => u64 ((req.epAddr : ℤ) + (k % conf.apertureSize : ℕ)) := by
      funext k
      unfold deviceByte
      rw [if_pos hkeyhole]
    have hlast : u64 ((req.epAddr : ℤ) + conf.apertureSize - 1) =
        req.epAddr + conf.apertureSize - 1 := by
      unfold u64
      omega
    have haperture : conf.aperture = conf.apertureSize := if_pos hkeyhole
    rw [if_pos hkeyhole, haperture, hdev, hlast]
    refine ⟨_, follows_some (Nat.pos_of_ne_zero hkeyhole) hlt hend, fun cb => ?_⟩
    have hand : cb.offset &&& (conf.apertureSize - 1) = cb.offset % conf.apertureSize := by
      rw [hpow]
      exact Nat.and_two_pow_sub_one_eq_mod _ _
    have hmod := Nat.mod_lt cb.offset (Nat.pos_of_ne_zero hkeyhole)
    rw [if_pos hkeyhole, hand]
    left
    unfold u64
    omega

theorem aperture_lt (hcut : Cuttable conf req) : conf.aperture < 2 ^ QDMA_DESC_BLEN_BITS := by
  unfold QueueConf.aperture
  split
  · rename_i hkeyhole
    obtain ⟨⟨m, hm, hpow⟩, -⟩ := hcut.window hkeyhole
    rw [hpow]
    exact Nat.pow_lt_pow_right (by decide) hm
  · exact QDMA_DESC_BLEN_MAX_lt

/-- The memory mapped descriptors of a request that goes on. -/
theorem mm_stored (hst : conf.st = false) (hcut : Cuttable conf req) {cb : SgtReqCb}
    {i off room pidx : ℕ} (hfind : qdmaSglFindOffset req cb = some (i, off))
    (hzero : req.count = 0 → cb.offset = 0) (hle : cb.offset ≤ (transfer conf req).length)
    (hroom : room < conf.rngsz) (hpidx : pidx < conf.rngsz) {desc : ℕ → MmDesc}
    {st : ℕ → H2cDesc} :
    let pieces := cutList conf.aperture (mmWindow conf req) i ((req.sgl.take req.sgcnt).drop i) off
      room (mmEpAddr conf req cb)
    Stored conf req cb.offset pieces fun j =>
      (storeMm conf true pieces pidx desc ((nextSlot conf.rngsz)^[j] pidx), st j) := by
  intro pieces
  obtain ⟨place, hfollows, hplace⟩ := mm_follows hcut
  have hlen : pieces.length < conf.rngsz :=
    (length_cutList_le _ _ _ _ _ _ _).trans_lt hroom
  refine cut_stored hcut hfollows (fun _ => rfl) (hplace cb) hfind hzero hle
    fun j p hp hfit => ?_
  obtain ⟨sop, eop, hget⟩ := @storeMm_get _ _ true _ _ desc _ hpidx hlen hp
  have hfields : mmFields conf (storeMm conf true pieces pidx desc
      ((nextSlot conf.rngsz)^[j] pidx)) = (p.host, p.ep, p.len) := by
    rw [hget]
    exact mmFields_mmDescOf (hfit.le.trans_lt (aperture_lt hcut)) sop eop
  refine ⟨descBytes_mm hst hfields, ?_⟩
  unfold DescFits
  rw [hst, if_neg Bool.false_ne_true]
  intro hkeyhole
  have hlast : u64 ((req.epAddr : ℤ) + conf.aperture - 1) =
      req.epAddr + conf.apertureSize - 1 := by
    have hend := (hcut.window hkeyhole).2
    unfold u64 QueueConf.aperture
    rw [if_pos hkeyhole]
    omega
  have hinside := hfit.inside (req.epAddr, req.epAddr + conf.apertureSize - 1) (by
    unfold mmWindow
    rw [if_pos hkeyhole, hlast]
    rfl)
  dsimp only at hinside
  rw [hfields]
  dsimp only
  omega

theorem pktsz_le : pktsz req ≤ PAGE_SIZE := by
  unfold pktsz
  split
  · exact min_le_right _ _
  · exact le_rfl

/-- The streaming descriptors of a request that goes on. -/
theorem st_stored (hst : conf.st = true) (hcut : Cuttable conf req) {cb : SgtReqCb}
    {i off room pidx : ℕ} (hfind : qdmaSglFindOffset req cb = some (i, off))
    (hzero : req.count = 0 → cb.offset = 0) (hle : cb.offset ≤ (transfer conf req).length)
    (hroom : room < conf.rngsz) (hpidx : pidx < conf.rngsz) {desc : ℕ → H2cDesc}
    {mm : ℕ → MmDesc} :
    let pieces := cutList (pktsz req) none i ((req.sgl.take req.sgcnt).drop i) off room 0
    Stored conf req cb.offset pieces fun j =>
      (mm j, storeSt conf req.sgcnt pieces pidx desc ((nextSlot conf.rngsz)^[j] pidx)) := by
  intro pieces
  have hlen : pieces.length < conf.rngsz :=
    (length_cutList_le _ _ _ _ _ _ _).trans_lt hroom
  -- a streaming transfer has no device addresses, so they may begin anywhere
  have hfollows : Follows (pktsz req) none (fun k => u64 ((k : ℤ) - cb.offset))
      fun ep o => ep = u64 ((o : ℤ) - cb.offset) := by
    intro ep o len hep _
    subst hep
    refine ⟨le_rfl, fun w hw => ?_, fun k _ => ?_, ?_⟩
    · cases hw
    · change u64 ((u64 ((o : ℤ) - cb.offset) : ℤ) + k) = u64 (((o + k : ℕ) : ℤ) - cb.offset)
      unfold u64
      omega
    · change u64 ((u64 ((o : ℤ) - cb.offset) : ℤ) + len) = u64 (((o + len : ℕ) : ℤ) - cb.offset)
      unfold u64
      omega
  have hbegin : 0 = u64 ((cb.offset : ℤ) - cb.offset) := by
    rw [Int.sub_self]
    rfl
  refine cut_stored hcut hfollows (fun hmm => by rw [hst] at hmm; cases hmm) hbegin hfind hzero hle
    fun j p hp hfit => ?_
  obtain ⟨hlen', hsrc⟩ := @storeSt_get _ _ req.sgcnt _ _ desc _ hpidx hlen hp
  have hbound := hfit.le.trans pktsz_le
  have hshort : u16 p.len = p.len := by
    unfold PAGE_SIZE at hbound
    unfold u16
    omega
  rw [hshort] at hlen'
  refine ⟨descBytes_st hst hlen' hsrc, ?_⟩
  unfold DescFits
  rw [hst, if_pos rfl]
  exact hlen'.trans_le hfit.le

theorem Covered.nothing (h : Covered conf gone req id log q) (hwritten : q.written = q'.written) :
    Covered conf gone req id (log ++ madeBy conf q' q) q := by
  rw [madeBy_eq_nil hwritten, List.append_nil]
  exact h

theorem madeBy_congr (hwritten : q'.written = q.written) (hpidx : q'.pidx = q.pidx) :
    madeBy conf q' q'' = madeBy conf q q'' := by
  unfold madeBy
  rw [hwritten, hpidx]

/-- The look at the completion status before a pass over a full ring. -/
theorem LookKeeps.pollIfFull (h : Accounted conf q) (hnodup : q.pending.Nodup) :
    Accounted conf (if q.avail = 0 then descqPollMmNH2cCmplStatus conf q else q) ∧
      LookKeeps q (if q.avail = 0 then descqPollMmNH2cCmplStatus conf q else q) := by
  split
  · exact ⟨h.poll.accounted, LookKeeps.poll h hnodup⟩
  · exact ⟨h, LookKeeps.refl hnodup⟩

theorem RingOk.avail_lt (h : RingOk conf q) : q.avail < conf.rngsz := by
  have havail := h.avail
  have hpos := conf.rngsz_pos
  omega

theorem Covered.mmPass (hst : conf.st = false) (hext : conf.ulExt = none)
    (h : Covered conf gone req id log q) (hcut : Cuttable conf req)
    (hwork : q.workList = owner :: rest) :
    Covered conf gone req id (log ++ madeBy conf q (mmPass conf owner q).2)
      (mmPass conf owner q).2 := by
  obtain ⟨haccounted, hkeep⟩ := LookKeeps.pollIfFull h.accounted h.nodup
  have hfirst : owner ∈ q.workList := by
    rw [hwork]
    exact List.mem_cons_self
  unfold H2c.mmPass
  dsimp only
  set q₁ := if q.avail = 0 then descqPollMmNH2cCmplStatus conf q else q
  have h₁ : Covered conf gone req id log q₁ := h.kept haccounted hkeep
  have hwork₁ : q₁.workList = owner :: rest := hkeep.work.work.trans hwork
  have hcb : q₁.cb owner = q.cb owner := hkeep.work.cb owner hfirst
  split
  · exact h₁.nothing hkeep.written
  · rw [hext, ← madeBy_congr hkeep.written hkeep.pidx]
    dsimp only
    split
    · exact h₁.lost hcut hwork₁
    · rename_i i off hfind
      split
      · rw [madeBy_congr hkeep.written hkeep.pidx]
        exact h₁.nothing hkeep.written
      · refine h₁.issue hcut hwork₁ (length_cutList_le _ _ _ _ _ _ _)
          (fun s hs => storeMm_of_ne hs) (fun s _ => rfl) fun heq => ?_
        subst heq
        obtain ⟨hreq, hzero⟩ := h.work hfirst
        rw [hreq] at hfind ⊢
        rw [← hcb] at hzero ⊢
        have hok := haccounted.ringOk
        exact mm_stored hst hcut hfind hzero h₁.le hok.avail_lt hok.pidx

theorem Covered.stPass (hst : conf.st = true) (hext : conf.ulExt = none)
    (h : Covered conf gone req id log q) (hcut : Cuttable conf req)
    (hwork : q.workList = owner :: rest) :
    Covered conf gone req id (log ++ madeBy conf q (stPass conf owner q).2)
      (stPass conf owner q).2 := by
  obtain ⟨haccounted, hkeep⟩ := LookKeeps.pollIfFull h.accounted h.nodup
  have hfirst : owner ∈ q.workList := by
    rw [hwork]
    exact List.mem_cons_self
  unfold H2c.stPass
  dsimp only
  set q₁ := if q.avail = 0 then descqPollMmNH2cCmplStatus conf q else q
  have h₁ : Covered conf gone req id log q₁ := h.kept haccounted hkeep
  have hwork₁ : q₁.workList = owner :: rest := hkeep.work.work.trans hwork
  have hcb : q₁.cb owner = q.cb owner := hkeep.work.cb owner hfirst
  split
  · exact h₁.nothing hkeep.written
  · rw [hext, ← madeBy_congr hkeep.written hkeep.pidx]
    dsimp only
    split
    · exact h₁.lost hcut hwork₁
    · rename_i i off hfind
      refine h₁.issue hcut hwork₁ (length_cutList_le _ _ _ _ _ _ _)
        (fun s _ => rfl) (fun s hs => ?_) fun heq => ?_
      · rw [storeSt_of_ne hs]
        exact Function.update_of_ne (hs 0 (Nat.zero_le _)).symm _ _
      · subst heq
        obtain ⟨hreq, hzero⟩ := h.work hfirst
        rw [hreq] at hfind ⊢
        rw [← hcb] at hzero
        have hok := haccounted.ringOk
        exact st_stored hst hcut hfind hzero h₁.le hok.avail_lt hok.pidx

/-- One step. -/
theorem Covered.step (hext : conf.ulExt = none) (h : Covered conf gone req id log q)
    (hcut : Cuttable conf req) (hstep : CallStep conf q q') :
    Covered conf gone req id (log ++ madeBy conf q q') q' := by
  have haccounted := (h.accounted.step hstep).accounted
  have hset : ∀ q' : Descq, Accounted conf q' → KeepsWork q q' → q'.cb = q.cb →
      q'.pending = q.pending → q'.written = q.written → q'.pidx = q.pidx →
      Covered conf gone req id (log ++ madeBy conf q q') q' := by
    intro q' haccounted hkeep hcb hpending hwritten hpidx
    refine (h.kept haccounted ⟨hkeep, fun j => ?_, ?_, hwritten, hpidx⟩).nothing hwritten
    · rw [hcb]
    · rw [hpending]
      exact h.nodup
  cases hstep with
  | look =>
    have hkeep := LookKeeps.look h.accounted h.nodup
    exact (h.kept haccounted hkeep).nothing hkeep.written
  | flags running => exact hset _ haccounted (KeepsWork.of_eq rfl rfl rfl rfl) rfl rfl rfl rfl
  | aside empty pend doorbells =>
    exact hset _ haccounted (KeepsWork.of_eq rfl rfl rfl rfl) rfl rfl rfl rfl
  | post empty pend doorbells =>
    exact hset _ haccounted (KeepsWork.of_eq rfl rfl rfl rfl) rfl rfl rfl rfl
  | pass hwork =>
    unfold passOf
    split
    · rename_i hst
      exact h.stPass hst hext hcut hwork
    · rename_i hst
      exact h.mmPass (Bool.eq_false_of_not_eq_true hst) hext hcut hwork
  | fill hfill hwork =>
    rw [hext] at hfill
    cases hfill

/-- A sequence of steps. -/
theorem Covered.steps (hext : conf.ulExt = none) {made : List Made}
    (h : Covered conf gone req id log q) (hcut : Cuttable conf req)
    (hlog : CallLog conf q made q') : Covered conf gone req id (log ++ made) q' := by
  induction hlog with
  | refl => rwa [List.append_nil]
  | tail hlog hstep ih =>
    rw [← List.append_assoc]
    exact ih.step hext hcut hstep

/-! ## Runs -/

theorem CallSteps.exists_log (h : CallSteps conf q q') : ∃ log, CallLog conf q log q' := by
  induction h with
  | refl => exact ⟨[], .refl q⟩
  | tail _ hstep ih =>
    obtain ⟨log, hlog⟩ := ih
    exact ⟨_, hlog.tail hstep⟩

end

end

/-- A step of a run in which callers may also give up on their requests. -/
inductive CoverEvent
  | serve (e : ServeEvent)
  | giveUp (id : ReqId)

/-- One step. -/
def coverStep (conf : QueueConf) (q : Descq) : CoverEvent → Descq
  | .serve e => serveStep conf q e
  | .giveUp id => unmapSgl (q.listDel id) id

/-- A request that is submitted is not on a list of the queue. -/
def OffLists (q : Descq) : CoverEvent → Prop
  | .serve (.submit s) => s.id ∉ q.pending
  | _ => True

/-- The log of a run: of every step that of the call it makes, before which no descriptor is
written. -/
inductive RunLog (conf : QueueConf) : Descq → List CoverEvent → List Made → Prop
  | nil (q : Descq) : RunLog conf q [] []
  | cons {q q₁ : Descq} {e : CoverEvent} {es : List CoverEvent} {made log : List Made}
    (hwritten : q₁.written = q.written) (hcall : CallLog conf q₁ made (coverStep conf q e))
    (hrest : RunLog conf (coverStep conf q e) es log) : RunLog conf q (e :: es) (made ++ log)

/-- The request is submitted. -/
def Resubmits (id : ReqId) (e : CoverEvent) : Prop := ∃ s, e = .serve (.submit s) ∧ s.id = id

/-- The request is taken off the lists although it is not completed. -/
def Removes (id : ReqId) (e : CoverEvent) : Prop := e = .giveUp id ∨ e = .serve .stopEnd

section

variable {conf : QueueConf} {q q' q'' : Descq} {id : ReqId} {gone : Prop} {req : QdmaRequest}
  {log : List Made}

/-- What the steps outside of the calls do, beside the ring. -/
structure Aside (gone : Prop) (id : ReqId) (q q' : Descq) : Prop where
  nodup : q'.pending.Nodup
  work : id ∈ q'.workList → id ∈ q.workList ∧ q'.req id = q.req id
  left : id ∉ q'.workList → gone ∨ id ∉ q.workList
  offset : (q'.cb id).offset = (q.cb id).offset
  written : q'.written = q.written

theorem Covered.aside (h : Covered conf gone req id log q) (haccounted : Accounted conf q')
    (haside : Aside gone id q q') : Covered conf gone req id log q' := by
  have hoffset := haside.offset
  refine ⟨haccounted, haside.nodup, ?_, ?_, h.fits, fun hid => ?_, fun hid => ?_⟩
  · rw [hoffset]
    exact h.le
  · rw [hoffset]
    exact h.bytes
  · obtain ⟨hold, hreq⟩ := haside.work hid
    rw [hoffset, hreq]
    exact h.work hold
  · rw [hoffset]
    obtain hgone | hold := haside.left hid
    · exact Or.inl hgone
    · exact h.left hold

theorem Aside.trans (h : Aside gone id q q') (h' : Aside gone id q' q'') :
    Aside gone id q q'' := by
  refine ⟨h'.nodup, fun hid => ?_, fun hid => ?_, h'.offset.trans h.offset,
    h'.written.trans h.written⟩
  · obtain ⟨hmid, hreq⟩ := h'.work hid
    obtain ⟨hold, hreq'⟩ := h.work hmid
    exact ⟨hold, hreq.trans hreq'⟩
  · exact (h'.left hid).elim Or.inl h.left

/-- Other fields do not matter. -/
theorem Aside.of_eq (hnodup : q.pending.Nodup) (hwork : q'.workList = q.workList)
    (hpend : q'.pendList = q.pendList) (hreq : q'.req = q.req) (hcb : q'.cb = q.cb)
    (hwritten : q'.written = q.written) : Aside gone id q q' := by
  refine ⟨?_, fun hid => ⟨hwork ▸ hid, congrFun hreq id⟩, fun hid => Or.inr (hwork ▸ hid), ?_,
    hwritten⟩
  · unfold Descq.pending at hnodup ⊢
    rw [hwork, hpend]
    exact hnodup
  · rw [hcb]

theorem Aside.listDel (hnodup : q.pending.Nodup) (hgone : gone) (j : ReqId) :
    Aside gone id q (q.listDel j) := by
  refine ⟨?_, fun hid => ⟨List.mem_of_mem_erase hid, rfl⟩, fun _ => Or.inl hgone, rfl, rfl⟩
  exact hnodup.sublist (List.erase_sublist.append List.erase_sublist)

theorem Aside.stopRequest {del : Descq → ReqId → Descq}
    (hdel : ∀ q j, q.pending.Nodup → Aside gone id q (del q j)) (hnodup : q.pending.Nodup)
    (j : ReqId) : Aside gone id q (H2c.stopRequest del q j) := by
  have hdone : Aside gone id q (q.setCb j { q.cb j with done := true, status := - ENXIO }) :=
    ⟨hnodup, fun hid => ⟨hid, rfl⟩, Or.inr,
      @offset_setCb q j { q.cb j with done := true, status := - ENXIO } rfl id, rfl⟩
  have hlog : ∀ {q : Descq} (cs : List Completion), q.pending.Nodup →
      Aside gone id q { q with completions := cs } :=
    fun cs hnodup => Aside.of_eq hnodup rfl rfl rfl rfl rfl
  unfold H2c.stopRequest
  dsimp only
  split
  · have hoff := hdone.trans (hdel _ j hdone.nodup)
    exact hoff.trans (hlog _ hoff.nodup)
  · exact hdone.trans (hlog _ hdone.nodup)

theorem Aside.foldl_stopRequest {del : Descq → ReqId → Descq}
    (hdel : ∀ q j, q.pending.Nodup → Aside gone id q (del q j)) (hnodup : q.pending.Nodup)
    (ids : List ReqId) : Aside gone id q (ids.foldl (H2c.stopRequest del) q) := by
  induction ids generalizing q with
  | nil => exact Aside.of_eq hnodup rfl rfl rfl rfl rfl
  | cons j ids ih =>
    have hone := Aside.stopRequest hdel hnodup j
    exact hone.trans (ih hone.nodup)

theorem Aside.stopEnd (hnodup : q.pending.Nodup) (hgone : gone) :
    Aside gone id q (qdmaQueueStopEnd q) := by
  have hstate : Aside gone id q { q with qState := .enabled, qStopWait := false } :=
    Aside.of_eq hnodup rfl rfl rfl rfl rfl
  have hdel : ∀ q j, q.pending.Nodup → Aside gone id q (q.listDel j) :=
    fun q j hnodup => Aside.listDel hnodup hgone j
  have hwork : ∀ q j, q.pending.Nodup → Aside gone id q (qdmaWorkQueueDel q j) := by
    intro q j hnodup
    have hoff := hdel q j hnodup
    exact hoff.trans (Aside.of_eq hoff.nodup rfl rfl rfl rfl rfl)
  unfold qdmaQueueStopEnd
  have hpend := hstate.trans (Aside.foldl_stopRequest hdel hstate.nodup q.pendList)
  exact hpend.trans (Aside.foldl_stopRequest hwork hpend.nodup _)

theorem Aside.giveUp (hnodup : q.pending.Nodup) {j : ReqId} (hgone : j = id → gone) :
    Aside gone id q (unmapSgl (q.listDel j) j) := by
  have hlists : (unmapSgl (q.listDel j) j).workList = q.workList.erase j ∧
      (unmapSgl (q.listDel j) j).pendList = q.pendList.erase j ∧
      (unmapSgl (q.listDel j) j).cb = q.cb ∧ (unmapSgl (q.listDel j) j).written = q.written ∧
      ∀ i ≠ j, (unmapSgl (q.listDel j) j).req i = q.req i := by
    unfold unmapSgl
    split
    · exact ⟨rfl, rfl, rfl, rfl, fun _ _ => rfl⟩
    · exact ⟨rfl, rfl, rfl, rfl, fun i hi => Function.update_of_ne hi _ _⟩
  obtain ⟨hwork, hpend, hcb, hwritten, hreq⟩ := hlists
  have hsub : (unmapSgl (q.listDel j) j).pending.Nodup := by
    unfold Descq.pending
    rw [hwork, hpend]
    exact hnodup.sublist (List.erase_sublist.append List.erase_sublist)
  have hwork_nodup : q.workList.Nodup := (List.nodup_append.mp hnodup).2.1
  refine ⟨hsub, fun hid => ?_, fun hid => ?_, by rw [hcb], hwritten⟩
  · rw [hwork] at hid
    have hne : id ≠ j := (hwork_nodup.mem_erase_iff.mp hid).1
    exact ⟨List.mem_of_mem_erase hid, hreq id hne⟩
  · rw [hwork] at hid
    obtain rfl | hne := eq_or_ne j id
    · exact Or.inl (hgone rfl)
    · exact Or.inr fun hold => hid ((List.mem_erase_of_ne hne.symm).mpr hold)

theorem Aside.enqueue (hnodup : q.pending.Nodup) {s : Submission} (hoff : s.id ∉ q.pending)
    (hne : s.id ≠ id) : Aside gone id q (H2c.enqueue q s) := by
  have hmove : (H2c.enqueue q s).pending = q.pending ++ [s.id] := by
    change q.pendList ++ (q.workList ++ [s.id]) = _
    rw [← List.append_assoc]
    rfl
  refine ⟨?_, fun hid => ?_, fun hid => ?_, ?_, rfl⟩
  · rw [hmove]
    exact List.nodup_append.mpr ⟨hnodup, List.nodup_singleton _, fun a ha b hb heq =>
      hoff (List.mem_singleton.mp hb ▸ heq ▸ ha)⟩
  · change id ∈ q.workList ++ [s.id] at hid
    obtain hid | hid := List.mem_append.mp hid
    · exact ⟨hid, Function.update_of_ne hne.symm _ _⟩
    · exact absurd (List.mem_singleton.mp hid).symm hne
  · change id ∉ q.workList ++ [s.id] at hid
    exact Or.inr fun hold => hid (List.mem_append_left _ hold)
  · change SgtReqCb.offset (Function.update q.cb s.id s.cb id) = _
    rw [Function.update_of_ne hne.symm]

/-! The ring is accounted for throughout. -/

theorem Accounted.cover (h : Accounted conf q) (e : CoverEvent) :
    Accounted conf (coverStep conf q e) := by
  have hscripted : ∀ inp : CallInput, Accounted conf (q.scripted inp) :=
    fun inp => (@Accounted.same _ _ (q.scripted inp) h rfl rfl).accounted
  cases e with
  | giveUp j => exact (h.keep ((sameRing_listDel q j).trans sameRing_unmapSgl)).accounted
  | serve e =>
    cases e with
    | submit s => exact (@Accounted.keep _ _ (H2c.enqueue q s) h ⟨rfl, rfl⟩).accounted
    | process inp =>
      change Accounted conf (afterCall q
        (qdmaDescqProcSgtRequest conf inp.fuel inp.doorbell (q.scripted inp)))
      cases hcall : qdmaDescqProcSgtRequest conf inp.fuel inp.doorbell (q.scripted inp) with
      | none => exact h
      | some r => exact ((hscripted inp).steps (CallSteps.process hcall)).accounted
    | service inp =>
      change Accounted conf (afterCall q
        (qdmaDescqServiceCmplUpdate conf inp.fuel inp.doorbell (q.scripted inp)))
      cases hcall : qdmaDescqServiceCmplUpdate conf inp.fuel inp.doorbell (q.scripted inp) with
      | none => exact h
      | some r => exact ((hscripted inp).steps (CallSteps.service hcall)).accounted
    | stopBegin =>
      change Accounted conf (qdmaQueueStopBegin q).2
      unfold qdmaQueueStopBegin
      split
      · exact h
      · exact (@Accounted.keep _ _ { q with qStopWait := true } h ⟨rfl, rfl⟩).accounted
    | stopEnd => exact (h.keep sameRing_qdmaQueueStopEnd).accounted
    | start ok => exact h.start ok

/-- A processing call. -/
theorem Covered.called (hext : conf.ulExt = none) (hcut : Cuttable conf req)
    (h : Covered conf gone req id log q) {inp : CallInput} {call : Option (ℤ × Descq)}
    (hsteps : ∀ r, call = some r → CallSteps conf (q.scripted inp) r.2) :
    ∃ q₁ made, q₁.written = q.written ∧ CallLog conf q₁ made (afterCall q call) ∧
      Covered conf gone req id (log ++ made) (afterCall q call) := by
  cases call with
  | none =>
    refine ⟨q, [], rfl, .refl q, ?_⟩
    rw [List.append_nil]
    exact h
  | some r =>
    obtain ⟨made, hlog⟩ := (hsteps r rfl).exists_log
    have hset : Covered conf gone req id log (q.scripted inp) := by
      have hsame : Advances conf q (q.scripted inp) := h.accounted.same rfl rfl
      exact h.aside hsame.accounted (Aside.of_eq h.nodup rfl rfl rfl rfl rfl)
    exact ⟨q.scripted inp, made, rfl, hlog, hset.steps hext hcut hlog⟩

/-- One step of a run. -/
theorem Covered.event (hext : conf.ulExt = none) (hcut : Cuttable conf req)
    (h : Covered conf gone req id log q) {e : CoverEvent} (hoff : OffLists q e)
    (hnew : ¬ Resubmits id e) (hgone : Removes id e → gone) :
    ∃ q₁ made, q₁.written = q.written ∧ CallLog conf q₁ made (coverStep conf q e) ∧
      Covered conf gone req id (log ++ made) (coverStep conf q e) := by
  have haccounted : Accounted conf (coverStep conf q e) := h.accounted.cover e
  have hquiet : Aside gone id q (coverStep conf q e) →
      ∃ q₁ made, q₁.written = q.written ∧ CallLog conf q₁ made (coverStep conf q e) ∧
        Covered conf gone req id (log ++ made) (coverStep conf q e) := by
    intro haside
    refine ⟨coverStep conf q e, [], haside.written, .refl _, ?_⟩
    rw [List.append_nil]
    exact h.aside haccounted haside
  cases e with
  | giveUp j => exact hquiet (Aside.giveUp h.nodup fun heq => hgone (heq ▸ Or.inl rfl))
  | serve e =>
    cases e with
    | submit s => exact hquiet (Aside.enqueue h.nodup hoff fun heq => hnew ⟨s, rfl, heq⟩)
    | process inp => exact @Covered.called _ _ _ _ _ _ hext hcut h inp _ fun r => CallSteps.process
    | service inp => exact @Covered.called _ _ _ _ _ _ hext hcut h inp _ fun r => CallSteps.service
    | stopBegin =>
      apply hquiet
      change Aside gone id q (qdmaQueueStopBegin q).2
      unfold qdmaQueueStopBegin
      split
      · exact Aside.of_eq h.nodup rfl rfl rfl rfl rfl
      · exact Aside.of_eq h.nodup rfl rfl rfl rfl rfl
    | stopEnd => exact hquiet (Aside.stopEnd h.nodup (hgone (Or.inr rfl)))
    | start ok =>
      apply hquiet
      change Aside gone id q (qdmaQueueStart conf ok q).2
      unfold qdmaQueueStart
      split
      · exact Aside.of_eq h.nodup rfl rfl rfl rfl rfl
      · dsimp only
        split
        · exact Aside.of_eq h.nodup rfl rfl rfl rfl rfl
        · exact Aside.of_eq h.nodup rfl rfl rfl rfl rfl

theorem Covered.run (hext : conf.ulExt = none) (hcut : Cuttable conf req) {es : List CoverEvent}
    (h : Covered conf gone req id log q) (hoff : Admitted (coverStep conf) OffLists q es)
    (hnew : ∀ e ∈ es, ¬ Resubmits id e) (hgone : ∀ e ∈ es, Removes id e → gone) :
    ∃ made, RunLog conf q es made ∧
      Covered conf gone req id (log ++ made) (Lib.run (coverStep conf) q es) := by
  induction es generalizing q log with
  | nil =>
    refine ⟨[], .nil q, ?_⟩
    rw [List.append_nil]
    exact h
  | cons e es ih =>
    obtain ⟨q₁, made, hwritten, hcall, hnext⟩ := h.event hext hcut hoff.1
      (hnew e List.mem_cons_self) (hgone e List.mem_cons_self)
    obtain ⟨rest, hrest, hlast⟩ := ih hnext hoff.2
      (fun f hf => hnew f (List.mem_cons_of_mem e hf))
      fun f hf => hgone f (List.mem_cons_of_mem e hf)
    refine ⟨made ++ rest, .cons hwritten hcall hrest, ?_⟩
    rw [← List.append_assoc]
    exact hlast

/-- No request is on the lists twice. -/
theorem nodup_event (hext : conf.ulExt = none) (hnodup : q.pending.Nodup) {e : CoverEvent}
    (hoff : OffLists q e) : (coverStep conf q e).pending.Nodup := by
  have hfill : CallbackQueues (fun _ => True) conf := by
    intro fill hfill
    rw [hext] at hfill
    cases hfill
  cases e with
  | giveUp j => exact (@Aside.giveUp _ j True hnodup _ fun _ => trivial).nodup
  | serve e =>
    cases e with
    | submit s =>
      exact (@Aside.enqueue _ (s.id + 1) True hnodup _ hoff
        (Nat.succ_ne_self s.id).symm).nodup
    | process inp =>
      change (afterCall q
        (qdmaDescqProcSgtRequest conf inp.fuel inp.doorbell (q.scripted inp))).pending.Nodup
      cases hcall : qdmaDescqProcSgtRequest conf inp.fuel inp.doorbell (q.scripted inp) with
      | none => exact hnodup
      | some r => exact (Walk.process (q := q.scripted inp) hfill hnodup hcall).pending hnodup
    | service inp =>
      change (afterCall q
        (qdmaDescqServiceCmplUpdate conf inp.fuel inp.doorbell (q.scripted inp))).pending.Nodup
      cases hcall : qdmaDescqServiceCmplUpdate conf inp.fuel inp.doorbell (q.scripted inp) with
      | none => exact hnodup
      | some r => exact (Walk.service (q := q.scripted inp) hfill hnodup hcall).pending hnodup
    | stopBegin =>
      change (qdmaQueueStopBegin q).2.pending.Nodup
      unfold qdmaQueueStopBegin
      split
      · exact hnodup
      · exact hnodup
    | stopEnd => exact (@Aside.stopEnd _ 0 True hnodup trivial).nodup
    | start ok =>
      change (qdmaQueueStart conf ok q).2.pending.Nodup
      unfold qdmaQueueStart
      split
      · exact hnodup
      · dsimp only
        split
        · exact hnodup
        · exact hnodup

/-- What holds before a request is submitted. -/
theorem sound_run (hext : conf.ulExt = none) {es : List CoverEvent} (h : Accounted conf q)
    (hnodup : q.pending.Nodup) (hoff : Admitted (coverStep conf) OffLists q es) :
    Accounted conf (Lib.run (coverStep conf) q es) ∧
      (Lib.run (coverStep conf) q es).pending.Nodup := by
  apply Admitted.invariant (I := fun q => Accounted conf q ∧ q.pending.Nodup) _ ⟨h, hnodup⟩ hoff
  rintro q e ⟨hq, hnodup⟩ hoff
  exact ⟨hq.cover e, nodup_event hext hnodup hoff⟩

/-- In every run, what the descriptors of a request transfer, in the order in which they were made,
is its list from the first byte up to its offset, each byte once and at its device address; every
descriptor is within its limits; and a request that was not removed leaves the work list only when
its count is reached. -/
theorem coverRun_covered (hext : conf.ulExt = none) {es fs : List CoverEvent} {sub : Submission}
    (hoff : Admitted (coverStep conf) OffLists conf.start (es ++ .serve (.submit sub) :: fs))
    (hcut : Cuttable conf sub.req) (hzero : sub.cb.offset = 0)
    (hnew : ∀ e ∈ fs, ¬ Resubmits sub.id e) :
    let q := enqueue (run (coverStep conf) conf.start es) sub
    let q' := run (coverStep conf) q fs
    ∃ log, RunLog conf q fs log ∧
      (ofReq sub.id log).flatMap (descBytes conf) =
        (transfer conf sub.req).take (q'.cb sub.id).offset ∧
      (q'.cb sub.id).offset ≤ (transfer conf sub.req).length ∧
      (∀ d ∈ ofReq sub.id log, DescFits conf sub.req d) ∧
      ((∀ e ∈ fs, ¬ Removes sub.id e) → sub.id ∉ q'.workList →
        sub.req.count ≤ (q'.cb sub.id).offset) := by
  have hstart : Accounted conf conf.start := ⟨0, 0, Indices.start conf⟩
  obtain ⟨hbefore, hsubmit, hafter⟩ := admitted_append.mp hoff
  obtain ⟨haccounted, hnodup⟩ := sound_run hext hstart List.nodup_nil hbefore
  intro q q'
  have hreq : q.req sub.id = sub.req := Function.update_self _ _ _
  have hcb : q.cb sub.id = sub.cb := Function.update_self _ _ _
  have hwork : sub.id ∈ q.workList := List.mem_append_right _ List.mem_cons_self
  have h : Covered conf (∃ e ∈ fs, Removes sub.id e) sub.req sub.id [] q := by
    refine ⟨haccounted.cover (.serve (.submit sub)), nodup_event hext hnodup hsubmit, ?_, ?_,
      fun d hd => absurd hd List.not_mem_nil, fun _ => ⟨hreq, fun _ => ?_⟩,
      fun hnot => absurd hwork hnot⟩
    · rw [hcb, hzero]
      exact Nat.zero_le _
    · rw [hcb, hzero]
      rfl
    · rw [hcb, hzero]
  obtain ⟨log, hlog, hcovered⟩ := h.run hext hcut hafter hnew fun e he hrem => ⟨e, he, hrem⟩
  refine ⟨log, hlog, hcovered.bytes, hcovered.le, hcovered.fits, fun hstays hnot => ?_⟩
  obtain ⟨e, he, hrem⟩ | hcount := hcovered.left hnot
  · exact absurd hrem (hstays e he)
  · exact hcount

end

/-- A memory mapped queue with a keyhole window of 16 bytes. -/
def keyholeConf : QueueConf := { pollConf with apertureSize := 16 }

/-- A request is processed while the hardware consumes three descriptors, and then another one is
in the way. -/
theorem coverRun_covered_keyhole :
    let sub : Submission := { id := 1, req := pollReq }
    let fs : List CoverEvent := [.serve (.process { fuel := 9, advances := [3] }),
      .serve (.submit { id := 2, req := pollReq }), .serve (.service { fuel := 9 })]
    let q := enqueue (run (coverStep keyholeConf) keyholeConf.start []) sub
    let q' := run (coverStep keyholeConf) q fs
    ∃ log, RunLog keyholeConf q fs log ∧
      (ofReq sub.id log).flatMap (descBytes keyholeConf) =
        (transfer keyholeConf sub.req).take (q'.cb sub.id).offset ∧
      (q'.cb sub.id).offset ≤ (transfer keyholeConf sub.req).length ∧
      (∀ d ∈ ofReq sub.id log, DescFits keyholeConf sub.req d) ∧
      ((∀ e ∈ fs, ¬ Removes sub.id e) → sub.id ∉ q'.workList →
        sub.req.count ≤ (q'.cb sub.id).offset) := by
  apply @coverRun_covered _ rfl []
  · refine ⟨List.not_mem_nil, trivial, ?_, trivial, trivial⟩
    change 2 ∉ Descq.pending _
    decide +kernel
  · exact ⟨by decide, fun _ => ⟨⟨4, by decide, rfl⟩, by decide⟩⟩
  · rfl
  · intro e he
    rintro ⟨s, rfl, hs⟩
    simp only [List.mem_cons, CoverEvent.serve.injEq, ServeEvent.submit.injEq, reduceCtorEq,
      List.not_mem_nil, or_false, false_or] at he
    subst he
    exact absurd hs (by decide)

end OnicDriver.H2c
