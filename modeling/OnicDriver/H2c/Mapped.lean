import OnicDriver.H2c.InFlight
import OnicDriver.H2c.Submit
import OnicDriver.Lib.Runs

/-!
# The page mappings of requests

A request that its client did not map is mapped when it is submitted and unmapped
when it ends or is rejected. In the runs in which a page mapping fails only for a
packet, batches are submitted to online queues, no caller gives up on a request
that has descriptors, and the queue is stopped only when its lists are empty, the
mappings that exist are exactly those of the requests on the lists.
-/

namespace OnicDriver.H2c

open Lib Queue

/-- The pages that are mapped have an address other than 0, also with the offset added. -/
def mapsSane : List (Option ℕ) → List SwSg → Bool
  | some addr :: maps, sg :: sgl =>
    decide (addr < 2 ^ 64 ∧ u64 ((addr : ℤ) + sg.offset) ≠ 0 ∧ sg.pg ≠ 0) && mapsSane maps sgl
  | _, _ => true

/-- No mapping of a page fails. -/
def mapsDone : List (Option ℕ) → List SwSg → Bool
  | _, [] => true
  | some _ :: maps, _ :: sgl => mapsDone maps sgl
  | _, _ :: _ => false

/-- The pages of a request are mapped by the client, or they can be. -/
def CanMap (req : QdmaRequest) (maps : List (Option ℕ)) : Prop :=
  req.dmaMapped = true ∨ mapsSane maps (elems req) = true ∧ mapsDone maps (elems req) = true

instance (req : QdmaRequest) (maps : List (Option ℕ)) : Decidable (CanMap req maps) :=
  inferInstanceAs (Decidable (_ ∨ _))

/-- The pages of a request are mapped by the client, or a mapping of them may fail. -/
def MayMap (req : QdmaRequest) (maps : List (Option ℕ)) : Prop :=
  req.dmaMapped = true ∨ mapsSane maps (elems req) = true

instance (req : QdmaRequest) (maps : List (Option ℕ)) : Decidable (MayMap req maps) :=
  inferInstanceAs (Decidable (_ ∨ _))

/-- What a step before the queueing of a request does: only the request itself and the mappings
change. -/
structure OnlyReq (id : ReqId) (q q' : Descq) : Prop where
  ring : q'.ring = q.ring
  credit : q'.credit = q.credit
  pend : q'.pendList = q.pendList
  work : q'.workList = q.workList
  cb : ∀ j ≠ id, q'.cb j = q.cb j
  req : ∀ j ≠ id, q'.req j = q.req j

/-- The request `id` is mapped, in addition to what was mapped. -/
structure MappedFor (id : ReqId) (q q' : Descq) : Prop where
  fault : q'.dma.fault = q.dma.fault
  mapped : q'.dma.mapped.Perm (pagesOf q' id ++ q.dma.mapped)
  clean : (q'.cb id).unmapNeeded = true → Unmappable (elems (q'.req id))
  needed : (q'.cb id).unmapNeeded = !(q'.req id).dmaMapped

section

variable {conf : QueueConf} {q q' q'' : Descq} {id : ReqId}

/-! ## Mapping -/

theorem pageAddr_mapped {addr : ℕ} (haddr : addr < 2 ^ 64) (sg : SwSg) :
    pageAddr { sg with dmaAddr := u64 ((addr : ℤ) + sg.offset) } = addr := by
  unfold pageAddr u64
  dsimp only
  omega

/-- The loop over the pages: the elements that were mapped can be unmapped. -/
theorem mapPages_sane {maps : List (Option ℕ)} {sgl : List SwSg} (hsane : mapsSane maps sgl = true)
    (d : Dma) :
    (mapPages maps sgl d).2.1.length = sgl.length ∧
      Unmappable ((mapPages maps sgl d).2.1.take (mapPages maps sgl d).1) ∧
      (mapPages maps sgl d).2.2.fault = d.fault ∧
      (mapPages maps sgl d).2.2.mapped.Perm
        (pagesIn ((mapPages maps sgl d).2.1.take (mapPages maps sgl d).1) ++ d.mapped) := by
  induction sgl generalizing maps d with
  | nil =>
    unfold mapPages
    exact ⟨rfl, fun sg hsg => absurd hsg List.not_mem_nil, rfl, List.Perm.refl _⟩
  | cons sg sgl ih =>
    rcases maps with _ | ⟨_ | addr, maps⟩
    · unfold mapPages
      exact ⟨rfl, fun sg hsg => absurd hsg List.not_mem_nil, rfl, List.Perm.refl _⟩
    · unfold mapPages
      exact ⟨rfl, fun sg hsg => absurd hsg List.not_mem_nil, rfl, List.Perm.refl _⟩
    · unfold mapsSane at hsane
      rw [Bool.and_eq_true, decide_eq_true_eq] at hsane
      obtain ⟨⟨haddr, hne, hpg⟩, hrest⟩ := hsane
      obtain ⟨hlist, hclean, hfault, hperm⟩ := ih hrest { d with mapped := addr :: d.mapped }
      unfold mapPages
      dsimp only
      rw [List.take_succ_cons]
      refine ⟨?_, ?_, hfault, ?_⟩
      · rw [List.length_cons, hlist, List.length_cons]
      · intro sg' hsg'
        obtain rfl | hsg' := List.mem_cons.mp hsg'
        · exact hpg
        · exact hclean sg' hsg'
      · rw [pagesIn_cons hne, pageAddr_mapped haddr, List.cons_append]
        exact hperm.trans List.perm_middle

theorem length_mapPages {maps : List (Option ℕ)} {sgl : List SwSg} (d : Dma) :
    (mapPages maps sgl d).2.1.length = sgl.length := by
  induction sgl generalizing maps d with
  | nil =>
    unfold mapPages
    rfl
  | cons sg sgl ih =>
    rcases maps with _ | ⟨_ | addr, maps⟩
    · rfl
    · rfl
    · unfold mapPages
      dsimp only
      rw [List.length_cons, ih, List.length_cons]

/-- All elements are mapped unless a mapping fails. -/
theorem mapPages_fst {maps : List (Option ℕ)} {sgl : List SwSg} (d : Dma) :
    (mapPages maps sgl d).1 = sgl.length ↔ mapsDone maps sgl = true := by
  induction sgl generalizing maps d with
  | nil =>
    unfold mapPages mapsDone
    exact ⟨fun _ => rfl, fun _ => rfl⟩
  | cons sg sgl ih =>
    rcases maps with _ | ⟨_ | addr, maps⟩
    · exact ⟨fun h => (nomatch h), fun h => (nomatch h)⟩
    · exact ⟨fun h => (nomatch h), fun h => (nomatch h)⟩
    · unfold mapPages mapsDone
      dsimp only
      rw [List.length_cons, Nat.add_right_cancel_iff]
      exact ih _

theorem sglMap_done {maps : List (Option ℕ)} {sgl : List SwSg} (hsane : mapsSane maps sgl = true)
    (hdone : mapsDone maps sgl = true) (d : Dma) :
    sglMap maps sgl d = (true, (mapPages maps sgl d).2) ∧
      (mapPages maps sgl d).2.1.length = sgl.length ∧
      Unmappable (mapPages maps sgl d).2.1 ∧
      (mapPages maps sgl d).2.2.fault = d.fault ∧
      (mapPages maps sgl d).2.2.mapped.Perm
        (pagesIn (mapPages maps sgl d).2.1 ++ d.mapped) := by
  obtain ⟨hlist, hclean, hfault, hperm⟩ := mapPages_sane hsane d
  have hlen := ((mapPages_fst d).mpr hdone).trans hlist.symm
  rw [hlen, List.take_length] at hclean hperm
  refine ⟨?_, hlist, hclean, hfault, hperm⟩
  unfold sglMap
  dsimp only
  rw [if_pos hlen]

/-- When a mapping fails, those before it are undone. -/
theorem sglMap_failed {maps : List (Option ℕ)} {sgl : List SwSg} (hsane : mapsSane maps sgl = true)
    (hdone : mapsDone maps sgl = false) (d : Dma) :
    (sglMap maps sgl d).1 = false ∧ (sglMap maps sgl d).2.2.fault = d.fault ∧
      (sglMap maps sgl d).2.2.mapped.Perm d.mapped := by
  obtain ⟨hlist, hclean, hfault, hperm⟩ := mapPages_sane hsane d
  have hlen : ¬ (mapPages maps sgl d).1 = (mapPages maps sgl d).2.1.length := by
    rw [hlist, mapPages_fst, hdone]
    decide
  obtain ⟨hunfault, hunperm⟩ := sglUnmap_mapped hclean hperm
  unfold sglMap
  dsimp only
  rw [if_neg hlen]
  exact ⟨rfl, hunfault.trans hfault, hunperm⟩

theorem elems_withElems {req : QdmaRequest} {sgl : List SwSg}
    (hlen : sgl.length = (elems req).length) : elems (withElems req sgl) = sgl := by
  unfold elems at hlen
  rw [List.length_take] at hlen
  unfold elems withElems
  dsimp only
  obtain hle | hlt := le_or_gt req.sgl.length req.sgcnt
  · rw [List.drop_eq_nil_of_le hle, List.append_nil, List.take_of_length_le (by omega)]
  · rw [List.take_append_of_le_length (by omega), List.take_of_length_le (by omega)]

theorem OnlyReq.refl (id : ReqId) (q : Descq) : OnlyReq id q q :=
  ⟨rfl, rfl, rfl, rfl, fun _ _ => rfl, fun _ _ => rfl⟩

theorem OnlyReq.trans (h : OnlyReq id q q') (h' : OnlyReq id q' q'') : OnlyReq id q q'' := by
  constructor
  · rw [h'.ring, h.ring]
  · rw [h'.credit, h.credit]
  · rw [h'.pend, h.pend]
  · rw [h'.work, h.work]
  · exact fun j hj => (h'.cb j hj).trans (h.cb j hj)
  · exact fun j hj => (h'.req j hj).trans (h.req j hj)

theorem OnlyReq.setReq (req : QdmaRequest) : OnlyReq id q (q.setReq id req) :=
  ⟨rfl, rfl, rfl, rfl, fun _ _ => rfl, fun _ hj => Function.update_of_ne hj _ _⟩

theorem OnlyReq.setCb (cb : SgtReqCb) : OnlyReq id q (q.setCb id cb) :=
  ⟨rfl, rfl, rfl, rfl, fun _ hj => Function.update_of_ne hj _ _, fun _ _ => rfl⟩

/-- `sgl_unmap` undoes the mapping of a request. -/
theorem MappedFor.unmapSgl (h : MappedFor id q q') :
    OnlyReq id q' (unmapSgl q' id) ∧ (unmapSgl q' id).dma.fault = q.dma.fault ∧
      (unmapSgl q' id).dma.mapped.Perm q.dma.mapped := by
  have hmapped := h.mapped
  unfold pagesOf at hmapped
  rw [h.needed] at hmapped
  unfold H2c.unmapSgl
  split
  · rename_i hclient
    rw [hclient] at hmapped
    exact ⟨OnlyReq.refl id q', h.fault, hmapped⟩
  · rename_i hclient
    rw [Bool.not_eq_true] at hclient
    rw [hclient] at hmapped
    have hneeded : (q'.cb id).unmapNeeded = true := by
      rw [h.needed, hclient]
      rfl
    obtain ⟨hfault, hperm⟩ := sglUnmap_mapped (h.clean hneeded) hmapped
    exact ⟨⟨rfl, rfl, rfl, rfl, fun _ _ => rfl, fun _ hj => Function.update_of_ne hj _ _⟩,
      hfault.trans h.fault, hperm⟩

/-- A request whose pages can be mapped is mapped. -/
theorem mapForSubmit_ok {maps : List (Option ℕ)} (hmaps : CanMap (q.req id) maps)
    (hclean : (q.cb id).unmapNeeded = false) :
    ∃ q', mapForSubmit q id maps = (true, q') ∧ OnlyReq id q q' ∧ MappedFor id q q' ∧
      (q'.cb id).descNr = (q.cb id).descNr ∧ (q'.cb id).done = (q.cb id).done ∧
      (q'.req id).fpDone = (q.req id).fpDone ∧
      (q'.req id).checkQstateDisabled = (q.req id).checkQstateDisabled := by
  unfold mapForSubmit
  cases hclient : (q.req id).dmaMapped with
  | true =>
    rw [if_pos rfl]
    refine ⟨q, rfl, OnlyReq.refl id q, ⟨rfl, ?_, ?_, ?_⟩, rfl, rfl, rfl, rfl⟩
    · rw [pagesOf, if_neg (by rw [hclean]; decide), List.nil_append]
    · intro hneeded
      rw [hclean] at hneeded
      cases hneeded
    · rw [hclean, hclient]
      rfl
  | false =>
    have hsgl : mapsSane maps (elems (q.req id)) = true ∧
        mapsDone maps (elems (q.req id)) = true := by
      obtain hmapped | hsgl := hmaps
      · rw [hclient] at hmapped
        cases hmapped
      · exact hsgl
    obtain ⟨hmap, hlist, hunmap, hfault, hperm⟩ := sglMap_done hsgl.1 hsgl.2 q.dma
    rw [if_neg (by decide)]
    unfold sglMapReq
    rw [hmap]
    dsimp only
    rw [if_pos rfl]
    set sgl := (mapPages maps (elems (q.req id)) q.dma).2.1
    set dma := (mapPages maps (elems (q.req id)) q.dma).2.2
    set q₁ : Descq := { q.setReq id (withElems (q.req id) sgl) with dma := dma } with hq₁
    have hreq : q₁.req id = withElems (q.req id) sgl := Function.update_self id _ q.req
    set q₂ := q₁.setCb id { q₁.cb id with unmapNeeded := true } with hq₂
    have hreq₂ : q₂.req id = withElems (q.req id) sgl := hreq
    have hcb : q₂.cb id = { q.cb id with unmapNeeded := true } := Function.update_self id _ q₁.cb
    have helems : elems (q₂.req id) = sgl := by
      rw [hreq₂]
      exact elems_withElems hlist
    have honly : OnlyReq id q q₁ :=
      ⟨rfl, rfl, rfl, rfl, fun _ _ => rfl, fun _ hj => Function.update_of_ne hj _ _⟩
    refine ⟨q₂, rfl, honly.trans (OnlyReq.setCb _), ⟨hfault, ?_, ?_, ?_⟩, ?_, ?_, ?_, ?_⟩
    · rw [pagesOf, hcb, helems, if_pos rfl]
      exact hperm
    · intro _
      rw [helems]
      exact hunmap
    · rw [hcb, hreq₂]
      exact (congrArg (! ·) hclient).symm
    · rw [hcb]
    · rw [hcb]
    · rw [hreq₂]
      rfl
    · rw [hreq₂]
      rfl

/-- When a mapping fails, the request is left without one. -/
theorem mapForSubmit_failed {maps : List (Option ℕ)} (hclient : (q.req id).dmaMapped = false)
    (hsane : mapsSane maps (elems (q.req id)) = true)
    (hdone : mapsDone maps (elems (q.req id)) = false) :
    ∃ q', mapForSubmit q id maps = (false, q') ∧ OnlyReq id q q' ∧ q'.cb = q.cb ∧
      q'.dma.fault = q.dma.fault ∧ q'.dma.mapped.Perm q.dma.mapped := by
  obtain ⟨hok, hfault, hperm⟩ := sglMap_failed hsane hdone q.dma
  unfold mapForSubmit sglMapReq
  rw [hclient, if_neg (by decide)]
  generalize sglMap maps (elems (q.req id)) q.dma = r at hok hfault hperm
  obtain ⟨ok, sgl, dma⟩ := r
  dsimp only at hok hfault hperm ⊢
  rw [hok, if_neg (by decide)]
  refine ⟨_, rfl, ?_, rfl, hfault, hperm⟩
  exact ⟨rfl, rfl, rfl, rfl, fun _ _ => rfl, fun _ hj => Function.update_of_ne hj _ _⟩

/-! ## Requests that come and go -/

theorem OnlyReq.pending (h : OnlyReq id q q') : q'.pending = q.pending := by
  unfold Descq.pending
  rw [h.pend, h.work]

theorem OnlyReq.issued (h : OnlyReq id q q') (hid : id ∉ q.pending) : issued q' = issued q := by
  unfold H2c.issued
  rw [h.pending]
  apply List.flatMap_congr
  intro j hj
  rw [h.cb j (ne_of_mem_of_not_mem hj hid)]

theorem OnlyReq.pagesOf (h : OnlyReq id q q') {j : ReqId} (hj : j ≠ id) :
    pagesOf q' j = pagesOf q j := by
  unfold H2c.pagesOf
  rw [h.cb j hj, h.req j hj]

/-- Requests that are not on the lists do not matter. -/
theorem Flying.onlyReq (h : Flying conf q) (honly : OnlyReq id q q') (hid : id ∉ q.pending)
    (hfault : q'.dma.fault = q.dma.fault) (hmapped : q'.dma.mapped.Perm q.dma.mapped) :
    Flying conf q' := by
  have hne : ∀ j ∈ q.pending, j ≠ id := fun j hj => ne_of_mem_of_not_mem hj hid
  have howners : q'.owners = q.owners := congrArg RingView.owners honly.ring
  have hpages : mappedPages q' = mappedPages q := by
    unfold mappedPages
    rw [honly.pending]
    exact List.flatMap_congr fun j hj => honly.pagesOf (hne j hj)
  unfold Flying
  rw [honly.credit]
  constructor
  · obtain ⟨k, m, hind, hle⟩ := h.indices
    rw [honly.ring, howners]
    exact ⟨k, m, hind, hle⟩
  · rw [honly.pending]
    exact h.nodup
  · intro j hj
    rw [honly.work] at hj
    rw [honly.cb j (hne j (List.mem_append_right _ (List.mem_of_mem_tail hj)))]
    exact h.head j hj
  · rw [honly.issued hid]
    exact h.credit
  · rw [howners, honly.issued hid]
    exact h.owners
  · rw [hfault]
    exact h.fault
  · rw [hpages]
    exact hmapped.trans h.mapped
  · intro j hj hneeded
    rw [honly.pending] at hj
    rw [honly.cb j (hne j hj)] at hneeded
    rw [honly.req j (hne j hj)]
    exact h.clean j hj hneeded
  · intro j hj
    rw [honly.pending] at hj
    rw [honly.cb j (hne j hj)]
    exact h.notDone j hj

/-- A request comes to the end of the work list. -/
theorem Flying.add (h : Flying conf q) (honly : OnlyReq id q q') (hid : id ∉ q.pending)
    (hfault : q'.dma.fault = q.dma.fault)
    (hmapped : q'.dma.mapped.Perm (H2c.pagesOf q' id ++ q.dma.mapped))
    (hclean : (q'.cb id).unmapNeeded = true → Unmappable (elems (q'.req id)))
    (hnr : (q'.cb id).descNr = 0) (hdone : (q'.cb id).done = false) (n : ℕ) :
    Flying conf { q' with workList := q'.workList ++ [id], workReqPend := n } ∧
      H2c.issued { q' with workList := q'.workList ++ [id], workReqPend := n } =
        H2c.issued q := by
  set q₁ : Descq := { q' with workList := q'.workList ++ [id], workReqPend := n } with hq₁
  have hne : ∀ j ∈ q.pending, j ≠ id := fun j hj => ne_of_mem_of_not_mem hj hid
  have howners : q₁.owners = q.owners := congrArg RingView.owners honly.ring
  have hpending : q₁.pending = q.pending ++ [id] := by
    change q'.pendList ++ (q'.workList ++ [id]) = _
    rw [honly.pend, honly.work, Descq.pending, List.append_assoc]
  have hissued : H2c.issued q₁ = H2c.issued q := by
    unfold H2c.issued
    rw [hpending, List.flatMap_append, List.flatMap_singleton]
    have hnil : List.replicate (q₁.cb id).descNr id = [] := by
      change List.replicate (q'.cb id).descNr id = []
      rw [hnr, List.replicate_zero]
    rw [hnil, List.append_nil]
    apply List.flatMap_congr
    intro j hj
    change List.replicate (q'.cb j).descNr j = _
    rw [honly.cb j (hne j hj)]
  have hpages : mappedPages q₁ = mappedPages q ++ H2c.pagesOf q' id := by
    unfold mappedPages
    rw [hpending, List.flatMap_append, List.flatMap_singleton]
    congr 1
    exact List.flatMap_congr fun j hj => honly.pagesOf (hne j hj)
  have hmem : ∀ j ∈ q₁.pending, j ∈ q.pending ∨ j = id := by
    intro j hj
    rw [hpending, List.mem_append, List.mem_singleton] at hj
    exact hj
  refine ⟨?_, hissued⟩
  have hcredit : q₁.credit = q.credit := honly.credit
  unfold Flying
  rw [hcredit]
  constructor
  · obtain ⟨k, m, hind, hle⟩ := h.indices
    rw [howners]
    refine ⟨k, m, hind.congr ?_, hle⟩
    change q'.ring.slots = q.ring.slots
    rw [honly.ring]
  · rw [hpending, List.nodup_append]
    refine ⟨h.nodup, List.nodup_singleton id, ?_⟩
    intro a ha b hb
    rw [List.mem_singleton] at hb
    rw [hb]
    exact hne a ha
  · intro j hj
    change j ∈ (q'.workList ++ [id]).tail at hj
    change (q'.cb j).descNr = 0
    rw [honly.work] at hj
    have hcases : j ∈ q.workList.tail ∨ j = id := by
      cases hwork : q.workList with
      | nil =>
        rw [hwork] at hj
        exact absurd hj List.not_mem_nil
      | cons a rest =>
        rw [hwork, List.cons_append, List.tail_cons, List.mem_append, List.mem_singleton] at hj
        exact hj
    obtain hj | rfl := hcases
    · rw [honly.cb j (hne j (List.mem_append_right _ (List.mem_of_mem_tail hj)))]
      exact h.head j hj
    · exact hnr
  · rw [hissued]
    exact h.credit
  · rw [howners, hissued]
    exact h.owners
  · exact hfault.trans h.fault
  · rw [hpages]
    have hall : (H2c.pagesOf q' id ++ q.dma.mapped).Perm (H2c.pagesOf q' id ++ mappedPages q) :=
      h.mapped.append_left _
    exact (hmapped.trans hall).trans List.perm_append_comm
  · intro j hj hneeded
    obtain hj | rfl := hmem j hj
    · change (q'.cb j).unmapNeeded = true at hneeded
      change Unmappable (elems (q'.req j))
      rw [honly.cb j (hne j hj)] at hneeded
      rw [honly.req j (hne j hj)]
      exact h.clean j hj hneeded
    · exact hclean hneeded
  · intro j hj
    change (q'.cb j).done = false
    obtain hj | rfl := hmem j hj
    · rw [honly.cb j (hne j hj)]
      exact h.notDone j hj
    · exact hdone

/-- Removing an element that contributes nothing. -/
theorem flatMap_erase {l : List ReqId} {f : ReqId → List ℕ} (hnodup : l.Nodup)
    (hnil : f id = []) : (l.erase id).flatMap f = l.flatMap f := by
  induction l with
  | nil => rfl
  | cons a l ih =>
    obtain ⟨hnot, hrest⟩ := List.nodup_cons.mp hnodup
    by_cases ha : a = id
    · rw [ha, List.erase_cons_head, List.flatMap_cons, hnil, List.nil_append]
    · rw [List.erase_cons_tail (by rw [beq_iff_eq]; exact ha), List.flatMap_cons, List.flatMap_cons,
        ih hrest]

theorem pending_listDel (h : q.pending.Nodup) : (q.listDel id).pending = q.pending.erase id := by
  change q.pendList.erase id ++ q.workList.erase id = (q.pendList ++ q.workList).erase id
  rw [Descq.pending, List.nodup_append] at h
  by_cases hmem : id ∈ q.pendList
  · have hnot : id ∉ q.workList := fun hwork => h.2.2 id hmem id hwork rfl
    rw [List.erase_append_left _ hmem, List.erase_of_not_mem hnot]
  · rw [List.erase_append_right _ hmem, List.erase_of_not_mem hmem]

/-- A request without descriptors leaves its list and is unmapped. -/
theorem Flying.remove (h : Flying conf q) (hid : id ∈ q.pending) (hnr : (q.cb id).descNr = 0)
    (hneeded : (q.cb id).unmapNeeded = !(q.req id).dmaMapped) :
    Flying conf (H2c.unmapSgl (q.listDel id) id) ∧
      H2c.issued (H2c.unmapSgl (q.listDel id) id) = H2c.issued q ∧
      OnlyReq id (q.listDel id) (H2c.unmapSgl (q.listDel id) id) := by
  set q₀ := q.listDel id with hq₀
  have hpending : q₀.pending = q.pending.erase id := pending_listDel h.nodup
  have hnot : id ∉ q₀.pending := by
    rw [hpending]
    exact h.nodup.not_mem_erase
  have hissued : H2c.issued q₀ = H2c.issued q := by
    unfold H2c.issued
    rw [hpending]
    apply flatMap_erase h.nodup
    change List.replicate (q.cb id).descNr id = []
    rw [hnr, List.replicate_zero]
  have hpages : (mappedPages q).Perm (H2c.pagesOf q₀ id ++ mappedPages q₀) := by
    unfold mappedPages
    rw [hpending]
    exact (List.perm_cons_erase hid).flatMap_right (H2c.pagesOf q)
  -- the queue without the request, whose pages are mapped in addition
  set bare : Descq := { q₀ with dma := { q₀.dma with mapped := mappedPages q₀ } } with hbare
  have hfor : MappedFor id bare q₀ := by
    refine ⟨rfl, h.mapped.trans hpages, ?_, hneeded⟩
    exact fun hn => h.clean id hid hn
  have hflying : Flying conf bare := by
    constructor
    · obtain ⟨k, m, hind, hle⟩ := h.indices
      exact ⟨k, m, hind.congr rfl, hle⟩
    · change q₀.pending.Nodup
      rw [hpending]
      exact h.nodup.erase id
    · intro j hj
      change j ∈ (q.workList.erase id).tail at hj
      apply h.head j
      cases hwork : q.workList with
      | nil =>
        rw [hwork] at hj
        exact absurd hj List.not_mem_nil
      | cons a rest =>
        rw [hwork] at hj
        by_cases ha : a = id
        · rw [ha, List.erase_cons_head] at hj
          exact List.mem_of_mem_tail hj
        · rw [List.erase_cons_tail (by rw [beq_iff_eq]; exact ha), List.tail_cons] at hj
          exact List.mem_of_mem_erase hj
    · change q.credit ≤ (H2c.issued q₀).length
      rw [hissued]
      exact h.credit
    · change q.owners = (H2c.issued q₀).drop q.credit ++ []
      rw [hissued]
      exact h.owners
    · exact h.fault
    · exact List.Perm.refl _
    · intro j hj hn
      have hmem : j ∈ q.pending := by
        change j ∈ q₀.pending at hj
        rw [hpending] at hj
        exact List.mem_of_mem_erase hj
      exact h.clean j hmem hn
    · intro j hj
      have hmem : j ∈ q.pending := by
        change j ∈ q₀.pending at hj
        rw [hpending] at hj
        exact List.mem_of_mem_erase hj
      exact h.notDone j hmem
  obtain ⟨honly, hfault, hmapped⟩ := hfor.unmapSgl
  have hall : OnlyReq id bare (H2c.unmapSgl q₀ id) :=
    ⟨honly.ring, honly.credit, honly.pend, honly.work, honly.cb, honly.req⟩
  refine ⟨hflying.onlyReq hall hnot hfault hmapped, ?_, honly⟩
  rw [honly.issued hnot, hissued]

end

/-! ## Runs -/

/-- A call of a client, a processing call, or a step of the queue's administration. `waited` is the
return of a caller from its wait, because its request is done or its time is over. -/
inductive ClientEvent
  | requestSubmit (id : ReqId) (req : QdmaRequest) (maps : List (Option ℕ)) (inp : CallInput)
  | batchSubmit (first : BatchItem) (rest : List BatchItem) (inp : CallInput)
  | packetAdd (sub : Submission)
  | packetMap (id : ReqId) (maps : List (Option ℕ)) (inp : CallInput)
  | waited (id : ReqId)
  | process (inp : CallInput)
  | service (inp : CallInput)
  | stopBegin
  | stopEnd
  | start (ok : Bool)

/-- One step. -/
def clientStep (conf : QueueConf) (s : Clients) : ClientEvent → Clients
  | .requestSubmit id req maps inp => (qdmaRequestSubmit conf id req maps inp s).2
  | .batchSubmit first rest inp =>
    { s with q := (qdmaBatchRequestSubmit conf first rest inp s.q).2 }
  | .packetAdd sub => (packetWriteAdd conf sub s).2
  | .packetMap id maps inp => (packetWriteMap conf id maps inp s).2
  | .waited id => (qdmaRequestWaitForCmpl id s).2
  | .process inp => { s with
      q := afterCall (s.q.scripted inp)
        (qdmaDescqProcSgtRequest conf inp.fuel inp.doorbell (s.q.scripted inp)) }
  | .service inp => { s with
      q := afterCall (s.q.scripted inp)
        (qdmaDescqServiceCmplUpdate conf inp.fuel inp.doorbell (s.q.scripted inp)) }
  | .stopBegin => { s with q := (qdmaQueueStopBegin s.q).2 }
  | .stopEnd => { s with q := qdmaQueueStopEnd s.q }
  | .start ok => { s with q := (qdmaQueueStart conf ok s.q).2 }

/-- The mappings of the requests are kept: nothing was unmapped that was not mapped, the mappings
that exist are those of the requests on the lists, each once, and the descriptors that the hardware
has not completed belong to requests on the lists. -/
structure MappingsKept (q : Descq) : Prop where
  fault : q.dma.fault = false
  mapped : q.dma.mapped.Perm (mappedPages q)
  owners : ∀ id ∈ q.owners, id ∈ q.pending

/-- A request that is neither on a list nor waited for. -/
def Unused (s : Clients) (id : ReqId) : Prop := id ∉ s.q.pending ∧ id ∉ s.waiting

instance (s : Clients) (id : ReqId) : Decidable (Unused s id) :=
  inferInstanceAs (Decidable (_ ∧ _))

/-- Submitted requests are new and their pages have addresses other than 0, no mapping of a page
fails except for a packet, batches go to the online queue, no call comes between the two halves of a
packet write, a caller gives up only on a request without descriptors, and a queue whose stop ends
has no requests. -/
def ClientOk (s : Clients) : ClientEvent → Prop
  | .requestSubmit id req maps _ => Unused s id ∧ CanMap req maps ∧ s.writing = []
  | .batchSubmit first rest _ =>
    ((first :: rest).map BatchItem.id).Nodup ∧
      (∀ item ∈ first :: rest, Unused s item.id ∧ CanMap item.req item.maps) ∧
      s.q.qState = .online ∧ s.writing = []
  | .packetAdd sub =>
    Unused s sub.id ∧ sub.cb.descNr = 0 ∧ sub.cb.unmapNeeded = false ∧ sub.cb.done = false
  | .packetMap id maps _ => s.writing = [id] ∧ MayMap (s.q.req id) maps
  | .waited id =>
    id ∈ s.waiting ∧ ((s.q.cb id).done = true ∨ (s.q.cb id).descNr = 0)
  | .process _ => s.writing = []
  | .service _ => s.writing = []
  | .stopBegin => True
  | .stopEnd => s.q.pending = []
  | .start _ => True

instance (s : Clients) (e : ClientEvent) : Decidable (ClientOk s e) := by
  cases e <;> unfold ClientOk <;> infer_instance

/-- What holds between the calls. -/
structure Kept (conf : QueueConf) (s : Clients) : Prop where
  flying : Flying conf s.q
  stopping : s.q.qStopWait = true → s.q.qState = .online
  offline : s.q.qState ≠ .online → issued s.q = []
  nodup : s.waiting.Nodup
  waiting : ∀ id ∈ s.waiting, (s.q.req id).fpDone = false ∧
    (id ∈ s.q.pending ∧ (s.q.cb id).unmapNeeded = !(s.q.req id).dmaMapped ∨
      (s.q.cb id).done = true ∧ (s.q.cb id).status = 0)
  writing : ∀ id ∈ s.writing, id ∉ s.waiting ∧ id ∈ s.q.workList ∧
    (s.q.cb id).unmapNeeded = false ∧ (s.q.cb id).descNr = 0

section

variable {conf : QueueConf} {s : Clients} {q q' : Descq} {id : ReqId}

theorem Flying.mappingsKept (h : Flying conf q) : MappingsKept q := by
  refine ⟨h.fault, h.mapped, ?_⟩
  intro id hid
  rw [h.owners, List.append_nil] at hid
  obtain ⟨j, hj, hmem⟩ := List.mem_flatMap.mp (List.mem_of_mem_drop hid)
  rw [List.eq_of_mem_replicate hmem]
  exact hj

/-- A queue that is not online and has no descriptors does nothing. -/
theorem offline_process (hstate : q.qState ≠ .online)
    (hstop : q.qStopWait = false) {fuel : ℕ} {doorbell : Bool} {r : ℤ × Descq}
    (hr : qdmaDescqProcSgtRequest conf fuel doorbell q = some r) : r.2 = q := by
  have hproc : ∀ pass, H2c.procRequest conf pass fuel doorbell q = some r → r.2 = q := by
    intro pass hpass
    unfold H2c.procRequest at hpass
    rw [hstop, if_neg (by decide), if_pos hstate] at hpass
    cases hpass
    rfl
  unfold qdmaDescqProcSgtRequest at hr
  split at hr
  · exact hproc _ hr
  · split at hr
    · split at hr
      · split at hr
        · cases fuel with
          | zero => cases hr
          | succ fuel =>
            unfold H2c.descqProcStH2cRequestQep at hr
            rw [hstop, if_neg (by decide), if_pos hstate] at hr
            cases hr
            rfl
        · exact hproc _ hr
      · exact hproc _ hr
    · cases hr
      rfl

theorem Flying.offline_status (h : Flying conf q) (hissued : issued q = []) :
    descqMmNH2cCmplStatus conf q = q := by
  obtain ⟨k, m, hind, -⟩ := h.indices
  have howners : q.owners = [] := by
    rw [h.owners, hissued, List.drop_nil, List.append_nil]
  have hpidx : q.pidx = (q.cidx + q.owners.length) % conf.rngsz := hind.pidx
  have hcidx : q.cidx < conf.rngsz := hind.cidx
  rw [howners, List.length_nil, Nat.add_zero, Nat.mod_eq_of_lt hcidx] at hpidx
  unfold descqMmNH2cCmplStatus
  rw [if_pos hpidx]

theorem Flying.offline_service (h : Flying conf q) (hstate : q.qState ≠ .online)
    (hstop : q.qStopWait = false) (hissued : issued q = []) {fuel : ℕ} {doorbell : Bool}
    {r : ℤ × Descq} (hr : qdmaDescqServiceCmplUpdate conf fuel doorbell q = some r) :
    r.2 = q := by
  unfold qdmaDescqServiceCmplUpdate at hr
  split at hr
  · split at hr
    · obtain ⟨w, hw, rfl⟩ := Option.map_eq_some_iff.mp hr
      exact offline_process hstate hstop (r := w) hw
    · cases hr
      rfl
  · rw [h.offline_status hissued] at hr
    dsimp only at hr
    split at hr
    · exact offline_process hstate hstop hr
    · cases hr
      rfl

/-- A processing call on a queue without half-written packets. -/
theorem Kept.flown (h : Kept conf s) (hwriting : s.writing = []) (hflown : Flown conf s.q q')
    (hsame : s.q.qState ≠ .online → issued q' = []) : Kept conf { s with q := q' } := by
  obtain ⟨hfly, hattends⟩ := hflown
  have hstate := congrArg Prod.fst hattends.state
  have hstop := congrArg Prod.snd hattends.state
  dsimp only at hstate hstop
  constructor
  · exact hfly
  · intro hwait
    change q'.qState = .online
    rw [hstate]
    exact h.stopping (hstop ▸ hwait)
  · intro hoff
    change q'.qState ≠ .online at hoff
    rw [hstate] at hoff
    exact hsame hoff
  · exact h.nodup
  · intro id hid
    obtain ⟨hfp, hcase⟩ := h.waiting id hid
    change (q'.req id).fpDone = false ∧ _
    rw [hattends.fpDone]
    refine ⟨hfp, ?_⟩
    have hdone : (s.q.cb id).done = true ∧ (s.q.cb id).status = 0 → id ∉ s.q.pending := by
      intro hdone hmem
      have hnot := h.flying.notDone id hmem
      rw [hdone.1] at hnot
      cases hnot
    obtain ⟨hmem, hneeded⟩ | hended := hcase
    · obtain ⟨hstay, hcb, hreq⟩ | ⟨-, hend, hstatus⟩ := hattends.stays id hmem
      · left
        change id ∈ q'.pending ∧ (q'.cb id).unmapNeeded = !(q'.req id).dmaMapped
        rw [hcb, hreq]
        exact ⟨hstay, hneeded⟩
      · exact Or.inr ⟨hend, hstatus hfp⟩
    · obtain ⟨-, hcb, -⟩ := hattends.others id (hdone hended)
      right
      change (q'.cb id).done = true ∧ (q'.cb id).status = 0
      rw [hcb]
      exact hended
  · intro id hid
    change id ∈ s.writing at hid
    rw [hwriting] at hid
    exact absurd hid List.not_mem_nil

theorem Kept.scripted (h : Kept conf s) (hwriting : s.writing = []) (inp : CallInput) :
    Kept conf { s with q := s.q.scripted inp } := by
  have hset := h.flying.set (s.q.scripted inp) rfl rfl rfl rfl rfl rfl rfl rfl
  exact h.flown hwriting hset h.offline

theorem Kept.process (hfill : CallbackReports conf) (h : Kept conf s) (hwriting : s.writing = [])
    (inp : CallInput) :
    Kept conf { s with
      q := afterCall (s.q.scripted inp)
        (qdmaDescqProcSgtRequest conf inp.fuel inp.doorbell (s.q.scripted inp)) } := by
  have hscript := h.scripted hwriting inp
  cases hcall : qdmaDescqProcSgtRequest conf inp.fuel inp.doorbell (s.q.scripted inp) with
  | none => exact hscript
  | some r =>
    apply hscript.flown hwriting (hscript.flying.process hfill hcall)
    intro hoff
    have hstop : (s.q.scripted inp).qStopWait = false := by
      rw [← Bool.not_eq_true]
      exact fun hwait => hoff (hscript.stopping hwait)
    rw [offline_process hoff hstop hcall]
    exact hscript.offline hoff

theorem Kept.service (hfill : CallbackReports conf) (h : Kept conf s) (hwriting : s.writing = [])
    (inp : CallInput) :
    Kept conf { s with
      q := afterCall (s.q.scripted inp)
        (qdmaDescqServiceCmplUpdate conf inp.fuel inp.doorbell (s.q.scripted inp)) } := by
  have hscript := h.scripted hwriting inp
  cases hcall : qdmaDescqServiceCmplUpdate conf inp.fuel inp.doorbell (s.q.scripted inp) with
  | none => exact hscript
  | some r =>
    apply hscript.flown hwriting (hscript.flying.service hfill hcall)
    intro hoff
    have hstop : (s.q.scripted inp).qStopWait = false := by
      rw [← Bool.not_eq_true]
      exact fun hwait => hoff (hscript.stopping hwait)
    rw [hscript.flying.offline_service hoff hstop (hscript.offline hoff) hcall]
    exact hscript.offline hoff

/-! ## Steps of the clients -/

theorem OnlyReq.qState (h : OnlyReq id q q') : q'.qState = q.qState :=
  congrArg RingView.qState h.ring

theorem OnlyReq.qStopWait (h : OnlyReq id q q') : q'.qStopWait = q.qStopWait :=
  congrArg RingView.qStopWait h.ring

/-- A request that is not used is rejected. -/
theorem Kept.reject (h : Kept conf s) (hunused : Unused s id) (honly : OnlyReq id s.q q')
    (hfault : q'.dma.fault = s.q.dma.fault) (hmapped : q'.dma.mapped.Perm s.q.dma.mapped) :
    Kept conf { s with q := q' } := by
  constructor
  · exact h.flying.onlyReq honly hunused.1 hfault hmapped
  · intro hwait
    change q'.qState = .online
    rw [honly.qState]
    exact h.stopping (honly.qStopWait ▸ hwait)
  · intro hoff
    change q'.qState ≠ .online at hoff
    rw [honly.qState] at hoff
    exact (honly.issued hunused.1).trans (h.offline hoff)
  · exact h.nodup
  · intro j hj
    have hne : j ≠ id := ne_of_mem_of_not_mem hj hunused.2
    change (q'.req j).fpDone = false ∧ (j ∈ q'.pending ∧
      (q'.cb j).unmapNeeded = !(q'.req j).dmaMapped ∨ (q'.cb j).done = true ∧ (q'.cb j).status = 0)
    rw [honly.pending, honly.cb j hne, honly.req j hne]
    exact h.waiting j hj
  · intro j hj
    obtain ⟨hwait, hwork, hneeded⟩ := h.writing j hj
    have hne : j ≠ id := ne_of_mem_of_not_mem (List.mem_append_right _ hwork) hunused.1
    change j ∉ s.waiting ∧ j ∈ q'.workList ∧ (q'.cb j).unmapNeeded = false ∧ (q'.cb j).descNr = 0
    rw [honly.work, honly.cb j hne]
    exact ⟨hwait, hwork, hneeded⟩

/-- A request that was prepared is queued, and its caller may wait for it. -/
theorem Kept.add (h : Kept conf s) (hunused : Unused s id) (honly : OnlyReq id s.q q')
    (hfault : q'.dma.fault = s.q.dma.fault)
    (hmapped : q'.dma.mapped.Perm (pagesOf q' id ++ s.q.dma.mapped))
    (hclean : (q'.cb id).unmapNeeded = true → Unmappable (elems (q'.req id)))
    (hnr : (q'.cb id).descNr = 0) (hdone : (q'.cb id).done = false) (n : ℕ)
    {waiting : List ReqId} (hwaiting : waiting = s.waiting ∨
      waiting = s.waiting ++ [id] ∧ (q'.req id).fpDone = false ∧
        (q'.cb id).unmapNeeded = !(q'.req id).dmaMapped) :
    Kept conf { s with
      q := { q' with workList := q'.workList ++ [id], workReqPend := n }, waiting := waiting } := by
  obtain ⟨hflying, hissued⟩ := h.flying.add honly hunused.1 hfault hmapped hclean hnr hdone n
  set q₁ : Descq := { q' with workList := q'.workList ++ [id], workReqPend := n } with hq₁
  have hpending : q₁.pending = s.q.pending ++ [id] := by
    change q'.pendList ++ (q'.workList ++ [id]) = _
    rw [honly.pend, honly.work, Descq.pending, List.append_assoc]
  have hold : ∀ j ∈ s.waiting, (q₁.req j).fpDone = false ∧ (j ∈ q₁.pending ∧
      (q₁.cb j).unmapNeeded = !(q₁.req j).dmaMapped ∨
        (q₁.cb j).done = true ∧ (q₁.cb j).status = 0) := by
    intro j hj
    have hne : j ≠ id := ne_of_mem_of_not_mem hj hunused.2
    have hcb : q₁.cb j = s.q.cb j := honly.cb j hne
    have hreq : q₁.req j = s.q.req j := honly.req j hne
    rw [hpending, hcb, hreq]
    obtain ⟨hfp, ⟨hmem, hneeded⟩ | hended⟩ := h.waiting j hj
    · exact ⟨hfp, Or.inl ⟨List.mem_append_left _ hmem, hneeded⟩⟩
    · exact ⟨hfp, Or.inr hended⟩
  constructor
  · exact hflying
  · intro hwait
    change q'.qState = .online
    rw [honly.qState]
    exact h.stopping (honly.qStopWait ▸ hwait)
  · intro hoff
    change q'.qState ≠ .online at hoff
    rw [honly.qState] at hoff
    exact hissued.trans (h.offline hoff)
  · obtain rfl | ⟨rfl, -⟩ := hwaiting
    · exact h.nodup
    · rw [List.nodup_append]
      refine ⟨h.nodup, List.nodup_singleton id, ?_⟩
      intro a ha b hb
      rw [List.mem_singleton] at hb
      rw [hb]
      exact ne_of_mem_of_not_mem ha hunused.2
  · intro j hj
    obtain rfl | ⟨rfl, hfp, hneeded⟩ := hwaiting
    · exact hold j hj
    · obtain hj | hj := List.mem_append.mp hj
      · exact hold j hj
      · rw [List.mem_singleton] at hj
        rw [hj]
        refine ⟨hfp, Or.inl ⟨?_, hneeded⟩⟩
        change id ∈ q₁.pending
        rw [hpending]
        exact List.mem_append_right _ (List.mem_singleton_self id)
  · intro j hj
    obtain ⟨hwait, hwork, hneeded⟩ := h.writing j hj
    have hne : j ≠ id := ne_of_mem_of_not_mem (List.mem_append_right _ hwork) hunused.1
    refine ⟨?_, ?_, ?_⟩
    · obtain rfl | ⟨rfl, -⟩ := hwaiting
      · exact hwait
      · rw [List.mem_append, List.mem_singleton, not_or]
        exact ⟨hwait, hne⟩
    · change j ∈ q'.workList ++ [id]
      rw [honly.work]
      exact List.mem_append_left _ hwork
    · change (q'.cb j).unmapNeeded = false ∧ (q'.cb j).descNr = 0
      rw [honly.cb j hne]
      exact hneeded

/-- The request with its private part zeroed. -/
theorem OnlyReq.fresh (req : QdmaRequest) (cb : SgtReqCb) :
    OnlyReq id q ((q.setReq id req).setCb id cb) :=
  (OnlyReq.setReq req).trans (OnlyReq.setCb cb)

theorem setCb_cb_self (cb : SgtReqCb) : (q.setCb id cb).cb id = cb := Function.update_self id _ _

theorem setReq_setCb_req (req : QdmaRequest) (cb : SgtReqCb) :
    ((q.setReq id req).setCb id cb).req id = req := Function.update_self id _ _

theorem Kept.requestSubmit (hfill : CallbackReports conf) (h : Kept conf s) {req : QdmaRequest}
    {maps : List (Option ℕ)} (hunused : Unused s id) (hmaps : CanMap req maps)
    (hwriting : s.writing = []) (inp : CallInput) :
    Kept conf (qdmaRequestSubmit conf id req maps inp s).2 := by
  unfold qdmaRequestSubmit
  dsimp only
  split
  · exact h.reject hunused (OnlyReq.setReq req) rfl (List.Perm.refl _)
  · set q₀ := (s.q.setReq id req).setCb id {} with hq₀
    have hreq : q₀.req id = req := setReq_setCb_req req {}
    have hcb : q₀.cb id = {} := setCb_cb_self {}
    have honly₀ : OnlyReq id s.q q₀ := OnlyReq.fresh req {}
    obtain ⟨q₁, hmap, honly, hfor, hnr, hdone, hfp, -⟩ :=
      @mapForSubmit_ok q₀ id maps (by rw [hreq]; exact hmaps)
        (by rw [hcb])
    have hfor' : MappedFor id s.q q₁ := ⟨hfor.fault, hfor.mapped, hfor.clean, hfor.needed⟩
    have hall := honly₀.trans honly
    rw [hmap]
    dsimp only
    rw [if_neg (by decide)]
    split
    · obtain ⟨hunmap, hfault, hmapped⟩ := hfor'.unmapSgl
      exact h.reject hunused (hall.trans hunmap) hfault hmapped
    · have hnr₁ : (q₁.cb id).descNr = 0 := by rw [hnr, hcb]
      have hdone₁ : (q₁.cb id).done = false := by rw [hdone, hcb]
      have hadd := @Kept.add _ _ _ _ h hunused hall hfor'.fault hfor'.mapped hfor'.clean hnr₁ hdone₁
        (u32 (q₁.workReqPend + 1))
        (if req.fpDone then s.waiting else s.waiting ++ [id]) (by
          cases hcall : req.fpDone with
          | true => exact Or.inl (if_pos rfl)
          | false =>
            refine Or.inr ⟨if_neg (by decide), ?_, hfor'.needed⟩
            rw [hfp, hreq, hcall])
      exact hadd.process hfill hwriting inp

/-- A request of a batch is mapped and queued. -/
theorem Kept.batchItem (h : Kept conf s) {item : BatchItem} (hunused : Unused s item.id)
    (hmaps : CanMap item.req item.maps) :
    Kept conf { s with q := batchAdd (batchMap s.q item) item } := by
  set q₀ := (s.q.setReq item.id item.req).setCb item.id {} with hq₀
  have hreq : q₀.req item.id = item.req := setReq_setCb_req item.req {}
  have hcb : q₀.cb item.id = {} := setCb_cb_self {}
  have honly₀ : OnlyReq item.id s.q q₀ := OnlyReq.fresh item.req {}
  obtain ⟨q₁, hmap, honly, hfor, hnr, hdone, -⟩ :=
    @mapForSubmit_ok q₀ item.id item.maps (by rw [hreq]; exact hmaps)
      (by rw [hcb])
  have hsame : batchMap s.q item = q₁ := by
    unfold mapForSubmit at hmap
    unfold batchMap
    dsimp only
    rw [← hq₀]
    rw [hreq] at hmap
    cases hclient : item.req.dmaMapped with
    | true =>
      rw [hclient, if_pos rfl] at hmap
      rw [if_pos rfl]
      exact congrArg Prod.snd hmap
    | false =>
      rw [hclient, if_neg (by decide)] at hmap
      rw [if_neg (by decide)]
      dsimp only at hmap
      split at hmap
      · rename_i hok
        rw [if_pos hok]
        exact congrArg Prod.snd hmap
      · cases hmap
  have hfor' : MappedFor item.id s.q q₁ := ⟨hfor.fault, hfor.mapped, hfor.clean, hfor.needed⟩
  have hnr₁ : (q₁.cb item.id).descNr = 0 := by rw [hnr, hcb]
  have hdone₁ : (q₁.cb item.id).done = false := by rw [hdone, hcb]
  rw [hsame]
  exact h.add hunused (honly₀.trans honly) hfor'.fault hfor'.mapped hfor'.clean hnr₁ hdone₁
    q₁.workReqPend (Or.inl rfl)

theorem OnlyReq.sglMapReq (maps : List (Option ℕ)) : OnlyReq id q (sglMapReq q id maps).2 := by
  unfold H2c.sglMapReq
  generalize sglMap maps (elems (q.req id)) q.dma = r
  exact ⟨rfl, rfl, rfl, rfl, fun _ _ => rfl, fun _ hj => Function.update_of_ne hj _ _⟩

theorem OnlyReq.batchMap (item : BatchItem) : OnlyReq item.id q (batchMap q item) := by
  have hfresh : OnlyReq item.id q ((q.setReq item.id item.req).setCb item.id {}) :=
    OnlyReq.fresh item.req {}
  have hmap := hfresh.trans (OnlyReq.sglMapReq item.maps)
  unfold H2c.batchMap
  dsimp only
  split
  · exact hfresh
  · split
    · exact hmap.trans (OnlyReq.setCb _)
    · apply OnlyReq.trans _ (OnlyReq.setCb _)
      exact ⟨hmap.ring, hmap.credit, hmap.pend, hmap.work, hmap.cb, hmap.req⟩

theorem sglMapReq_batchAdd (a : BatchItem) (maps : List (Option ℕ)) :
    sglMapReq (batchAdd q a) id maps =
      ((sglMapReq q id maps).1, batchAdd (sglMapReq q id maps).2 a) := by
  unfold sglMapReq
  have hsame : sglMap maps (elems ((batchAdd q a).req id)) (batchAdd q a).dma =
      sglMap maps (elems (q.req id)) q.dma := rfl
  rw [hsame]
  generalize sglMap maps (elems (q.req id)) q.dma = r
  rfl

/-- Mapping a request does not depend on the work list. -/
theorem batchMap_batchAdd (a b : BatchItem) :
    batchMap (batchAdd q a) b = batchAdd (batchMap q b) a := by
  have hstart : ((batchAdd q a).setReq b.id b.req).setCb b.id {} =
      batchAdd ((q.setReq b.id b.req).setCb b.id {}) a := rfl
  unfold batchMap
  rw [hstart]
  generalize (q.setReq b.id b.req).setCb b.id {} = q₀
  dsimp only
  rw [sglMapReq_batchAdd]
  generalize sglMapReq q₀ b.id b.maps = r
  obtain ⟨ok, q₁⟩ := r
  dsimp only
  split
  · rfl
  · cases ok with
    | true => rfl
    | false => rfl

theorem foldl_batchMap_batchAdd (a : BatchItem) (items : List BatchItem) :
    items.foldl batchMap (batchAdd q a) = batchAdd (items.foldl batchMap q) a := by
  induction items generalizing q with
  | nil => rfl
  | cons b items ih => rw [List.foldl_cons, List.foldl_cons, batchMap_batchAdd, ih]

/-- The two loops over a batch are one loop. -/
theorem foldl_batch (items : List BatchItem) :
    items.foldl batchAdd (items.foldl batchMap q) =
      items.foldl (fun q item => batchAdd (batchMap q item) item) q := by
  induction items generalizing q with
  | nil => rfl
  | cons a items ih =>
    rw [List.foldl_cons, List.foldl_cons, List.foldl_cons, ← ih, foldl_batchMap_batchAdd]

theorem qState_foldl_batchMap (items : List BatchItem) :
    (items.foldl batchMap q).qState = q.qState := by
  induction items generalizing q with
  | nil => rfl
  | cons a items ih =>
    rw [List.foldl_cons, ih]
    exact (OnlyReq.batchMap a).qState

/-- The requests of a batch that were mapped and queued are no longer unused, the others are. -/
theorem Kept.batchItems {items : List BatchItem} (h : Kept conf s)
    (hnodup : (items.map BatchItem.id).Nodup)
    (hitems : ∀ item ∈ items, Unused s item.id ∧ CanMap item.req item.maps) :
    Kept conf { s with q := items.foldl (fun q item => batchAdd (batchMap q item) item) s.q } := by
  induction items generalizing s with
  | nil => exact h
  | cons a items ih =>
    obtain ⟨hnot, hrest⟩ := List.nodup_cons.mp hnodup
    obtain ⟨hunused, hmaps⟩ := hitems a List.mem_cons_self
    apply ih (h.batchItem hunused hmaps) hrest
    intro item hitem
    obtain ⟨⟨hpend, hwait⟩, hcan⟩ := hitems item (List.mem_cons_of_mem a hitem)
    refine ⟨⟨?_, hwait⟩, hcan⟩
    have hne : item.id ≠ a.id := by
      intro heq
      apply hnot
      rw [← heq]
      exact List.mem_map_of_mem hitem
    have hpending : (batchAdd (batchMap s.q a) a).pending = s.q.pending ++ [a.id] := by
      have honly : OnlyReq a.id s.q (H2c.batchMap s.q a) := OnlyReq.batchMap a
      change (batchMap s.q a).pendList ++ ((batchMap s.q a).workList ++ [a.id]) = _
      rw [honly.pend, honly.work, Descq.pending, List.append_assoc]
    change item.id ∉ (batchAdd (batchMap s.q a) a).pending
    rw [hpending, List.mem_append, List.mem_singleton, not_or]
    exact ⟨hpend, hne⟩

theorem Kept.batchSubmit (hfill : CallbackReports conf) (h : Kept conf s) {first : BatchItem}
    {rest : List BatchItem} (hnodup : ((first :: rest).map BatchItem.id).Nodup)
    (hitems : ∀ item ∈ first :: rest, Unused s item.id ∧ CanMap item.req item.maps)
    (honline : s.q.qState = .online) (hwriting : s.writing = []) (inp : CallInput) :
    Kept conf { s with q := (qdmaBatchRequestSubmit conf first rest inp s.q).2 } := by
  unfold qdmaBatchRequestSubmit
  split
  · exact h
  · dsimp only
    rw [qState_foldl_batchMap, if_neg (by rw [honline]; decide), foldl_batch]
    exact (h.batchItems hnodup hitems).process hfill hwriting inp

/-- The first half of a packet write. -/
theorem Kept.packetAdd (h : Kept conf s) {sub : Submission} (hunused : Unused s sub.id)
    (hnr : sub.cb.descNr = 0) (hneeded : sub.cb.unmapNeeded = false) (hdone : sub.cb.done = false) :
    Kept conf (packetWriteAdd conf sub s).2 := by
  unfold packetWriteAdd
  split
  · exact h
  · set q₀ := (s.q.setReq sub.id sub.req).setCb sub.id sub.cb with hq₀
    have hcb : q₀.cb sub.id = sub.cb := setCb_cb_self sub.cb
    have honly : OnlyReq sub.id s.q q₀ := OnlyReq.fresh sub.req sub.cb
    have hpages : pagesOf q₀ sub.id = [] := by
      rw [pagesOf, hcb, if_neg (by rw [hneeded]; decide)]
    have hadd := h.add hunused honly rfl (by rw [hpages, List.nil_append]; rfl)
      (fun hn => by rw [hcb, hneeded] at hn; cases hn) (by rw [hcb, hnr]) (by rw [hcb, hdone])
      (u32 (q₀.workReqPend + 1)) (Or.inl rfl)
    constructor
    · exact hadd.flying
    · exact hadd.stopping
    · exact hadd.offline
    · exact hadd.nodup
    · exact hadd.waiting
    · intro id hid
      obtain hid | hid := List.mem_append.mp hid
      · exact hadd.writing id hid
      · rw [List.mem_singleton] at hid
        subst hid
        refine ⟨hunused.2, List.mem_append_right _ (List.mem_singleton_self _), ?_, ?_⟩
        · exact (congrArg SgtReqCb.unmapNeeded hcb).trans hneeded
        · exact (congrArg SgtReqCb.descNr hcb).trans hnr

/-- The mapping of a request on a list changes. -/
theorem Flying.remap (h : Flying conf q) (hid : id ∈ q.pending) (hnone : pagesOf q id = [])
    (honly : OnlyReq id q q') (hfault : q'.dma.fault = q.dma.fault)
    (hmapped : q'.dma.mapped.Perm (pagesOf q' id ++ q.dma.mapped))
    (hclean : (q'.cb id).unmapNeeded = true → Unmappable (elems (q'.req id)))
    (hnr : (q'.cb id).descNr = (q.cb id).descNr) (hdone : (q'.cb id).done = (q.cb id).done) :
    Flying conf q' ∧ issued q' = issued q := by
  have howners : q'.owners = q.owners := congrArg RingView.owners honly.ring
  have hdescNr : ∀ j, (q'.cb j).descNr = (q.cb j).descNr := by
    intro j
    by_cases hj : j = id
    · rw [hj, hnr]
    · rw [honly.cb j hj]
  have hissued : issued q' = issued q := by
    unfold issued
    rw [honly.pending]
    exact List.flatMap_congr fun j _ => by rw [hdescNr]
  have hrest : (q.pending.erase id).flatMap (pagesOf q') = mappedPages q := by
    rw [mappedPages, ← flatMap_erase h.nodup hnone]
    apply List.flatMap_congr
    intro j hj
    exact honly.pagesOf (ne_of_mem_of_not_mem hj h.nodup.not_mem_erase)
  have hpages : (mappedPages q').Perm (pagesOf q' id ++ mappedPages q) := by
    rw [← hrest, mappedPages, honly.pending]
    exact (List.perm_cons_erase hid).flatMap_right (pagesOf q')
  refine ⟨?_, hissued⟩
  unfold Flying
  rw [honly.credit]
  constructor
  · obtain ⟨k, m, hind, hle⟩ := h.indices
    rw [honly.ring, howners]
    exact ⟨k, m, hind, hle⟩
  · rw [honly.pending]
    exact h.nodup
  · intro j hj
    rw [honly.work] at hj
    rw [hdescNr]
    exact h.head j hj
  · rw [hissued]
    exact h.credit
  · rw [howners, hissued]
    exact h.owners
  · exact hfault.trans h.fault
  · exact (hmapped.trans (h.mapped.append_left _)).trans hpages.symm
  · intro j hj hn
    rw [honly.pending] at hj
    by_cases heq : j = id
    · rw [heq] at hn ⊢
      exact hclean hn
    · rw [honly.cb j heq] at hn
      rw [honly.req j heq]
      exact h.clean j hj hn
  · intro j hj
    rw [honly.pending] at hj
    by_cases heq : j = id
    · rw [heq, hdone, ← heq]
      exact h.notDone j hj
    · rw [honly.cb j heq]
      exact h.notDone j hj

/-- The packet write of a request that changes nothing else. -/
theorem Kept.packet (h : Kept conf s) (hwriting : s.writing = [id]) (hnone : pagesOf s.q id = [])
    (honly : OnlyReq id s.q q') (hfault : q'.dma.fault = s.q.dma.fault)
    (hmapped : q'.dma.mapped.Perm (pagesOf q' id ++ s.q.dma.mapped))
    (hclean : (q'.cb id).unmapNeeded = true → Unmappable (elems (q'.req id)))
    (hnr : (q'.cb id).descNr = (s.q.cb id).descNr) (hdone : (q'.cb id).done = (s.q.cb id).done) :
    Kept conf { s with q := q', writing := [] } := by
  obtain ⟨hwait, hwork, -⟩ := h.writing id (by rw [hwriting]; exact List.mem_singleton_self id)
  obtain ⟨hflying, hissued⟩ := h.flying.remap (List.mem_append_right _ hwork) hnone honly hfault
    hmapped hclean hnr hdone
  constructor
  · exact hflying
  · intro hw
    change q'.qState = .online
    rw [honly.qState]
    exact h.stopping (honly.qStopWait ▸ hw)
  · intro hoff
    change q'.qState ≠ .online at hoff
    rw [honly.qState] at hoff
    exact hissued.trans (h.offline hoff)
  · exact h.nodup
  · intro j hj
    have hne : j ≠ id := ne_of_mem_of_not_mem hj hwait
    change (q'.req j).fpDone = false ∧ (j ∈ q'.pending ∧
      (q'.cb j).unmapNeeded = !(q'.req j).dmaMapped ∨
        (q'.cb j).done = true ∧ (q'.cb j).status = 0)
    rw [honly.pending, honly.cb j hne, honly.req j hne]
    exact h.waiting j hj
  · exact fun j hj => absurd hj List.not_mem_nil

theorem pagesIn_unmapped (sgl : List SwSg) :
    pagesIn (sgl.map fun sg => { sg with dmaAddr := 0 }) = [] := by
  induction sgl with
  | nil => rfl
  | cons sg sgl ih => rw [List.map_cons, pagesIn_cons_zero rfl, ih]

/-- A request that is unmapped while it stays on its list. -/
theorem MappedFor.sglUnmapReq (h : MappedFor id q q') (hneeded : (q'.cb id).unmapNeeded = true) :
    OnlyReq id q' (sglUnmapReq q' id) ∧ (sglUnmapReq q' id).dma.fault = q.dma.fault ∧
      (sglUnmapReq q' id).dma.mapped.Perm q.dma.mapped ∧
      pagesOf (sglUnmapReq q' id) id = [] ∧
      Unmappable (elems ((sglUnmapReq q' id).req id)) := by
  have hclean := h.clean hneeded
  have hmapped := h.mapped
  rw [pagesOf, if_pos hneeded] at hmapped
  obtain ⟨hfault, hperm⟩ := sglUnmap_mapped hclean hmapped
  have hsgl := sglUnmap_sgl hclean q'.dma
  have helems : elems ((H2c.sglUnmapReq q' id).req id) =
      (elems (q'.req id)).map fun sg => { sg with dmaAddr := 0 } := by
    have hreq : (H2c.sglUnmapReq q' id).req id =
        withElems (q'.req id) (sglUnmap (elems (q'.req id)) q'.dma).1 :=
      Function.update_self id _ q'.req
    rw [hreq, hsgl]
    exact elems_withElems (List.length_map _)
  refine ⟨⟨rfl, rfl, rfl, rfl, fun _ _ => rfl, fun _ hj => Function.update_of_ne hj _ _⟩,
    hfault.trans h.fault, hperm, ?_, ?_⟩
  · rw [pagesOf, helems, pagesIn_unmapped, ite_self]
  · rw [helems]
    intro sg hsg
    obtain ⟨sg', hsg', rfl⟩ := List.mem_map.mp hsg
    exact hclean sg' hsg'

/-- The second half of a packet write. -/
theorem Kept.packetMap (hfill : CallbackReports conf) (h : Kept conf s) {maps : List (Option ℕ)}
    (hwriting : s.writing = [id]) (hmaps : MayMap (s.q.req id) maps) (inp : CallInput) :
    Kept conf (packetWriteMap conf id maps inp s).2 := by
  obtain ⟨hwait, hwork, hneeded, -⟩ :=
    h.writing id (by rw [hwriting]; exact List.mem_singleton_self id)
  have hpages : pagesOf s.q id = [] := if_neg (by rw [hneeded]; decide)
  have herase : s.writing.erase id = [] := by rw [hwriting, List.erase_cons_head]
  unfold packetWriteMap
  dsimp only
  rw [herase]
  by_cases hcan : CanMap (s.q.req id) maps
  · obtain ⟨q₁, hmap, honly, hfor, hnr, hdone, -⟩ := mapForSubmit_ok hcan hneeded
    have hmapped := h.packet hwriting hpages honly hfor.fault hfor.mapped hfor.clean hnr hdone
    rw [hmap]
    dsimp only
    rw [if_neg (by decide)]
    split
    · split
      · rename_i hneeded₁
        obtain ⟨hunmap, hfault, hperm, hnone, hclean⟩ := hfor.sglUnmapReq hneeded₁
        refine h.packet hwriting hpages (honly.trans hunmap) hfault ?_ (fun _ => hclean) hnr hdone
        rw [hnone]
        exact hperm
      · exact hmapped
    · exact hmapped.process hfill rfl inp
  · have hclient : (s.q.req id).dmaMapped = false := by
      rw [← Bool.not_eq_true]
      exact fun hc => hcan (Or.inl hc)
    have hsane : mapsSane maps (elems (s.q.req id)) = true := by
      obtain hc | hsane := hmaps
      · exact absurd (Or.inl hc) hcan
      · exact hsane
    have hfails : mapsDone maps (elems (s.q.req id)) = false := by
      rw [← Bool.not_eq_true]
      exact fun hd => hcan (Or.inr ⟨hsane, hd⟩)
    obtain ⟨q₁, hmap, honly, hcb, hfault, hperm⟩ := mapForSubmit_failed hclient hsane hfails
    have hneeded₁ : (q₁.cb id).unmapNeeded = false := by rw [hcb, hneeded]
    rw [hmap]
    dsimp only
    rw [if_pos rfl, hneeded₁, if_neg (by decide)]
    apply h.packet hwriting hpages honly hfault
    · rw [pagesOf, hneeded₁]
      exact hperm
    · intro hn
      rw [hneeded₁] at hn
      cases hn
    · rw [hcb]
    · rw [hcb]

theorem Kept.waited (h : Kept conf s) (hid : id ∈ s.waiting)
    (hended : (s.q.cb id).done = true ∨ (s.q.cb id).descNr = 0) :
    Kept conf (qdmaRequestWaitForCmpl id s).2 := by
  have hwriting : id ∉ s.writing := fun hw => (h.writing id hw).1 hid
  obtain ⟨-, ⟨hpend, hneeded⟩ | ⟨hdone, hstatus⟩⟩ := h.waiting id hid
  · -- the time is over: the request is taken off its list
    have hnot := h.flying.notDone id hpend
    have hnr : (s.q.cb id).descNr = 0 := by
      obtain hdone | hnr := hended
      · rw [hnot] at hdone
        cases hdone
      · exact hnr
    obtain ⟨hflying, hissued, honly⟩ := h.flying.remove hpend hnr hneeded
    have hpending : (H2c.unmapSgl (s.q.listDel id) id).pending = s.q.pending.erase id :=
      honly.pending.trans (pending_listDel h.flying.nodup)
    unfold qdmaRequestWaitForCmpl
    dsimp only
    rw [if_pos hnot]
    constructor
    · exact hflying
    · intro hw
      change (H2c.unmapSgl (s.q.listDel id) id).qState = .online
      rw [honly.qState]
      exact h.stopping (honly.qStopWait ▸ hw)
    · intro hoff
      change (H2c.unmapSgl (s.q.listDel id) id).qState ≠ .online at hoff
      rw [honly.qState] at hoff
      exact hissued.trans (h.offline hoff)
    · exact h.nodup.erase id
    · intro j hj
      change j ∈ s.waiting.erase id at hj
      have hne : j ≠ id := ne_of_mem_of_not_mem hj h.nodup.not_mem_erase
      change ((H2c.unmapSgl (s.q.listDel id) id).req j).fpDone = false ∧
        (j ∈ (H2c.unmapSgl (s.q.listDel id) id).pending ∧
          ((H2c.unmapSgl (s.q.listDel id) id).cb j).unmapNeeded =
            !((H2c.unmapSgl (s.q.listDel id) id).req j).dmaMapped ∨
          ((H2c.unmapSgl (s.q.listDel id) id).cb j).done = true ∧
            ((H2c.unmapSgl (s.q.listDel id) id).cb j).status = 0)
      rw [hpending, honly.cb j hne, honly.req j hne, List.mem_erase_of_ne hne]
      exact h.waiting j (List.mem_of_mem_erase hj)
    · intro j hj
      change j ∈ s.writing at hj
      have hne : j ≠ id := ne_of_mem_of_not_mem hj hwriting
      obtain ⟨hwait, hwork, hrest⟩ := h.writing j hj
      change j ∉ s.waiting.erase id ∧ j ∈ (H2c.unmapSgl (s.q.listDel id) id).workList ∧
        ((H2c.unmapSgl (s.q.listDel id) id).cb j).unmapNeeded = false ∧
          ((H2c.unmapSgl (s.q.listDel id) id).cb j).descNr = 0
      rw [honly.work, honly.cb j hne]
      exact ⟨fun hmem => hwait (List.mem_of_mem_erase hmem), (List.mem_erase_of_ne hne).mpr hwork,
        hrest⟩
  · unfold qdmaRequestWaitForCmpl
    dsimp only
    rw [if_neg (by rw [hdone]; decide), if_neg (by rw [hstatus]; decide)]
    constructor
    · exact h.flying
    · exact h.stopping
    · exact h.offline
    · exact h.nodup.erase id
    · exact fun j hj => h.waiting j (List.mem_of_mem_erase hj)
    · intro j hj
      obtain ⟨hwait, hrest⟩ := h.writing j hj
      exact ⟨fun hmem => hwait (List.mem_of_mem_erase hmem), hrest⟩

theorem Kept.stopBegin (h : Kept conf s) :
    Kept conf { s with q := (qdmaQueueStopBegin s.q).2 } := by
  unfold qdmaQueueStopBegin
  split
  · exact h
  · rename_i honline
    rw [not_not] at honline
    constructor
    · exact InFlight.congr h.flying rfl rfl rfl rfl rfl rfl
    · exact fun _ => honline
    · exact h.offline
    · exact h.nodup
    · exact h.waiting
    · exact h.writing

/-- A queue without requests ends none. -/
theorem qdmaQueueStopEnd_of_nil (h : q.pending = []) :
    qdmaQueueStopEnd q = { q with qState := .enabled, qStopWait := false } := by
  obtain ⟨hpend, hwork⟩ := List.append_eq_nil_iff.mp h
  unfold qdmaQueueStopEnd
  dsimp only
  rw [hpend, List.foldl_nil]
  dsimp only
  rw [hwork, List.foldl_nil]

theorem Kept.stopEnd (h : Kept conf s) (hpending : s.q.pending = []) :
    Kept conf { s with q := qdmaQueueStopEnd s.q } := by
  rw [qdmaQueueStopEnd_of_nil hpending]
  constructor
  · exact InFlight.congr h.flying rfl rfl rfl rfl rfl rfl
  · intro hwait
    cases hwait
  · intro _
    change s.q.pending.flatMap (fun id => List.replicate (s.q.cb id).descNr id) = []
    rw [hpending, List.flatMap_nil]
  · exact h.nodup
  · exact h.waiting
  · exact h.writing

/-- The rings of a queue without descriptors are made anew. -/
theorem Flying.restart (h : Flying conf q) (hissued : issued q = [])
    (hring : (q'.cidx, q'.avail, q'.pidx, q'.posted, q'.owners) = (0, conf.rngsz - 1, 0, 0, []))
    (hcredit : q'.credit = 0) (hpend : q'.pendList = q.pendList) (hwork : q'.workList = q.workList)
    (hcb : q'.cb = q.cb) (hreq : q'.req = q.req) (hdma : q'.dma = q.dma) : Flying conf q' := by
  have howners : q'.owners = [] := by
    simp only [Prod.mk.injEq] at hring
    exact hring.2.2.2.2
  have hpending : q'.pending = q.pending := by
    unfold Descq.pending
    rw [hpend, hwork]
  have hsame : issued q' = [] := by
    rw [← hissued]
    unfold issued
    rw [hpending, hcb]
  have hpages : mappedPages q' = mappedPages q := by
    unfold mappedPages pagesOf
    rw [hpending, hcb, hreq]
  unfold Flying
  rw [hcredit]
  constructor
  · exact ⟨0, 0, Indices.empty hring, Nat.zero_le _⟩
  · rw [hpending]
    exact h.nodup
  · rw [hwork, hcb]
    exact h.head
  · exact Nat.zero_le _
  · rw [howners, hsame, List.drop_nil, List.append_nil]
  · rw [hdma]
    exact h.fault
  · rw [hdma, hpages]
    exact h.mapped
  · rw [hpending, hcb, hreq]
    exact h.clean
  · rw [hpending, hcb]
    exact h.notDone

theorem Kept.start (h : Kept conf s) (ok : Bool) :
    Kept conf { s with q := (qdmaQueueStart conf ok s.q).2 } := by
  unfold qdmaQueueStart
  split
  · exact h
  · rename_i henabled
    rw [not_not] at henabled
    have hoff : s.q.qState ≠ .online := by
      rw [henabled]
      decide
    have hissued := h.offline hoff
    have hwait : s.q.qStopWait = false := by
      rw [← Bool.not_eq_true]
      exact fun hw => hoff (h.stopping hw)
    have hfly (q' : Descq) := @Flying.restart _ _ q' h.flying hissued
    split
    · constructor
      · exact hfly _ rfl rfl rfl rfl rfl rfl rfl
      · exact fun _ => rfl
      · exact fun hnot => absurd rfl hnot
      · exact h.nodup
      · exact h.waiting
      · exact h.writing
    · constructor
      · exact hfly _ rfl rfl rfl rfl rfl rfl rfl
      · exact h.stopping
      · exact fun _ => hissued
      · exact h.nodup
      · exact h.waiting
      · exact h.writing

/-- Every admitted step keeps the mappings. -/
theorem Kept.step (hfill : CallbackReports conf) (h : Kept conf s) {e : ClientEvent}
    (hok : ClientOk s e) : Kept conf (clientStep conf s e) := by
  cases e with
  | requestSubmit id req maps inp => exact h.requestSubmit hfill hok.1 hok.2.1 hok.2.2 inp
  | batchSubmit first rest inp =>
    obtain ⟨hnodup, hitems, honline, hwriting⟩ := hok
    exact h.batchSubmit hfill hnodup hitems honline hwriting inp
  | packetAdd sub =>
    obtain ⟨hunused, hnr, hneeded, hdone⟩ := hok
    exact h.packetAdd hunused hnr hneeded hdone
  | packetMap id maps inp => exact h.packetMap hfill hok.1 hok.2 inp
  | waited id => exact h.waited hok.1 hok.2
  | process inp => exact h.process hfill hok inp
  | service inp => exact h.service hfill hok inp
  | stopBegin => exact h.stopBegin
  | stopEnd => exact h.stopEnd hok
  | start ok => exact h.start ok

theorem Kept.initial (conf : QueueConf) : Kept conf { q := conf.start } := by
  constructor
  · constructor
    · exact ⟨0, 0, Indices.start conf, Nat.zero_le _⟩
    · exact List.nodup_nil
    · exact fun _ hid => absurd hid List.not_mem_nil
    · exact Nat.zero_le _
    · rfl
    · rfl
    · exact List.Perm.refl _
    · exact fun _ hid => absurd hid List.not_mem_nil
    · exact fun _ hid => absurd hid List.not_mem_nil
  · intro hwait
    cases hwait
  · exact fun _ => rfl
  · exact List.nodup_nil
  · exact fun _ hid => absurd hid List.not_mem_nil
  · exact fun _ hid => absurd hid List.not_mem_nil

/-- In every run whose steps meet the condition, whatever the hardware consumes, the mappings of the
requests are kept. -/
theorem clientRun_mappingsKept (hfill : CallbackReports conf) {es : List ClientEvent}
    (hok : Admitted (clientStep conf) ClientOk { q := conf.start } es) :
    Always (clientStep conf) (fun s => MappingsKept s.q) { q := conf.start } es := by
  apply @Admitted.always _ _ _ _ (fun _ _ => True) (Kept conf)
  · exact fun s h => h.flying.mappingsKept
  · exact fun s e h hok _ => h.step hfill hok
  · exact Kept.initial conf
  · exact hok
  · exact admitted_of_forall (fun _ _ => trivial) _

end

theorem mappedConf_rngsz_pos : 0 < 8 := by decide

/-- A streaming queue with eight descriptors. -/
def mappedConf : QueueConf where
  st := true
  qType := .h2c
  rngsz := 8
  rngsz_pos := mappedConf_rngsz_pos
  rngsz_lt := by decide
  pidxAcc_lt := pollConf.pidxAcc_lt
  st_h2c := fun _ => rfl

/-- A request for two pages. -/
def twoPages (fpDone : Bool) : QdmaRequest where
  count := 8192
  sgcnt := 2
  sgl := [{ pg := 1, offset := 0, len := 4096 }, { pg := 2, offset := 16, len := 4096 }]
  write := true
  fpDone := fpDone

/-- A request, a batch and a packet whose second page cannot be mapped, their completion, and a
restart. -/
def mappedRun : List ClientEvent :=
  [.requestSubmit 1 (twoPages false) [some 4096, some 8192] { fuel := 9 },
    .batchSubmit { id := 2, req := twoPages true, maps := [some 12288, some 16384] }
      [{ id := 3, req := twoPages true, maps := [some 20480, some 24576] }] { fuel := 9 },
    .packetAdd { id := 4, req := twoPages true }, .packetMap 4 [some 28672, none] { fuel := 9 },
    .service { fuel := 9, advances := [6] }, .waited 1, .service { fuel := 9, advances := [2] },
    .stopBegin, .stopEnd, .start true]

theorem mappedRun_mappingsKept :
    Always (clientStep mappedConf) (fun s => MappingsKept s.q) { q := mappedConf.start }
      mappedRun :=
  clientRun_mappingsKept (CallbackReports.of_none rfl) (by decide +kernel)

/-- A batch for a queue that was stopped is rejected after its pages were mapped, and they stay
mapped. -/
theorem rejectedBatch_leaks :
    ¬ Always (clientStep mappedConf) (fun s => MappingsKept s.q) { q := mappedConf.start }
      [.stopBegin, .stopEnd,
        .batchSubmit { id := 1, req := twoPages true, maps := [some 4096, some 8192] } []
          { fuel := 9 }] := by
  intro h
  have hmapped := h.final.mapped
  revert hmapped
  decide +kernel

end OnicDriver.H2c
