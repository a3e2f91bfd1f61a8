import OnicDriver.H2c.Running
import OnicDriver.H2c.Moves
import Mathlib.Data.List.Perm.Basic

/-!
# Requests in flight

Between their submission and their end requests are on one of the two lists.
Their pages are mapped, and they own the descriptors that the hardware has not yet
completed, in the order of submission: the completion credits go to the oldest
descriptors, so that a request ends only when the hardware has nothing of it.
-/

namespace OnicDriver.H2c

open Lib Queue

/-- The requests of the descriptors that were counted for them and are not yet credited. -/
def issued (q : Descq) : List ReqId :=
  q.pending.flatMap fun id => List.replicate (q.cb id).descNr id

/-- The bus address of the page of an element. -/
def pageAddr (sg : SwSg) : ℕ := u64 ((sg.dmaAddr : ℤ) - sg.offset)

/-- The pages of the elements that have an address. -/
def pagesIn (sgl : List SwSg) : List ℕ := (sgl.filter fun sg => sg.dmaAddr ≠ 0).map pageAddr

/-- The pages that the driver has mapped for a request. -/
def pagesOf (q : Descq) (id : ReqId) : List ℕ :=
  if (q.cb id).unmapNeeded = true then pagesIn (elems (q.req id)) else []

/-- The pages of all requests on the lists. -/
def mappedPages (q : Descq) : List ℕ := q.pending.flatMap (pagesOf q)

/-- All elements can be unmapped: each has a page. -/
def Unmappable (sgl : List SwSg) : Prop := ∀ sg ∈ sgl, sg.pg ≠ 0

/-- A queue with the credits `cr` on which the first request has taken the descriptors `taken` that
are not yet counted for it. -/
structure InFlight (conf : QueueConf) (cr : ℕ) (taken : List ReqId) (q : Descq) : Prop where
  indices : ∃ k m, Indices conf k m q.ring ∧ m + taken.length ≤ q.owners.length
  nodup : q.pending.Nodup
  head : ∀ id ∈ q.workList.tail, (q.cb id).descNr = 0
  credit : cr ≤ (issued q).length
  owners : q.owners = (issued q).drop cr ++ taken
  fault : q.dma.fault = false
  mapped : q.dma.mapped.Perm (mappedPages q)
  clean : ∀ id ∈ q.pending, (q.cb id).unmapNeeded = true → Unmappable (elems (q.req id))
  notDone : ∀ id ∈ q.pending, (q.cb id).done = false

/-- A queue between two steps of a call. -/
def Flying (conf : QueueConf) (q : Descq) : Prop := InFlight conf q.credit [] q

/-- What a step does to the requests: those on the lists stay or end without an error, and the
others are left alone. -/
structure Attends (q q' : Descq) : Prop where
  stays : ∀ id ∈ q.pending,
    id ∈ q'.pending ∧ (q'.cb id).unmapNeeded = (q.cb id).unmapNeeded ∧ q'.req id = q.req id ∨
    id ∉ q'.pending ∧ (q'.cb id).done = true ∧
      ((q.req id).fpDone = false → (q'.cb id).status = 0)
  others : ∀ id ∉ q.pending, id ∉ q'.pending ∧ q'.cb id = q.cb id ∧ q'.req id = q.req id
  fpDone : ∀ id, (q'.req id).fpDone = (q.req id).fpDone
  state : (q'.qState, q'.qStopWait) = (q.qState, q.qStopWait)

section

variable {conf : QueueConf} {q q' q'' : Descq} {id : ReqId} {cr : ℕ} {taken : List ReqId}

/-! ## Unmapping -/

theorem pagesIn_cons_zero {sg : SwSg} {sgl : List SwSg} (haddr : sg.dmaAddr = 0) :
    pagesIn (sg :: sgl) = pagesIn sgl := by
  unfold pagesIn
  rw [List.filter_cons_of_neg]
  rw [decide_eq_true_eq, not_not]
  exact haddr

theorem pagesIn_cons {sg : SwSg} {sgl : List SwSg} (haddr : sg.dmaAddr ≠ 0) :
    pagesIn (sg :: sgl) = pageAddr sg :: pagesIn sgl := by
  unfold pagesIn
  rw [List.filter_cons_of_pos (by rw [decide_eq_true_eq]; exact haddr), List.map_cons]

/-- The pages of a list are unmapped, each once. -/
theorem sglUnmap_mapped {sgl : List SwSg} {d : Dma} {rest : List ℕ} (hsgl : Unmappable sgl)
    (hperm : d.mapped.Perm (pagesIn sgl ++ rest)) :
    (sglUnmap sgl d).2.fault = d.fault ∧ (sglUnmap sgl d).2.mapped.Perm rest := by
  induction sgl generalizing d with
  | nil => exact ⟨rfl, hperm⟩
  | cons sg sgl ih =>
    have hpg := hsgl sg List.mem_cons_self
    have hsgl' : Unmappable sgl := fun sg' hsg' => hsgl sg' (List.mem_cons_of_mem sg hsg')
    unfold sglUnmap
    rw [if_neg hpg]
    by_cases haddr : sg.dmaAddr = 0
    · rw [pagesIn_cons_zero haddr] at hperm
      rw [if_neg (not_not.mpr haddr)]
      exact ih hsgl' hperm
    · rw [pagesIn_cons haddr] at hperm
      have hmem : pageAddr sg ∈ d.mapped :=
        hperm.mem_iff.mpr (List.mem_append_left rest List.mem_cons_self)
      have hstep : d.unmap (pageAddr sg) = { d with mapped := d.mapped.erase (pageAddr sg) } :=
        if_pos hmem
      have herase : (d.mapped.erase (pageAddr sg)).Perm (pagesIn sgl ++ rest) := by
        have herased := hperm.erase (pageAddr sg)
        rwa [List.cons_append, List.erase_cons_head] at herased
      have hrest := ih (d := d.unmap (pageAddr sg)) hsgl' (by rw [hstep]; exact herase)
      rw [if_pos haddr]
      rw [hstep] at hrest
      have hsame : d.unmap (u64 ((sg.dmaAddr : ℤ) - sg.offset)) =
          { d with mapped := d.mapped.erase (pageAddr sg) } := hstep
      dsimp only
      rw [hsame]
      exact hrest

/-- After that no element has an address. -/
theorem sglUnmap_sgl {sgl : List SwSg} (hsgl : Unmappable sgl) (d : Dma) :
    (sglUnmap sgl d).1 = sgl.map fun sg => { sg with dmaAddr := 0 } := by
  induction sgl generalizing d with
  | nil => rfl
  | cons sg sgl ih =>
    have hpg := hsgl sg List.mem_cons_self
    have hsgl' : Unmappable sgl := fun sg' hsg' => hsgl sg' (List.mem_cons_of_mem sg hsg')
    unfold sglUnmap
    rw [if_neg hpg]
    by_cases haddr : sg.dmaAddr = 0
    · rw [if_neg (not_not.mpr haddr), List.map_cons]
      dsimp only
      rw [ih hsgl', ← haddr]
    · rw [if_pos haddr, List.map_cons]
      dsimp only
      rw [ih hsgl']

/-! ## Frames -/

/-- Only these fields matter. -/
theorem InFlight.congr (h : InFlight conf cr taken q) (hslots : q'.ring.slots = q.ring.slots)
    (hpend : q'.pendList = q.pendList) (hwork : q'.workList = q.workList) (hcb : q'.cb = q.cb)
    (hreq : q'.req = q.req) (hdma : q'.dma = q.dma) : InFlight conf cr taken q' := by
  have howners : q'.owners = q.owners := by
    simp only [RingView.slots, Prod.mk.injEq] at hslots
    exact hslots.2.2.2.2.2
  have hpending : q'.pending = q.pending := by
    unfold Descq.pending
    rw [hpend, hwork]
  have hissued : issued q' = issued q := by
    unfold issued
    rw [hpending, hcb]
  have hpages : mappedPages q' = mappedPages q := by
    unfold mappedPages pagesOf
    rw [hpending, hcb, hreq]
  constructor
  · obtain ⟨k, m, hind, hle⟩ := h.indices
    rw [howners]
    exact ⟨k, m, hind.congr hslots, hle⟩
  · rw [hpending]
    exact h.nodup
  · rw [hwork, hcb]
    exact h.head
  · rw [hissued]
    exact h.credit
  · rw [howners, hissued]
    exact h.owners
  · rw [hdma]
    exact h.fault
  · rw [hdma, hpages]
    exact h.mapped
  · rw [hpending, hcb, hreq]
    exact h.clean
  · rw [hpending, hcb]
    exact h.notDone

theorem Attends.of_eq (hpending : q'.pending = q.pending) (hcb : q'.cb = q.cb)
    (hreq : q'.req = q.req) (hstate : (q'.qState, q'.qStopWait) = (q.qState, q.qStopWait)) :
    Attends q q' := by
  constructor
  · intro id hid
    rw [hpending, hcb, hreq]
    exact Or.inl ⟨hid, rfl, rfl⟩
  · intro id hid
    rw [hpending, hcb, hreq]
    exact ⟨hid, rfl, rfl⟩
  · intro id
    rw [hreq]
  · exact hstate

theorem Attends.refl (q : Descq) : Attends q q := Attends.of_eq rfl rfl rfl rfl

theorem Attends.trans (h : Attends q q') (h' : Attends q' q'') : Attends q q'' := by
  constructor
  · intro id hid
    obtain ⟨hstay, hneeded, hreq⟩ | ⟨hgone, hdone, hstatus⟩ := h.stays id hid
    · obtain ⟨hstay', hneeded', hreq'⟩ | ⟨hgone', hdone', hstatus'⟩ := h'.stays id hstay
      · exact Or.inl ⟨hstay', hneeded'.trans hneeded, hreq'.trans hreq⟩
      · refine Or.inr ⟨hgone', hdone', fun hfp => hstatus' ?_⟩
        rw [h.fpDone]
        exact hfp
    · obtain ⟨hgone', hcb, -⟩ := h'.others id hgone
      right
      rw [hcb]
      exact ⟨hgone', hdone, hstatus⟩
  · intro id hid
    obtain ⟨hgone, hcb, hreq⟩ := h.others id hid
    obtain ⟨hgone', hcb', hreq'⟩ := h'.others id hgone
    exact ⟨hgone', hcb'.trans hcb, hreq'.trans hreq⟩
  · intro id
    rw [h'.fpDone, h.fpDone]
  · rw [h'.state, h.state]

/-! ## Ends of requests -/

/-- The first request of the pending list ends when it has all its credits. -/
theorem InFlight.qdmaSgtReqDone {pend : List ReqId} (h : InFlight conf cr taken q)
    (hpend : q.pendList = id :: pend) (hcr : (q.cb id).descNr ≤ cr) :
    InFlight conf (cr - (q.cb id).descNr) taken (qdmaSgtReqDone conf q id 0) ∧
      Attends q (qdmaSgtReqDone conf q id 0) ∧
      (qdmaSgtReqDone conf q id 0).pendList = pend ∧
      (qdmaSgtReqDone conf q id 0).workList = q.workList := by
  have hends := @qdmaSgtReqDone_ends conf q id 0
  have hring := @ring_qdmaSgtReqDone conf q id 0
  have hstate := congrArg (fun v : RingView => (v.qState, v.qStopWait)) hring
  have howners : (H2c.qdmaSgtReqDone conf q id 0).owners = q.owners :=
    congrArg RingView.owners hring
  set q' := H2c.qdmaSgtReqDone conf q id 0 with hq'
  have hpending : q.pending = id :: (pend ++ q.workList) := by
    rw [Descq.pending, hpend, List.cons_append]
  have hnodup := h.nodup
  rw [hpending, List.nodup_cons] at hnodup
  obtain ⟨hnot, hrest⟩ := hnodup
  have hpend' : q'.pendList = pend := by
    rw [hends.pend, hpend, List.erase_cons_head]
  have hwork' : q'.workList = q.workList := by
    rw [hends.work]
    exact List.erase_of_not_mem fun hmem => hnot (List.mem_append_right pend hmem)
  have hpending' : q'.pending = pend ++ q.workList := by
    rw [Descq.pending, hpend', hwork']
  have hne : ∀ j ∈ pend ++ q.workList, j ≠ id := fun j hj => ne_of_mem_of_not_mem hj hnot
  have hissued : issued q = List.replicate (q.cb id).descNr id ++ issued q' := by
    unfold issued
    rw [hpending, hpending', List.flatMap_cons]
    congr 1
    apply List.flatMap_congr
    intro j hj
    rw [hends.cb j (hne j hj)]
  have hpages : mappedPages q = pagesOf q id ++ mappedPages q' := by
    unfold mappedPages
    rw [hpending, hpending', List.flatMap_cons]
    congr 1
    apply List.flatMap_congr
    intro j hj
    unfold pagesOf
    rw [hends.cb j (hne j hj), hends.req j (hne j hj)]
  have hunmap : q'.dma.fault = false ∧ q'.dma.mapped.Perm (mappedPages q') := by
    have hmapped := h.mapped
    rw [hpages] at hmapped
    rw [hends.dma]
    split
    · rename_i hneeded
      rw [pagesOf, if_pos hneeded] at hmapped
      have hclean := h.clean id (by rw [hpending]; exact List.mem_cons_self) hneeded
      obtain ⟨hfault, hperm⟩ := sglUnmap_mapped hclean hmapped
      exact ⟨hfault.trans h.fault, hperm⟩
    · rename_i hneeded
      rw [pagesOf, if_neg hneeded] at hmapped
      exact ⟨h.fault, hmapped⟩
  have hcredit := h.credit
  rw [hissued, List.length_append, List.length_replicate] at hcredit
  refine ⟨⟨?_, ?_, ?_, by omega, ?_, hunmap.1, hunmap.2, ?_, ?_⟩, ⟨?_, ?_, ?_, hstate⟩, hpend',
    hwork'⟩
  · obtain ⟨k, m, hind, hle⟩ := h.indices
    rw [howners, hring]
    exact ⟨k, m, hind, hle⟩
  · rw [hpending']
    exact hrest
  · intro j hj
    rw [hwork'] at hj
    rw [hends.cb j (hne j (List.mem_append_right pend (List.mem_of_mem_tail hj)))]
    exact h.head j hj
  · rw [howners, h.owners, hissued, List.drop_append, List.length_replicate,
      List.drop_eq_nil_of_le (by rw [List.length_replicate]; exact hcr), List.nil_append]
  · intro j hj hneeded
    rw [hpending'] at hj
    rw [hends.cb j (hne j hj)] at hneeded
    rw [hends.req j (hne j hj)]
    exact h.clean j (by rw [hpending]; exact List.mem_cons_of_mem id hj) hneeded
  · intro j hj
    rw [hpending'] at hj
    rw [hends.cb j (hne j hj)]
    exact h.notDone j (by rw [hpending]; exact List.mem_cons_of_mem id hj)
  · intro j hj
    rw [hpending] at hj
    obtain rfl | hj := List.mem_cons.mp hj
    · right
      rw [hpending']
      exact ⟨hnot, hends.done, hends.status⟩
    · left
      rw [hpending', hends.cb j (hne j hj), hends.req j (hne j hj)]
      exact ⟨hj, rfl, rfl⟩
  · intro j hj
    rw [hpending, List.mem_cons, not_or] at hj
    rw [hpending']
    exact ⟨hj.2, hends.cb j hj.1, hends.req j hj.1⟩
  · intro j
    by_cases hj : j = id
    · rw [hj, hends.fpDone]
    · rw [hends.req j hj]

/-- The first request of the pending list gets a part of its credits. -/
theorem InFlight.setCb {pend : List ReqId} (h : InFlight conf cr taken q)
    (hpend : q.pendList = id :: pend) (hcr : cr < (q.cb id).descNr) :
    InFlight conf 0 taken (q.setCb id { q.cb id with descNr := (q.cb id).descNr - cr }) ∧
      Attends q (q.setCb id { q.cb id with descNr := (q.cb id).descNr - cr }) := by
  set q' := q.setCb id { q.cb id with descNr := (q.cb id).descNr - cr } with hq'
  have hself : q'.cb id = { q.cb id with descNr := (q.cb id).descNr - cr } :=
    Function.update_self id _ q.cb
  have hother : ∀ j ≠ id, q'.cb j = q.cb j := fun j hj => Function.update_of_ne hj _ _
  have hsame : ∀ j, (q'.cb j).unmapNeeded = (q.cb j).unmapNeeded ∧
      (q'.cb j).done = (q.cb j).done ∧ (q'.cb j).status = (q.cb j).status := by
    intro j
    by_cases hj : j = id
    · rw [hj, hself]
      exact ⟨rfl, rfl, rfl⟩
    · rw [hother j hj]
      exact ⟨rfl, rfl, rfl⟩
  have hpending : q.pending = id :: (pend ++ q.workList) := by
    rw [Descq.pending, hpend, List.cons_append]
  have hpending' : q'.pending = q.pending := rfl
  have hnodup := h.nodup
  rw [hpending, List.nodup_cons] at hnodup
  obtain ⟨hnot, -⟩ := hnodup
  have hissued : issued q =
      List.replicate (q.cb id).descNr id ++ (pend ++ q.workList).flatMap fun j =>
        List.replicate (q.cb j).descNr j := by
    unfold issued
    rw [hpending, List.flatMap_cons]
  have hissued' : issued q' =
      List.replicate ((q.cb id).descNr - cr) id ++ (pend ++ q.workList).flatMap fun j =>
        List.replicate (q.cb j).descNr j := by
    unfold issued
    rw [hpending', hpending, List.flatMap_cons, hself]
    congr 1
    apply List.flatMap_congr
    intro j hj
    rw [hother j (ne_of_mem_of_not_mem hj hnot)]
  have hpages : mappedPages q' = mappedPages q := by
    unfold mappedPages
    rw [hpending']
    apply List.flatMap_congr
    intro j _
    unfold pagesOf
    rw [(hsame j).1]
    rfl
  constructor
  · refine ⟨h.indices, h.nodup, ?_, Nat.zero_le _, ?_, h.fault, ?_, ?_, ?_⟩
    · intro j hj
      have hmem : j ∈ pend ++ q.workList := List.mem_append_right pend (List.mem_of_mem_tail hj)
      rw [hother j (ne_of_mem_of_not_mem hmem hnot)]
      exact h.head j hj
    · have howners := h.owners
      rw [hissued, List.drop_append, List.length_replicate, Nat.sub_eq_zero_of_le hcr.le,
        List.drop_zero, List.drop_replicate] at howners
      rw [hissued', List.drop_zero]
      exact howners
    · rw [hpages]
      exact h.mapped
    · intro j hj hneeded
      rw [(hsame j).1] at hneeded
      exact h.clean j hj hneeded
    · intro j hj
      rw [(hsame j).2.1]
      exact h.notDone j hj
  · refine ⟨fun j hj => Or.inl ⟨hj, (hsame j).1, rfl⟩, ?_, fun _ => rfl, rfl⟩
    intro j hj
    refine ⟨hj, hother j ?_, rfl⟩
    intro heq
    rw [heq, hpending] at hj
    exact hj List.mem_cons_self

/-- The credits are handed out. -/
theorem InFlight.completeRequests {pend : List ReqId} (h : InFlight conf cr taken q)
    (hpend : q.pendList = pend) :
    InFlight conf (completeRequests conf cr pend q).1 taken (completeRequests conf cr pend q).2 ∧
      Attends q (completeRequests conf cr pend q).2 ∧
      (completeRequests conf cr pend q).2.workList = q.workList := by
  induction pend generalizing cr q with
  | nil => exact ⟨h, Attends.refl q, rfl⟩
  | cons id pend ih =>
    unfold H2c.completeRequests
    dsimp only
    split
    · rename_i hcr
      obtain ⟨hdone, hattends, hpend', hwork⟩ := h.qdmaSgtReqDone hpend hcr
      split
      · rename_i hzero
        rw [hzero] at hdone
        exact ⟨hdone, hattends, hwork⟩
      · obtain ⟨hrest, hattends', hwork'⟩ := ih hdone hpend'
        exact ⟨hrest, hattends.trans hattends', hwork'.trans hwork⟩
    · rename_i hcr
      obtain ⟨hpart, hattends⟩ := h.setCb hpend (not_le.mp hcr)
      exact ⟨hpart, hattends, rfl⟩

/-! ## Completion status -/

/-- Descriptors that were posted are taken back. -/
theorem InFlight.takeBack (h : InFlight conf cr taken q) {r k m : ℕ}
    (hind : Indices conf k m q.ring) (hle : m + taken.length ≤ q.owners.length) (hr : r ≤ k) :
    InFlight conf (cr + r) taken (takeBack conf r q) := by
  have howners := h.owners
  have hlen : q.owners.length = (issued q).length - cr + taken.length := by
    rw [howners, List.length_append, List.length_drop]
  have hcredit := h.credit
  have hkm := hind.posted_le
  have hissued : issued (H2c.takeBack conf r q) = issued q := rfl
  have hdrop : (H2c.takeBack conf r q).owners = q.owners.drop r := rfl
  constructor
  · refine ⟨k - r, m - r, hind.takeBack hr, ?_⟩
    rw [hdrop, List.length_drop]
    omega
  · exact h.nodup
  · exact h.head
  · rw [hissued]
    omega
  · rw [hdrop, howners, hissued, List.drop_append, List.drop_drop, List.length_drop,
      Nat.sub_eq_zero_of_le (by omega), List.drop_zero]
  · exact h.fault
  · exact h.mapped
  · exact h.clean
  · exact h.notDone

/-- What a look at the completion status does to the requests. -/
structure Looked (conf : QueueConf) (taken : List ReqId) (q q' : Descq) : Prop where
  inFlight : InFlight conf q'.credit taken q'
  attends : Attends q q'
  workList : q'.workList = q.workList

theorem InFlight.status (h : InFlight conf q.credit taken q) :
    Looked conf taken q (descqMmNH2cCmplStatus conf q) := by
  obtain ⟨k, m, hind, hle⟩ := h.indices
  obtain ⟨rest, -, heq⟩ | ⟨r, n, rest, -, hpos, hr, heq⟩ := descqMmNH2cCmplStatus_cases hind
  · rw [heq]
    exact ⟨h.congr rfl rfl rfl rfl rfl rfl, Attends.of_eq rfl rfl rfl rfl, rfl⟩
  · rw [heq]
    have hscript : InFlight conf q.credit taken { q with advances := rest } :=
      h.congr rfl rfl rfl rfl rfl rfl
    have hback : InFlight conf (q.credit + r) taken
        (H2c.takeBack conf r { q with advances := rest }) :=
      hscript.takeBack (hind.congr rfl) hle hr
    have hinfo : q.pidxInfoPidx = ((H2c.takeBack conf r q).cidx + (m - r)) % conf.rngsz :=
      hind.info_takeBack hr hpos
    have hind₀ : Indices conf (k - r) (m - r)
        (H2c.takeBack conf r { q with advances := rest }).ring :=
      Indices.takeBack (q := { q with advances := rest }) (hind.congr rfl) hr
    set q₀ := H2c.takeBack conf r { q with advances := rest } with hq₀
    obtain ⟨hgiven, hattends, hwork⟩ := hback.completeRequests rfl
    have hring : (giveCredit conf q₀).ring = q₀.ring := ring_giveCredit
    have hgiven' : InFlight conf (giveCredit conf q₀).credit taken (giveCredit conf q₀) :=
      hgiven.congr rfl rfl rfl rfl rfl rfl
    have hattends' : Attends q (giveCredit conf q₀) := by
      have hstart : Attends q q₀ := Attends.of_eq rfl rfl rfl rfl
      have hend : Attends (H2c.completeRequests conf q₀.credit q₀.pendList q₀).2
          (giveCredit conf q₀) := Attends.of_eq rfl rfl rfl rfl
      exact (hstart.trans hattends).trans hend
    have hwork' : (giveCredit conf q₀).workList = q.workList := hwork
    set q₁ := giveCredit conf q₀ with hq₁
    have hlen : m - r + taken.length ≤ q₁.owners.length := by
      have howners : q₁.owners = q.owners.drop r := congrArg RingView.owners hring
      have hkm := hind.posted_le
      rw [howners, List.length_drop]
      omega
    have hpost : ∀ rest', InFlight conf q₁.credit taken { q₁ with doorbells := rest' } ∧
        InFlight conf q₁.credit taken
          { q₁ with doorbells := rest', posted := q₁.pidxInfoPidx, descPend := 0 } := by
      intro rest'
      refine ⟨hgiven'.congr rfl rfl rfl rfl rfl rfl, ?_⟩
      have hinfo₁ : q₁.pidxInfoPidx = (q₁.cidx + (m - r)) % conf.rngsz := by
        have hcidx : q₁.cidx = q₀.cidx := congrArg RingView.cidx hring
        rw [hcidx]
        exact (congrArg RingView.pidxInfoPidx hring).trans hinfo
      have hind₁ : Indices conf (k - r) (m - r) q₁.ring := by
        rw [hring]
        exact hind₀
      exact ⟨⟨m - r, m - r, hind₁.post hinfo₁ rfl, hlen⟩, hgiven'.nodup, hgiven'.head,
        hgiven'.credit, hgiven'.owners, hgiven'.fault, hgiven'.mapped, hgiven'.clean,
        hgiven'.notDone⟩
    unfold qdmaPidxUpdate queuePidxUpdate
    rw [if_pos (Or.inl rfl)]
    cases q₁.doorbells with
    | nil =>
      exact ⟨(hpost []).2, hattends'.trans (Attends.of_eq rfl rfl rfl rfl), hwork'⟩
    | cons b rest' =>
      cases b with
      | false =>
        exact ⟨(hpost rest').1, hattends'.trans (Attends.of_eq rfl rfl rfl rfl), hwork'⟩
      | true =>
        exact ⟨(hpost rest').2, hattends'.trans (Attends.of_eq rfl rfl rfl rfl), hwork'⟩

/-! ## Descriptors of the first request -/

/-- Descriptors are taken from the ring. -/
theorem InFlight.take (h : InFlight conf cr taken q) {n : ℕ} (hn : n ≤ q.avail) (q' : Descq)
    (hpidx : q'.pidx = (q.pidx + n) % conf.rngsz) (havail : q'.avail = q.avail - n)
    (howners : q'.owners = q.owners ++ List.replicate n id) (hcidx : q'.cidx = q.cidx)
    (hposted : q'.posted = q.posted) (hinfo : q'.pidxInfoPidx = q.pidxInfoPidx)
    (hpend : q'.pendList = q.pendList) (hwork : q'.workList = q.workList) (hcb : q'.cb = q.cb)
    (hreq : q'.req = q.req) (hdma : q'.dma = q.dma) :
    InFlight conf cr (taken ++ List.replicate n id) q' := by
  have hpending : q'.pending = q.pending := by
    unfold Descq.pending
    rw [hpend, hwork]
  have hissued : issued q' = issued q := by
    unfold issued
    rw [hpending, hcb]
  have hpages : mappedPages q' = mappedPages q := by
    unfold mappedPages pagesOf
    rw [hpending, hcb, hreq]
  have hlen : q'.owners.length = q.owners.length + n := by
    rw [howners, List.length_append, List.length_replicate]
  constructor
  · obtain ⟨k, m, hind, hle⟩ := h.indices
    refine ⟨k, m, hind.extend hn hcidx hpidx havail hlen hposted hinfo, ?_⟩
    rw [List.length_append, List.length_replicate]
    omega
  · rw [hpending]
    exact h.nodup
  · rw [hwork, hcb]
    exact h.head
  · rw [hissued]
    exact h.credit
  · rw [howners, h.owners, hissued, List.append_assoc]
  · rw [hdma]
    exact h.fault
  · rw [hdma, hpages]
    exact h.mapped
  · rw [hpending, hcb, hreq]
    exact h.clean
  · rw [hpending, hcb]
    exact h.notDone

theorem InFlight.qdmaQDescGet (h : InFlight conf q.credit taken q) (cnt : ℕ) :
    Looked conf (taken ++ List.replicate (qdmaQDescGet conf id cnt q).1 id) q
      (qdmaQDescGet conf id cnt q).2 := by
  have hlook : Looked conf taken q (if q.avail < cnt then descqMmNH2cCmplStatus conf q else q) := by
    split
    · exact h.status
    · exact ⟨h, Attends.refl q, rfl⟩
  have hnone : ∀ {q'}, Looked conf taken q q' →
      Looked conf (taken ++ List.replicate 0 id) q q' := by
    intro q' h'
    rw [List.replicate_zero, List.append_nil]
    exact h'
  unfold H2c.qdmaQDescGet
  dsimp only
  split
  · exact hnone ⟨h, Attends.refl q, rfl⟩
  · rename_i hcnt
    set q₁ := if q.avail < cnt then descqMmNH2cCmplStatus conf q else q
    split
    · exact hnone hlook
    · rename_i havail
      obtain ⟨hfly, hattends, hwork⟩ := hlook
      obtain ⟨k, m, hind, -⟩ := hfly.indices
      have hpidx : ringIdxIncr q₁.pidx cnt conf.rngsz = (q₁.pidx + cnt) % conf.rngsz :=
        ringIdxIncr_eq_mod hind.pidx_lt (by omega)
      have htake : InFlight conf q₁.credit (taken ++ List.replicate cnt id) { q₁ with
          pidx := ringIdxIncr q₁.pidx cnt conf.rngsz, avail := q₁.avail - cnt
          owners := q₁.owners ++ List.replicate cnt id, written := q₁.written + cnt } :=
        hfly.take (not_lt.mp havail) _ hpidx rfl rfl rfl rfl rfl rfl rfl rfl rfl rfl
      exact ⟨htake, hattends.trans (Attends.of_eq rfl rfl rfl rfl), hwork⟩

theorem InFlight.getDescs (h : InFlight conf q.credit taken q) (gets : List ℕ) :
    Looked conf (taken ++ List.replicate (getDescs conf id gets q).1 id) q
      (getDescs conf id gets q).2 := by
  induction gets generalizing q taken with
  | nil =>
    change Looked conf (taken ++ List.replicate 0 id) q q
    rw [List.replicate_zero, List.append_nil]
    exact ⟨h, Attends.refl q, rfl⟩
  | cons cnt gets ih =>
    obtain ⟨hfly, hattends, hwork⟩ := @InFlight.qdmaQDescGet _ _ id _ h cnt
    obtain ⟨hfly', hattends', hwork'⟩ := ih hfly
    rw [List.append_assoc, List.replicate_append_replicate] at hfly'
    exact ⟨hfly', hattends.trans hattends', hwork'.trans hwork⟩

/-- The descriptors that the first request has taken are counted for it. -/
theorem InFlight.qdmaUpdateRequest {n : ℕ} {rest : List ReqId}
    (h : InFlight conf cr (List.replicate n id) q) (hwork : q.workList = id :: rest) (c : ℕ) :
    InFlight conf cr [] (qdmaUpdateRequest q id n c) ∧
      Attends q (qdmaUpdateRequest q id n c) := by
  set cb' : SgtReqCb := { q.cb id with
    descNr := (q.cb id).descNr + n, offset := u32 ((q.cb id).offset + c) } with hcb'
  have hnodup := h.nodup
  rw [Descq.pending, hwork, List.nodup_append] at hnodup
  have hnot : id ∉ q.pendList := fun hmem => hnodup.2.2 id hmem id List.mem_cons_self rfl
  have hrest : id ∉ rest := (List.nodup_cons.mp hnodup.2.1).1
  -- in both cases the requests are on the lists in the same order
  have hstep : (H2c.qdmaUpdateRequest q id n c).pending = q.pending ∧
      (H2c.qdmaUpdateRequest q id n c).cb = Function.update q.cb id cb' ∧
      (H2c.qdmaUpdateRequest q id n c).req = q.req ∧
      (H2c.qdmaUpdateRequest q id n c).dma = q.dma ∧
      ((H2c.qdmaUpdateRequest q id n c).workList = q.workList ∨
        (H2c.qdmaUpdateRequest q id n c).workList = rest) := by
    unfold H2c.qdmaUpdateRequest
    dsimp only
    split
    · refine ⟨?_, rfl, rfl, rfl, Or.inr ?_⟩
      · change q.pendList.erase id ++ [id] ++ q.workList.erase id = q.pendList ++ q.workList
        rw [List.erase_of_not_mem hnot, hwork, List.erase_cons_head, List.append_assoc,
          List.singleton_append]
      · change q.workList.erase id = rest
        rw [hwork, List.erase_cons_head]
    · exact ⟨rfl, rfl, rfl, rfl, Or.inl rfl⟩
  have hring := @ring_qdmaUpdateRequest q id n c
  set q' := H2c.qdmaUpdateRequest q id n c with hq'
  obtain ⟨hpending, hcb, hreq, hdma, hlist⟩ := hstep
  have howners : q'.owners = q.owners := congrArg RingView.owners hring
  have hself : q'.cb id = cb' := by
    rw [hcb, Function.update_self]
  have hother : ∀ j ≠ id, q'.cb j = q.cb j := by
    intro j hj
    rw [hcb, Function.update_of_ne hj]
  have hsame : ∀ j, (q'.cb j).unmapNeeded = (q.cb j).unmapNeeded ∧
      (q'.cb j).done = (q.cb j).done := by
    intro j
    by_cases hj : j = id
    · rw [hj, hself]
      exact ⟨rfl, rfl⟩
    · rw [hother j hj]
      exact ⟨rfl, rfl⟩
  have hrest_zero : ∀ j ∈ rest, (q.cb j).descNr = 0 := by
    intro j hj
    apply h.head
    rw [hwork]
    exact hj
  have hissued : issued q' = issued q ++ List.replicate n id := by
    have hnil : ∀ f : ReqId → SgtReqCb, (∀ j ∈ rest, (f j).descNr = 0) →
        rest.flatMap (fun j => List.replicate (f j).descNr j) = [] := by
      intro f hf
      rw [List.flatMap_eq_nil_iff]
      intro j hj
      rw [hf j hj, List.replicate_zero]
    have hfront : q.pendList.flatMap (fun j => List.replicate (q'.cb j).descNr j) =
        q.pendList.flatMap fun j => List.replicate (q.cb j).descNr j := by
      apply List.flatMap_congr
      intro j hj
      rw [hother j (ne_of_mem_of_not_mem hj hnot)]
    have hrest' : ∀ j ∈ rest, (q'.cb j).descNr = 0 := by
      intro j hj
      rw [hother j (ne_of_mem_of_not_mem hj hrest)]
      exact hrest_zero j hj
    unfold issued
    rw [hpending, Descq.pending, hwork, List.flatMap_append, List.flatMap_append,
      List.flatMap_cons, List.flatMap_cons, hnil q.cb hrest_zero, hnil q'.cb hrest', hfront,
      List.append_nil, List.append_nil, List.append_assoc, List.replicate_append_replicate, hself]
  have hpages : mappedPages q' = mappedPages q := by
    unfold mappedPages
    rw [hpending]
    apply List.flatMap_congr
    intro j _
    unfold pagesOf
    rw [(hsame j).1, hreq]
  have hcredit := h.credit
  constructor
  · constructor
    · obtain ⟨k, m, hind, hle⟩ := h.indices
      refine ⟨k, m, ?_, ?_⟩
      · rw [hring]
        exact hind.congr rfl
      · rw [howners, List.length_nil]
        omega
    · rw [hpending]
      exact h.nodup
    · intro j hj
      have hmem : j ∈ rest := by
        obtain hlist | hlist := hlist
        · rw [hlist, hwork] at hj
          exact hj
        · rw [hlist] at hj
          exact List.mem_of_mem_tail hj
      rw [hother j (ne_of_mem_of_not_mem hmem hrest)]
      exact hrest_zero j hmem
    · rw [hissued, List.length_append]
      omega
    · rw [howners, h.owners, hissued, List.drop_append_of_le_length hcredit, List.append_nil]
    · rw [hdma]
      exact h.fault
    · rw [hdma, hpages]
      exact h.mapped
    · intro j hj hneeded
      rw [hpending] at hj
      rw [(hsame j).1] at hneeded
      rw [hreq]
      exact h.clean j hj hneeded
    · intro j hj
      rw [hpending] at hj
      rw [(hsame j).2]
      exact h.notDone j hj
  · constructor
    · intro j hj
      rw [hpending, hreq]
      exact Or.inl ⟨hj, (hsame j).1, rfl⟩
    · intro j hj
      rw [hpending, hreq]
      refine ⟨hj, hother j ?_, rfl⟩
      intro heq
      apply hj
      rw [heq, Descq.pending, hwork]
      exact List.mem_append_right _ List.mem_cons_self
    · intro j
      rw [hreq]
    · exact congrArg (fun v : RingView => (v.qState, v.qStopWait)) hring

/-- Making the descriptors of a request is taking them and counting them. -/
theorem issue_eq (pieces : List Piece) :
    issue conf id pieces q =
      qdmaUpdateRequest { q with
        pidx := (nextSlot conf.rngsz)^[pieces.length] q.pidx
        avail := q.avail - pieces.length
        owners := q.owners ++ List.replicate pieces.length id
        written := q.written + pieces.length } id pieces.length (dataCnt pieces) := by
  unfold issue qdmaUpdateRequest
  dsimp only [Descq.setCb]
  split
  · rfl
  · rfl

/-! ## Passes -/

/-- The queue after a step, and what the step did to the requests. -/
structure Flown (conf : QueueConf) (q q' : Descq) : Prop where
  flying : Flying conf q'
  attends : Attends q q'

theorem Flown.refl (h : Flying conf q) : Flown conf q q := ⟨h, Attends.refl q⟩

theorem Flown.trans (h : Flown conf q q') (h' : Flown conf q' q'') : Flown conf q q'' :=
  ⟨h'.flying, h.attends.trans h'.attends⟩

/-- Other fields do not matter. -/
theorem Flying.set (h : Flying conf q) (q' : Descq) (hcredit : q'.credit = q.credit)
    (hslots : q'.ring.slots = q.ring.slots) (hpend : q'.pendList = q.pendList)
    (hwork : q'.workList = q.workList) (hcb : q'.cb = q.cb) (hreq : q'.req = q.req)
    (hdma : q'.dma = q.dma) (hstate : (q'.qState, q'.qStopWait) = (q.qState, q.qStopWait)) :
    Flown conf q q' := by
  constructor
  · unfold Flying
    rw [hcredit]
    exact InFlight.congr h hslots hpend hwork hcb hreq hdma
  · apply Attends.of_eq _ hcb hreq hstate
    unfold Descq.pending
    rw [hpend, hwork]

theorem credit_qdmaUpdateRequest (n c : ℕ) :
    (qdmaUpdateRequest q id n c).credit = q.credit := by
  unfold qdmaUpdateRequest
  dsimp only
  split
  · rfl
  · rfl

theorem Flying.update {n : ℕ} {rest : List ReqId}
    (h : InFlight conf q.credit (List.replicate n id) q) (hwork : q.workList = id :: rest) (c : ℕ) :
    Flown conf q (qdmaUpdateRequest q id n c) := by
  obtain ⟨hfly, hattends⟩ := h.qdmaUpdateRequest hwork c
  refine ⟨?_, hattends⟩
  unfold Flying
  rw [credit_qdmaUpdateRequest]
  exact hfly

/-- The descriptors of the pieces, whatever is stored. -/
theorem Flying.issue (h : Flying conf q) {rest : List ReqId} (hwork : q.workList = id :: rest)
    {pieces : List Piece} (hlen : pieces.length ≤ q.avail) (mm : ℕ → MmDesc) (st : ℕ → H2cDesc) :
    Flown conf q (issue conf id pieces { q with mmDesc := mm, h2cDesc := st }) := by
  rw [issue_eq]
  obtain ⟨k, m, hind, -⟩ := h.indices
  set q₁ : Descq := { q with
    mmDesc := mm, h2cDesc := st, pidx := (nextSlot conf.rngsz)^[pieces.length] q.pidx
    avail := q.avail - pieces.length, owners := q.owners ++ List.replicate pieces.length id
    written := q.written + pieces.length } with hq₁
  have hpidx : q₁.pidx = (q.pidx + pieces.length) % conf.rngsz := iterate_nextSlot hind.pidx_lt _
  have htake : InFlight conf q.credit ([] ++ List.replicate pieces.length id) q₁ :=
    InFlight.take h hlen q₁ hpidx rfl rfl rfl rfl rfl rfl rfl rfl rfl rfl
  rw [List.nil_append] at htake
  have hwork₁ : q₁.workList = id :: rest := hwork
  have hupdate := Flying.update htake hwork₁ (dataCnt pieces)
  have hattends : Attends q q₁ := Attends.of_eq rfl rfl rfl rfl
  exact ⟨hupdate.flying, hattends.trans hupdate.attends⟩

theorem Looked.flown (h : Looked conf [] q q') : Flown conf q q' := ⟨h.inFlight, h.attends⟩

theorem Flying.status (h : Flying conf q) : Looked conf [] q (descqMmNH2cCmplStatus conf q) :=
  InFlight.status h

theorem Flying.poll (h : Flying conf q) : Looked conf [] q (descqPollMmNH2cCmplStatus conf q) := by
  unfold descqPollMmNH2cCmplStatus
  split
  · have hflag := h.set { q with procReqRunning := true } rfl rfl rfl rfl rfl rfl rfl rfl
    obtain ⟨hfly, hattends, hwork⟩ := hflag.flying.status
    exact ⟨hfly, hflag.attends.trans hattends, hwork⟩
  · exact ⟨h, Attends.refl q, rfl⟩

theorem Flying.pollIfFull (h : Flying conf q) :
    Looked conf [] q (if q.avail = 0 then descqPollMmNH2cCmplStatus conf q else q) := by
  split
  · exact h.poll
  · exact ⟨h, Attends.refl q, rfl⟩

/-- The callback reports the descriptors that it takes, and no requests are queued meanwhile. -/
structure Reports (fill : Descq → ReqId → Fill) : Prop where
  dataCnt : ∀ q id, (fill q id).dataCnt ≠ none
  queued : ∀ q id, (fill q id).queued = []

theorem Flying.fpBypassDescFill {fill : Descq → ReqId → Fill} (hfill : Reports fill)
    (h : Flying conf q) {rest : List ReqId} (hwork : q.workList = id :: rest) :
    Flown conf q (fpBypassDescFill conf fill id q).2 := by
  obtain ⟨hgets, hattends, hsame⟩ := @InFlight.getDescs _ _ id _ h (fill q id).gets
  rw [List.nil_append] at hgets
  unfold H2c.fpBypassDescFill
  dsimp only
  rw [hfill.queued, List.foldl_nil]
  split
  · rename_i hnone
    exact absurd hnone (hfill.dataCnt q id)
  · rename_i c hcnt
    have hupdate := Flying.update hgets (hsame.trans hwork) c
    exact ⟨hupdate.flying, hattends.trans hupdate.attends⟩

/-- The callback of a queue reports. -/
def CallbackReports (conf : QueueConf) : Prop := ∀ fill, conf.ulExt = some fill → Reports fill

theorem CallbackReports.of_none (h : conf.ulExt = none) : CallbackReports conf := by
  intro fill hfill
  rw [h] at hfill
  cases hfill

/-- A pass keeps the requests in flight. -/
def Flies (conf : QueueConf) (pass : ReqId → Descq → Option ℕ × Descq) : Prop :=
  ∀ q id rest, Flying conf q → q.workList = id :: rest → Flown conf q (pass id q).2

theorem mmPass_flies (hfill : CallbackReports conf) : Flies conf (mmPass conf) := by
  intro q id rest h hwork
  have hpoll := h.pollIfFull
  unfold mmPass
  dsimp only
  set q₁ := if q.avail = 0 then descqPollMmNH2cCmplStatus conf q else q with hq₁
  have hwork₁ : q₁.workList = id :: rest := hpoll.workList.trans hwork
  split
  · exact hpoll.flown
  · split
    · rename_i fill hext
      exact hpoll.flown.trans (Flying.fpBypassDescFill (hfill fill hext) hpoll.inFlight hwork₁)
    · split
      · exact hpoll.flown.trans (Flying.update (n := 0) hpoll.inFlight hwork₁ 0)
      · split
        · exact hpoll.flown
        · exact hpoll.flown.trans (Flying.issue hpoll.inFlight hwork₁
            (length_cutList_le _ _ _ _ _ _ _) _ q₁.h2cDesc)

theorem stPass_flies (hfill : CallbackReports conf) : Flies conf (stPass conf) := by
  intro q id rest h hwork
  have hpoll := h.pollIfFull
  unfold stPass
  dsimp only
  set q₁ := if q.avail = 0 then descqPollMmNH2cCmplStatus conf q else q with hq₁
  have hwork₁ : q₁.workList = id :: rest := hpoll.workList.trans hwork
  split
  · exact hpoll.flown
  · split
    · rename_i fill hext
      exact hpoll.flown.trans (Flying.fpBypassDescFill (hfill fill hext) hpoll.inFlight hwork₁)
    · split
      · exact hpoll.flown.trans (Flying.update (n := 0) hpoll.inFlight hwork₁ 0)
      · exact hpoll.flown.trans (Flying.issue hpoll.inFlight hwork₁
          (length_cutList_le _ _ _ _ _ _ _) q₁.mmDesc _)

/-! ## Calls -/

theorem Flying.passes {pass : ReqId → Descq → Option ℕ × Descq} (hpass : Flies conf pass)
    (h : Flying conf q) {fuel n : ℕ} {r : ℕ × Descq} (hr : passes pass fuel n q = some r) :
    Flown conf q r.2 := by
  induction fuel generalizing q n with
  | zero =>
    unfold H2c.passes at hr
    split at hr
    · cases hr
      exact Flown.refl h
    · cases hr
  | succ fuel ih =>
    unfold H2c.passes at hr
    split at hr
    · cases hr
      exact Flown.refl h
    · rename_i id rest hwork
      have hstep := hpass q id rest h hwork
      dsimp only at hr
      split at hr
      · rename_i q₁ hres
        rw [hres] at hstep
        cases hr
        exact hstep
      · rename_i a q₁ hres
        rw [hres] at hstep
        exact hstep.trans (ih hstep.flying hr)

/-- The PIDX value that is set aside covers all descriptors. -/
theorem Flying.setAside (h : Flying conf q) :
    Flying conf { q with pidxInfoPidx := q.pidx } ∧
      Flying conf { q with pidxInfoPidx := q.pidx, posted := q.pidx } := by
  obtain ⟨k, m, hind, -⟩ := h.indices
  have hle := hind.posted_le.trans hind.info_le
  have hfull : Indices conf k q.owners.length { q.ring with pidxInfoPidx := q.pidx } :=
    ⟨hind.cidx, hind.avail, hind.pidx, hind.posted, fun _ => hind.pidx, hle, le_rfl⟩
  constructor
  · exact ⟨⟨k, q.owners.length, hfull, le_rfl⟩, h.nodup, h.head, h.credit, h.owners, h.fault,
      h.mapped, h.clean, h.notDone⟩
  · exact ⟨⟨q.owners.length, q.owners.length, hfull.post hind.pidx rfl, le_rfl⟩, h.nodup, h.head,
      h.credit, h.owners, h.fault, h.mapped, h.clean, h.notDone⟩

theorem Flying.finishRequests (h : Flying conf q) (doorbell : Bool) (n : ℕ) :
    Flown conf q (finishRequests conf doorbell n q).2 := by
  unfold H2c.finishRequests
  split
  · exact h.set _ rfl rfl rfl rfl rfl rfl rfl rfl
  · obtain ⟨haside, hposted⟩ := h.setAside
    split
    · have hpost := hposted.set { q with
        pendListEmpty := false, pidxInfoPidx := q.pidx, posted := q.pidx }
        rfl rfl rfl rfl rfl rfl rfl rfl
      have hstart : Attends q { q with
          pendListEmpty := false, pidxInfoPidx := q.pidx, posted := q.pidx } :=
        Attends.of_eq rfl rfl rfl rfl
      obtain ⟨hfly, hattends, -⟩ := hpost.flying.poll
      have hclear := Flying.set hfly { descqPollMmNH2cCmplStatus conf { q with
        pendListEmpty := false, pidxInfoPidx := q.pidx, posted := q.pidx } with
        procReqRunning := false } rfl rfl rfl rfl rfl rfl rfl rfl
      exact ⟨hclear.flying, (hstart.trans hattends).trans hclear.attends⟩
    · have hend := haside.set { q with pendListEmpty := false, pidxInfoPidx := q.pidx }
        rfl rfl rfl rfl rfl rfl rfl rfl
      exact ⟨hend.flying, Attends.of_eq rfl rfl rfl rfl⟩

theorem Flying.procRequest {pass : ReqId → Descq → Option ℕ × Descq} (hpass : Flies conf pass)
    (h : Flying conf q) {fuel : ℕ} {doorbell : Bool} {r : ℤ × Descq}
    (hr : procRequest conf pass fuel doorbell q = some r) : Flown conf q r.2 := by
  unfold H2c.procRequest at hr
  split at hr
  · cases hr
    exact h.status.flown
  · split at hr
    · cases hr
      exact Flown.refl h
    · split at hr
      · cases hr
        exact Flown.refl h
      · obtain ⟨w, hw, rfl⟩ := Option.map_eq_some_iff.mp hr
        have hloop := Flying.passes hpass h.poll.inFlight hw
        exact (h.poll.flown.trans hloop).trans (hloop.flying.finishRequests doorbell w.1)

/-! ## Calls with accumulation -/

/-- The end of a round. -/
theorem Flying.endRound (h : Flying conf q) (n : ℕ) :
    Flown conf q
      (qdmaPidxUpdate conf { q with descPend := n, pidxInfoPidx := q.pidx } false).2 := by
  obtain ⟨haside, hposted⟩ := h.setAside
  have hkept : ∀ ds, Flown conf q { q with
      descPend := n, pidxInfoPidx := q.pidx, doorbells := ds } := by
    intro ds
    have hset := haside.set { q with descPend := n, pidxInfoPidx := q.pidx, doorbells := ds }
      rfl rfl rfl rfl rfl rfl rfl rfl
    exact ⟨hset.flying, Attends.of_eq rfl rfl rfl rfl⟩
  have hpost : ∀ ds, Flown conf q { q with
      descPend := 0, pidxInfoPidx := q.pidx, posted := q.pidx, doorbells := ds } := by
    intro ds
    have hset := hposted.set { q with
      descPend := 0, pidxInfoPidx := q.pidx, posted := q.pidx, doorbells := ds }
      rfl rfl rfl rfl rfl rfl rfl rfl
    exact ⟨hset.flying, Attends.of_eq rfl rfl rfl rfl⟩
  unfold qdmaPidxUpdate queuePidxUpdate
  split
  · dsimp only
    cases q.doorbells with
    | nil => exact hpost []
    | cons b rest =>
      cases b with
      | false => exact hkept rest
      | true => exact hpost rest
  · exact hkept q.doorbells

theorem Flying.qepFill {fill : Descq → ReqId → Fill} (hfill : Reports fill) (h : Flying conf q)
    {fuel n : ℕ} {r : ℕ × Descq} (hr : qepFill conf fill fuel n q = some r) :
    Flown conf q r.2 := by
  induction fuel generalizing q n with
  | zero =>
    unfold H2c.qepFill at hr
    split at hr
    · cases hr
      exact Flown.refl h
    · split at hr
      · cases hr
        exact Flown.refl h
      · cases hr
  | succ fuel ih =>
    unfold H2c.qepFill at hr
    split at hr
    · cases hr
      exact Flown.refl h
    · split at hr
      · cases hr
        exact Flown.refl h
      · rename_i id rest hwork
        have hstep := Flying.fpBypassDescFill hfill h hwork
        dsimp only at hr
        split at hr
        · cases hr
          exact hstep
        · split at hr
          · cases hr
            exact hstep
          · exact hstep.trans (ih hstep.flying hr)

theorem Flying.qepRounds {fill : Descq → ReqId → Fill} (hfill : Reports fill) (h : Flying conf q)
    {fuel : ℕ} {r : Option ℤ × Descq} (hr : qepRounds conf fill fuel q = some r) :
    Flown conf q r.2 := by
  induction fuel generalizing q with
  | zero => cases hr
  | succ fuel ih =>
    unfold H2c.qepRounds at hr
    cases hround : H2c.qepFill conf fill fuel 0 q with
    | none =>
      rw [hround] at hr
      cases hr
    | some w =>
      obtain ⟨written, q₁⟩ := w
      have hfilled : Flown conf q q₁ := h.qepFill hfill hround
      rw [hround] at hr
      dsimp only at hr
      split at hr
      · cases hr
        exact hfilled
      · have hend := hfilled.trans (hfilled.flying.endRound ((q₁.descPend + written) % 2 ^ 8))
        split at hr
        · cases hr
          exact hend
        · split at hr
          · exact hend.trans (ih hend.flying hr)
          · cases hr
            exact hend

theorem Flying.descqProcStH2cRequestQep {fill : Descq → ReqId → Fill} (hfill : Reports fill)
    (h : Flying conf q) {fuel : ℕ} {r : ℤ × Descq}
    (hr : descqProcStH2cRequestQep conf fill fuel q = some r) : Flown conf q r.2 := by
  induction fuel generalizing q r with
  | zero => cases hr
  | succ fuel ih =>
    unfold H2c.descqProcStH2cRequestQep at hr
    split at hr
    · cases hr
      exact h.status.flown
    · split at hr
      · cases hr
        exact Flown.refl h
      · cases hrounds : H2c.qepRounds conf fill fuel q with
        | none =>
          rw [hrounds] at hr
          cases hr
        | some w =>
          obtain ⟨ret, q₁⟩ := w
          have hround : Flown conf q q₁ := h.qepRounds hfill hrounds
          rw [hrounds] at hr
          cases ret with
          | some ret =>
            cases hr
            exact hround
          | none =>
            obtain ⟨r', hr', rfl⟩ := Option.map_eq_some_iff.mp hr
            exact hround.trans (ih (r := r') hround.flying hr')

/-- A processing call keeps the requests in flight. -/
theorem Flying.process (hfill : CallbackReports conf) (h : Flying conf q) {fuel : ℕ}
    {doorbell : Bool} {r : ℤ × Descq}
    (hr : qdmaDescqProcSgtRequest conf fuel doorbell q = some r) : Flown conf q r.2 := by
  unfold qdmaDescqProcSgtRequest at hr
  split at hr
  · exact h.procRequest (mmPass_flies hfill) hr
  · split at hr
    · split at hr
      · rename_i fill hext
        split at hr
        · exact h.descqProcStH2cRequestQep (hfill fill hext) hr
        · exact h.procRequest (stPass_flies hfill) hr
      · exact h.procRequest (stPass_flies hfill) hr
    · cases hr
      exact Flown.refl h

theorem Flying.service (hfill : CallbackReports conf) (h : Flying conf q) {fuel : ℕ}
    {doorbell : Bool} {r : ℤ × Descq}
    (hr : qdmaDescqServiceCmplUpdate conf fuel doorbell q = some r) : Flown conf q r.2 := by
  unfold qdmaDescqServiceCmplUpdate at hr
  split at hr
  · split at hr
    · obtain ⟨w, hw, rfl⟩ := Option.map_eq_some_iff.mp hr
      exact h.process hfill (r := w) hw
    · cases hr
      exact Flown.refl h
  · dsimp only at hr
    split at hr
    · exact h.status.flown.trans (Flying.process hfill h.status.inFlight hr)
    · cases hr
      exact h.status.flown

end

end OnicDriver.H2c
