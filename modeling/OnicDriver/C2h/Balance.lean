import OnicDriver.C2h.Carved
import OnicDriver.C2h.Rejected
import Mathlib.Algebra.BigOperators.Intervals
import Mathlib.Algebra.Order.BigOperators.Group.Finset
import Mathlib.Order.Interval.Finset.Nat

/-!
# The balance of page references

Each reference to a page stands for a slot that holds the page, for a buffer of
the page in a descriptor, or for a buffer that the stack holds. Every call keeps
this balance, also where a refill takes back buffers of the page that is being
cut, and giving up the pages of the free list drops the references of the driver
and no others.
-/

namespace OnicDriver.C2h

open Lib

/-- One if the page is the one counted. -/
def here (pg x : ℕ) : ℕ := if x = pg then 1 else 0

@[simp] theorem here_self (pg : ℕ) : here pg pg = 1 := if_pos rfl

theorem here_of_ne {pg x : ℕ} (h : x ≠ pg) : here pg x = 0 := if_neg h

theorem heldOn_append (held held' : List SwSg) (pg : ℕ) :
    heldOn (held ++ held') pg = heldOn held pg + heldOn held' pg := List.countP_append

/-- The stack holds buffers by their pages. -/
theorem heldOn_eq_sum {l : List SwSg} {g : ℕ → SwSg} {n : ℕ}
    (h : l.map place = (List.range n).map fun i => place (g i)) (pg : ℕ) :
    heldOn l pg = ∑ i ∈ Finset.range n, here pg (g i).pg := by
  have hcount : ∀ m : List SwSg, heldOn m pg = (m.map place).countP fun p => p.1 = pg := by
    intro m
    unfold heldOn
    rw [List.countP_map]
    rfl
  rw [hcount, h, List.countP_map]
  clear h
  induction n with
  | zero => rfl
  | succ n ih =>
    rw [List.range_succ, List.countP_append, ih, Finset.sum_range_succ, List.countP_singleton]
    unfold here place
    simp

/-- A full turn of a ring meets each index once. -/
theorem sum_turn (g : ℕ → ℕ) (n c : ℕ) :
    ∑ b ∈ Finset.Ico c (c + n), g (b % n) = ∑ i ∈ Finset.range n, g i := by
  rw [← Nat.image_Ico_mod c n, Finset.sum_image]
  intro b hb b' hb' heq
  rw [Finset.coe_Ico, Set.mem_Ico] at hb hb'
  exact eq_of_mod_eq hb.1 hb.2 hb'.1 hb'.2 heq

/-! ## The references of a free list -/

/-- The references to a page that stand for slots, for the buffers `f, …, a - 1` in their
descriptors, and for buffers held by the stack. Descriptor `(b + d) % size` has buffer `b`. -/
def refsDue (conf : FlqConf) (held : List SwSg) (d f a : ℕ) (v : BufView) (pg : ℕ) : ℕ :=
  ∑ slot ∈ Finset.range conf.numPages, here pg (v.pgBase slot) +
    ∑ b ∈ Finset.Ico f a, here pg (v.sdesc ((b + d) % conf.size)).pg + heldOn held pg

/-- The buffers `f, …, a - 1` are in use, each in its descriptor, and the references to each page
are those of others and those due. -/
structure PageRefs (conf : FlqConf) (others : ℕ → ℕ) (held : List SwSg) (d f a r : ℕ)
    (v : BufView) : Prop where
  used : r * conf.bufsPerPg ≤ f
  window : a ≤ (r + conf.numPages) * conf.bufsPerPg
  owned : ∀ b, f ≤ b → b < a →
    (v.sdesc ((b + d) % conf.size)).pg = v.pgBase (b / conf.bufsPerPg % conf.numPages)
  refs : ∀ pg, v.refs pg = others pg + refsDue conf held d f a v pg

section

variable {conf : FlqConf} {env : PageEnv} {others : ℕ → ℕ} {held : List SwSg} {d f a r : ℕ}
  {v : BufView}

/-- Replacing a page none of whose buffers is in use any more. -/
theorem PageRefs.replace : ReplaceKeeps conf env f (PageRefs conf others held d f a) := by
  intro r v pg mapping h hend hpg hfree hmap
  have hslot : r % conf.numPages ∈ Finset.range conf.numPages :=
    Finset.mem_range.mpr (Nat.mod_lt _ conf.numPages_pos)
  have hmono : (r + conf.numPages) * conf.bufsPerPg ≤ (r + 1 + conf.numPages) * conf.bufsPerPg :=
    Nat.mul_le_mul_right _ (by omega)
  have hwindow := h.window
  refine ⟨hend, h.window.trans hmono, fun b hb hba => ?_, fun pg' => ?_⟩
  · have hpage : r < b / conf.bufsPerPg :=
      (Nat.le_div_iff_mul_le FlqConf.bufsPerPg_pos).mpr (hend.trans hb)
    have hlast : b / conf.bufsPerPg < r + conf.numPages :=
      (Nat.div_lt_iff_lt_mul FlqConf.bufsPerPg_pos).mpr (by omega)
    have hne : b / conf.bufsPerPg % conf.numPages ≠ r % conf.numPages :=
      fun hmod => hpage.ne' (eq_of_mod_eq hpage.le hlast le_rfl (by omega) hmod)
    simpa [BufView.replace, Function.update_of_ne hne] using h.owned b hb hba
  · have hold := h.refs pg'
    have hnew := h.refs pg
    have hslots := sum_update_add (Finset.mem_range.mp hslot)
      (fun slot => here pg' (v.pgBase slot)) (here pg' pg)
    have hone := Finset.single_le_sum (f := fun slot => here (v.pgBase (r % conf.numPages))
      (v.pgBase slot)) (fun _ _ => Nat.zero_le _) hslot
    rw [here_self] at hone
    have hupdate : (fun slot => here pg' ((v.replace (r % conf.numPages) pg mapping).pgBase slot)) =
        Function.update (fun slot => here pg' (v.pgBase slot)) (r % conf.numPages)
          (here pg' pg) := by
      funext slot
      unfold BufView.replace
      by_cases heq : slot = r % conf.numPages
      · simp [heq]
      · simp [Function.update_of_ne heq]
    unfold refsDue at hold hnew ⊢
    rw [hupdate]
    generalize ∑ slot ∈ Finset.range conf.numPages, Function.update
      (fun slot => here pg' (v.pgBase slot)) (r % conf.numPages) (here pg' pg) slot = slots at *
    have hdescs : (v.replace (r % conf.numPages) pg mapping).sdesc = v.sdesc := rfl
    rw [hdescs]
    unfold BufView.replace
    dsimp only
    generalize hbase : v.pgBase (r % conf.numPages) = base at *
    by_cases heq : pg' = pg
    · subst heq
      rw [Function.update_self]
      by_cases hsame : pg' = base
      · subst hsame
        rw [Function.update_self] at hfree
        rw [here_self] at hslots
        omega
      · rw [Function.update_of_ne hsame] at hfree
        rw [here_self, here_of_ne (Ne.symm hsame)] at hslots
        omega
    · rw [Function.update_of_ne heq]
      rw [here_of_ne (Ne.symm heq)] at hslots
      by_cases hsame : pg' = base
      · subst hsame
        rw [Function.update_self]
        rw [here_self] at hslots
        omega
      · rw [Function.update_of_ne hsame]
        rw [here_of_ne (Ne.symm hsame)] at hslots
        omega

/-- Cutting a buffer for a descriptor that holds no buffer in use. -/
theorem PageRefs.fill {c2hBufsz : ℕ} (hr : r = f / conf.bufsPerPg) :
    FillKeeps conf f d c2hBufsz fun a => PageRefs conf others held d f a r := by
  intro a v h hfrontier hroom
  have hfa : f ≤ a := hfrontier.trans (Nat.div_mul_le_self a _)
  have hwindow := conf.room f
  have hother : ∀ b, f ≤ b → b < a → (b + d) % conf.size ≠ (a + d) % conf.size := by
    intro b hb hba heq
    have := eq_of_mod_eq (r := f + d) (n := conf.size) (by omega) (by omega) (by omega) (by omega)
      heq
    omega
  refine ⟨h.used, ?_, fun b hb hba => ?_, fun pg => ?_⟩
  · rw [hr]
    omega
  · by_cases heq : b = a
    · subst heq
      simp [BufView.fill, BufView.buffer]
    · simpa [BufView.fill, Function.update_of_ne (hother b hb (by omega))] using
        h.owned b hb (by omega)
  · have hrefs := h.refs pg
    have hdescs : ∑ b ∈ Finset.Ico f a, here pg (Function.update v.sdesc ((a + d) % conf.size)
          (v.buffer (a / conf.bufsPerPg % conf.numPages) (conf.bufSize * (a % conf.bufsPerPg))
            c2hBufsz) ((b + d) % conf.size)).pg =
        ∑ b ∈ Finset.Ico f a, here pg (v.sdesc ((b + d) % conf.size)).pg := by
      refine Finset.sum_congr rfl fun b hb => ?_
      obtain ⟨hle, hlt⟩ := Finset.mem_Ico.mp hb
      rw [Function.update_of_ne (hother b hle hlt)]
    unfold refsDue at hrefs ⊢
    rw [Finset.sum_Ico_succ_top hfa]
    unfold BufView.fill
    dsimp only
    rw [hdescs, Function.update_self]
    unfold BufView.buffer
    dsimp only
    by_cases heq : pg = v.pgBase (a / conf.bufsPerPg % conf.numPages)
    · subst heq
      rw [Function.update_self, here_self]
      omega
    · rw [Function.update_of_ne heq, here_of_ne (Ne.symm heq)]
      omega

/-- Handing the oldest `t` buffers to the stack. -/
theorem PageRefs.take (h : PageRefs conf others held d f a r v) {t : ℕ} (ht : f + t ≤ a)
    {new : List SwSg}
    (hnew : new.map place =
      (List.range t).map fun i => place (v.sdesc ((f + i + d) % conf.size))) :
    PageRefs conf others (held ++ new) d (f + t) a r v := by
  have hused := h.used
  refine ⟨by omega, h.window, fun b hb => h.owned b (by omega), fun pg => ?_⟩
  have hrefs := h.refs pg
  have hsplit := Finset.sum_Ico_consecutive
    (fun b => here pg (v.sdesc ((b + d) % conf.size)).pg) (Nat.le_add_right f t) ht
  rw [Finset.sum_Ico_eq_sum_range, Nat.add_sub_cancel_left] at hsplit
  unfold refsDue at hrefs ⊢
  rw [heldOn_append, heldOn_eq_sum hnew]
  omega

/-- The stack drops a buffer. -/
theorem PageRefs.drop (h : PageRefs conf others held d f a r v) {s : SwSg} (hs : s ∈ held) :
    PageRefs conf others (held.erase s) d f a r
      { v with refs := Function.update v.refs s.pg (v.refs s.pg - 1) } := by
  refine ⟨h.used, h.window, h.owned, fun pg => ?_⟩
  have hrefs := h.refs pg
  have hcount := heldOn_erase hs pg
  unfold refsDue at hrefs ⊢
  dsimp only
  by_cases heq : pg = s.pg
  · subst heq
    rw [Function.update_self]
    rw [if_pos rfl] at hcount
    omega
  · rw [Function.update_of_ne heq]
    rw [if_neg (Ne.symm heq)] at hcount
    omega

/-- Other descriptors with buffers of the same pages. -/
theorem PageRefs.of_sdesc (h : PageRefs conf others held d f a r v) {g : ℕ → SwSg}
    (hg : ∀ i, (g i).pg = (v.sdesc i).pg) :
    PageRefs conf others held d f a r { v with sdesc := g } := by
  refine ⟨h.used, h.window, fun b hb hba => (hg _).trans (h.owned b hb hba), fun pg => ?_⟩
  rw [h.refs pg]
  unfold refsDue
  simp only [hg]

/-- The buffers that are left when those of earlier pages were given back and `m` of the page at
the frontier: they are numbered anew, from the start of that page on. -/
theorem PageRefs.renumber (h : PageRefs conf others held d f a r v) {m : ℕ}
    (hf : f = a / conf.bufsPerPg * conf.bufsPerPg + m) (hfa : f ≤ a)
    (hr : r * conf.bufsPerPg ≤ a / conf.bufsPerPg * conf.bufsPerPg) :
    PageRefs conf others held (d + m) (a / conf.bufsPerPg * conf.bufsPerPg) (a - m) r v := by
  have hlt : a < a / conf.bufsPerPg * conf.bufsPerPg + conf.bufsPerPg :=
    Nat.lt_div_mul_add FlqConf.bufsPerPg_pos
  have hwindow := h.window
  have hpage : ∀ b, a / conf.bufsPerPg * conf.bufsPerPg ≤ b → b < a →
      b / conf.bufsPerPg = a / conf.bufsPerPg := fun b hb hba =>
    Nat.div_eq_of_lt_le hb (by rw [Nat.add_mul, one_mul]; omega)
  refine ⟨hr, by omega, fun b hb hba => ?_, fun pg => ?_⟩
  · have hold := h.owned (b + m) (by omega) (by omega)
    rw [hpage (b + m) (by omega) (by omega)] at hold
    rw [hpage b hb (by omega), ← hold, Nat.add_right_comm b m d, Nat.add_assoc]
  · have hshift := Finset.sum_Ico_add' (fun b => here pg (v.sdesc ((b + d) % conf.size)).pg)
      (a / conf.bufsPerPg * conf.bufsPerPg) (a - m) m
    rw [← hf, Nat.sub_add_cancel (by omega)] at hshift
    have hsame : ∀ b, b + (d + m) = b + m + d := fun b => by omega
    rw [h.refs pg]
    unfold refsDue
    simp only [hsame]
    rw [hshift]

end

/-! ## The setup -/

section

variable {conf : FlqConf} {env : PageEnv} {others : ℕ → ℕ}

/-- The page loop of the setup takes one reference for each slot. -/
theorem fillPages_refs (henv : env.Succeeds) {n slot : ℕ} {flq : Flq} {heap : PageHeap}
    (hfinite : {p | heap.refs p ≠ 0}.Finite)
    (h : ∀ pg, heap.refs pg =
      others pg + ∑ s ∈ Finset.range slot, here pg (flq.pgSdesc s).pgBase) (pg : ℕ) :
    (fillPages env n slot flq heap).2.2.refs pg = others pg +
      ∑ s ∈ Finset.range (slot + n),
        here pg ((fillPages env n slot flq heap).2.1.pgSdesc s).pgBase := by
  induction n generalizing slot flq heap with
  | zero => exact h pg
  | succ n ih =>
    obtain ⟨new, mapping, -, hfree, -, hfill⟩ :=
      flqFillPageOne_succeeds henv heap hfinite flq slot (flq.pgSdesc slot)
    have hsame : flq.setPgSdesc slot (flq.pgSdesc slot) = flq := by
      simp [Flq.setPgSdesc]
    rw [hsame] at hfill
    unfold fillPages
    rw [hfill]
    dsimp only
    rw [if_neg (lt_irrefl 0)]
    have hnext := @ih (slot + 1)
      (flq.setPgSdesc slot { pgBase := new, pgDmaBaseAddr := mapping, pgOffset := 0 })
      { refs := Function.update heap.refs new 1, calls := heap.calls + 1 }
      (finite_update hfinite new 1) fun pg => ?_
    · rw [hnext, Nat.add_right_comm slot 1 n, Nat.add_assoc]
    · have hother : ∑ s ∈ Finset.range slot, here pg ((flq.setPgSdesc slot
            { pgBase := new, pgDmaBaseAddr := mapping, pgOffset := 0 }).pgSdesc s).pgBase =
          ∑ s ∈ Finset.range slot, here pg (flq.pgSdesc s).pgBase := by
        refine Finset.sum_congr rfl fun s hs => ?_
        unfold Flq.setPgSdesc
        dsimp only
        rw [Function.update_of_ne (Finset.mem_range.mp hs).ne]
      have hbefore := h pg
      rw [Finset.sum_range_succ, hother]
      unfold Flq.setPgSdesc
      dsimp only
      rw [Function.update_self]
      by_cases heq : pg = new
      · subst heq
        rw [Function.update_self, here_self]
        omega
      · rw [Function.update_of_ne heq, here_of_ne (Ne.symm heq)]
        omega

/-- The setup leaves the ring full, and one reference for each slot and each buffer. -/
theorem descqFlqAllocResource_pageRefs (henv : env.Succeeds) {heap : PageHeap}
    (hfinite : {p | heap.refs p ≠ 0}.Finite) (c2hBufsz : ℕ) :
    ∃ flq' heap', descqFlqAllocResource env c2hBufsz true true conf.flq heap = (0, flq', heap') ∧
      Stable conf 0 flq' heap' ∧
      PageRefs conf heap.refs [] 0 0 conf.size 0 (bufView flq' heap') := by
  obtain ⟨flq', heap', hsetup, hstable, -⟩ := @descqFlqAllocResource_succeeds conf _ henv _
    hfinite c2hBufsz (fun _ _ => True) (fun _ _ _ _ _ => trivial) fun _ _ => trivial
  refine ⟨flq', heap', hsetup, hstable, ?_⟩
  have hnb : conf.flq.maxPgOffset / 2 ^ conf.flq.descPgShift = conf.bufsPerPg :=
    Nat.pow_div conf.shift_le Nat.two_pos
  have hnum : (emptyFlq conf.flq).numPages = conf.numPages := by
    unfold emptyFlq
    dsimp only
    rw [hnb]
    rfl
  have hmask : (emptyFlq conf.flq).numPgsMask = conf.numPages - 1 := by
    rw [← hnum]
    rfl
  obtain ⟨rv, rv', flq₁, heap₁, hpages, -, hdescs, -⟩ := descqFlqAllocResource_filled hsetup
  rw [hnum] at hpages
  obtain ⟨g, heap₂, hpaged, hfin, -, hslots⟩ := @fillPages_paged env henv conf.numPages 0
    (emptyFlq conf.flq) heap hfinite
    ⟨fun _ h => absurd h (Nat.not_lt_zero _), fun _ h => absurd h (Nat.not_lt_zero _),
      fun _ h => absurd h (Nat.not_lt_zero _)⟩ fun s h => absurd h (Nat.not_lt_zero s)
  rw [Nat.zero_add] at hslots
  have hrefs := fun pg => @fillPages_refs env heap.refs henv conf.numPages 0 (emptyFlq conf.flq)
    heap hfinite (fun _ => rfl) pg
  rw [hpages] at hpaged hrefs
  obtain ⟨-, hpaged⟩ := Prod.mk.inj hpaged
  obtain ⟨hflq₁, hheap₁⟩ := Prod.mk.inj hpaged
  subst hflq₁ hheap₁
  have hshape : Shape conf 0 0 0 (pagedFlq { emptyFlq conf.flq with pgSdesc := g }) heap₁ := by
    refine ⟨⟨rfl, rfl, rfl, rfl, hnum, hmask⟩, ?_, rfl, ?_, ?_, ?_, ?_, ?_, hfin⟩
    · simp [pagedFlq]
    · simp
    · simp
    · simp
    · intro q _ _
      have hslot : q % conf.numPages < conf.numPages := Nat.mod_lt _ conf.numPages_pos
      simp [pagedFlq, (hslots _ hslot).2, inPage]
    · exact fun slot hslot => (hslots slot hslot).1
  have hstart : PageRefs conf heap.refs [] 0 0 0 0
      (bufView (pagedFlq { emptyFlq conf.flq with pgSdesc := g }) heap₁) := by
    refine ⟨by omega, by omega, by omega, fun pg => ?_⟩
    have hslots := hrefs pg
    rw [Nat.zero_add] at hslots
    unfold refsDue
    rw [Finset.Ico_self, Finset.sum_empty, heldOn_nil]
    exact hslots
  obtain ⟨flq₂, heap₂, hring, -, hkept⟩ := hshape.fillDescs (n := conf.size)
    (@PageRefs.fill conf heap.refs [] 0 0 0 c2hBufsz (Nat.zero_div _).symm)
    hstart (by omega)
  obtain ⟨-, hdescs⟩ := Prod.mk.inj (hring.symm.trans hdescs)
  obtain ⟨rfl, rfl⟩ := Prod.mk.inj hdescs
  rwa [Nat.zero_add] at hkept

end

/-! ## Calls -/

/-- The references to a page that stand for slots, descriptors and buffers of the stack. -/
def CallState.refsTo (s : CallState) (pg : ℕ) : ℕ :=
  let flq := s.q.rx.flq
  ((Finset.range flq.numPages).filter fun slot => (flq.pgSdesc slot).pgBase = pg).card +
    ((Finset.range flq.size).filter fun i => (flq.sdesc i).pg = pg).card + heldOn s.held pg

/-- Between two calls the references to each page are balanced. -/
def InBalance (conf : FlqConf) (others : ℕ → ℕ) (s : CallState) : Prop :=
  ∃ c d, Stable conf c s.q.rx.flq s.q.rx.heap ∧ s.q.pidx = (c + d) % conf.size ∧
    PageRefs conf others s.held d c (c + conf.size) (c / conf.bufsPerPg)
      (bufView s.q.rx.flq s.q.rx.heap)

section

variable {env : C2hEnv} {conf : C2hConf} {flqConf : FlqConf} {others : ℕ → ℕ} {q q' q₁ : C2hQueue}
  {k t : ℕ} {s : CallState}

/-- A call that takes nothing hands nothing to the stack. -/
theorem handedSince_same (h : q'.callbacks = q.callbacks) : handedSince env q q' = [] := by
  unfold handedSince
  rw [h, List.drop_length]
  rfl

theorem InBalance.same (h : InBalance flqConf others s) (hrx : q'.rx = s.q.rx)
    (hpidx : q'.pidx = s.q.pidx) (hcalls : q'.callbacks = s.q.callbacks) :
    InBalance flqConf others { q := q', held := s.held ++ handedSince env s.q q' } := by
  obtain ⟨c, d, hstable, hp, hrefs⟩ := h
  rw [handedSince_same hcalls, List.append_nil]
  refine ⟨c, d, ?_, hpidx.trans hp, ?_⟩ <;> dsimp only <;> rw [hrx]
  · exact hstable
  · exact hrefs

/-- A call that ends without an error hands the buffers of the descriptors it used to the stack and
refills these. -/
theorem InBalance.ended (h : InBalance flqConf others s) (hsucc : env.toPageEnv.Succeeds)
    (hserved : ServedBy conf flqConf) (hstart : BatchStart conf s.q)
    (hbatch : Batch env conf s.q k k t q₁) {rx : FlqState}
    (hrx : (if t = 0 then some q₁.rx else (qdmaFlqRefill env.toPageEnv conf.c2hBufsz true s.q.pidx t
      false q₁.rx).map Prod.snd) = some rx) (hends : Ends conf s.q q₁ k t rx q') :
    InBalance flqConf others { q := q', held := s.held ++ handedSince env s.q q' } := by
  obtain ⟨c, d, hstable, hp, hrefs⟩ := h
  obtain ⟨g, hflq, hg⟩ := hbatch.flq
  obtain ⟨new, hnew, -, -, -, hplaces⟩ := hbatch.calls
  have havail := hbatch.avail
  have hbound := hstart.avail
  have hsize := flqConf.size_lt
  rw [hserved.rngsz] at hbound
  have hhanded : handedSince env s.q q' = buffersOf new := by
    unfold handedSince
    rw [hends.callbacks, hnew, List.drop_left]
  have hsorted : (buffersOf new).map place = (List.range t).map fun i =>
      place (s.q.rx.flq.sdesc ((c + i + d) % flqConf.size)) := by
    rw [hplaces]
    refine List.map_congr_left fun i _ => ?_
    rw [hp, hserved.rngsz, Nat.mod_add_mod, Nat.add_right_comm]
  have htaken : PageRefs flqConf others (s.held ++ buffersOf new) d (c + t) (c + flqConf.size)
      (c / flqConf.bufsPerPg) (bufView q₁.rx.flq q₁.rx.heap) := by
    have htake := (hrefs.take (t := t) (by omega) hsorted).of_sdesc (g := g) fun i =>
      congrArg Prod.fst (hg i)
    rw [hflq, hbatch.heap]
    exact htake
  have hstable₁ : Stable flqConf c q₁.rx.flq q₁.rx.heap := by
    rw [hflq, hbatch.heap]
    exact ⟨⟨hstable.fits.1, hstable.fits.2, hstable.fits.3, hstable.fits.4, hstable.fits.5,
      hstable.fits.6⟩, hstable.alloc, hstable.recycle, hstable.used, hstable.frontier,
      hstable.window, hstable.offset, hstable.pages, hstable.finite⟩
  rw [hhanded]
  have hpidx : q'.pidx = (c + d + t) % flqConf.size := by
    rw [hends.pidx, hp, hserved.rngsz, Nat.mod_add_mod]
  by_cases hzero : t = 0
  · subst hzero
    rw [if_pos rfl] at hrx
    obtain rfl := Option.some.inj hrx
    refine ⟨c, d, ?_, hpidx, ?_⟩ <;> dsimp only <;> rw [hends.rx]
    · exact hstable₁
    · exact htaken
  · rw [if_neg hzero] at hrx
    have hfrontier := hstable₁.frontier
    have hused := hstable₁.used
    -- the numbering of the buffers that the refill leaves in use
    obtain ⟨d', hd, hleft⟩ : ∃ d',
        (giveBack flqConf.bufsPerPg c (c + flqConf.size) t).2 + d' = c + flqConf.size + d ∧
        PageRefs flqConf others (s.held ++ buffersOf new) d' (nextFirst flqConf c t)
          (giveBack flqConf.bufsPerPg c (c + flqConf.size) t).2 (c / flqConf.bufsPerPg)
          (bufView q₁.rx.flq q₁.rx.heap) := by
      unfold nextFirst giveBack
      split
      · exact ⟨d, rfl, htaken⟩
      · rename_i hover
        refine ⟨d + (t - ((c + flqConf.size) / flqConf.bufsPerPg * flqConf.bufsPerPg - c)), ?_,
          htaken.renumber ?_ (by omega) (by omega)⟩
        · dsimp only
          omega
        · omega
    have hsum := giveBack_add (k := t) (by omega) hfrontier
    have hidx : s.q.pidx ≤ flqConf.size := by
      rw [hp]
      exact (Nat.mod_lt _ flqConf.size_pos).le
    have hmod : s.q.pidx % flqConf.size =
        ((giveBack flqConf.bufsPerPg c (c + flqConf.size) t).2 + d') % flqConf.size := by
      rw [hd, hp, Nat.mod_mod, Nat.add_right_comm, Nat.add_mod_right]
    obtain ⟨st', hrefill, hstable', hrefs', -⟩ := @Stable.refill _ _ _ hsucc _ hstable₁ t d'
      s.q.pidx conf.c2hBufsz (by omega)
      (PageRefs flqConf others (s.held ++ buffersOf new) d' (nextFirst flqConf c t)
        (giveBack flqConf.bufsPerPg c (c + flqConf.size) t).2)
      (fun a => PageRefs flqConf others (s.held ++ buffersOf new) d' (nextFirst flqConf c t) a
        (nextFirst flqConf c t / flqConf.bufsPerPg))
      PageRefs.replace (fun _ hv => hv) (PageRefs.fill rfl) hleft hidx hmod (by omega)
    rw [hrefill] at hrx
    obtain rfl := Option.some.inj hrx
    refine ⟨nextFirst flqConf c t, d', ?_, ?_, ?_⟩ <;> dsimp only
    · rw [hends.rx]
      exact hstable'
    · rw [hpidx]
      unfold nextFirst
      congr 1
      omega
    · rw [hends.rx]
      exact hrefs'


/-- A step keeps the references balanced. -/
theorem InBalance.step (h : InBalance flqConf others s) (hsucc : env.toPageEnv.Succeeds)
    (hserved : ServedBy conf flqConf) (hinv : CallInv env conf s.q) {e : CallEvent}
    (hfirst : RejectsFirst env conf s e) : InBalance flqConf others (callStep env conf s e) := by
  cases e with
  | drop b =>
    unfold callStep
    dsimp only
    split
    · rename_i hb
      obtain ⟨c, d, hs, hp, hrefs⟩ := h
      exact ⟨c, d, ⟨hs.fits, hs.alloc, hs.recycle, hs.used, hs.frontier, hs.window, hs.offset,
        hs.pages, finite_update hs.finite _ _⟩, hp, hrefs.drop hb⟩
    · exact h
  | process ring csPidx budget updCmpl =>
    unfold callStep
    dsimp only
    cases herr : s.q.err with
    | true =>
      unfold descqProcessCompletionStC2h
      rw [if_pos herr]
      exact h.same rfl rfl rfl
    | false =>
      obtain ⟨hstart, hsize, -⟩ := hinv.live herr
      have hcall := @BatchStart.process env _ _ hstart hsize ring csPidx budget updCmpl herr
      generalize descqProcessCompletionStC2h env conf ring csPidx budget updCmpl s.q = r at hcall
      cases hcall with
      | idle rv q' _ hidle => exact h.same hidle.rx hidle.pidx hidle.callbacks
      | rejected k t rv s' q' hk hafter hbatch hround =>
        obtain rfl := hfirst herr k ⟨hk, _, _, _, _, hafter, hround⟩
        obtain ⟨hnext, hs⟩ := Prod.mk.inj (Option.some.inj hafter)
        rw [← hnext, ← hs] at hround
        rcases entryRound_rejected hround with ⟨-, rfl⟩ | ⟨cmpl, -, -, rfl⟩
        · exact h.same rfl rfl rfl
        · exact h.same rfl rfl rfl
      | ended k t q₁ fin hk hentries hbatch hzero hfin =>
        split
        · exact h
        · rename_i rv q' hsome
          obtain ⟨rx, hrx, heq⟩ := Option.map_eq_some_iff.mp hsome
          obtain rfl := (Prod.mk.inj heq).2
          exact h.ended hsucc hserved hstart hbatch hrx (hfin rx)

/-- The setup leaves the references balanced. -/
theorem inBalance_callStart (hsucc : env.toPageEnv.Succeeds)
    {heap : PageHeap} (hfinite : {p | heap.refs p ≠ 0}.Finite) :
    (descqFlqAllocResource env.toPageEnv conf.c2hBufsz true true flqConf.flq heap).1 = 0 ∧
      InBalance flqConf heap.refs (callStart env conf flqConf heap) := by
  obtain ⟨flq, heap', hsetup, hstable, hrefs⟩ := @descqFlqAllocResource_pageRefs
    flqConf _ hsucc _ hfinite conf.c2hBufsz
  unfold callStart
  rw [hsetup]
  refine ⟨rfl, 0, 0, hstable, (Nat.zero_mod _).symm, ?_⟩
  rw [Nat.zero_add, Nat.zero_div]
  exact hrefs

/-- In balance, the references to a page are those of others and those that slots, descriptors and
the stack stand for. -/
theorem InBalance.refs (h : InBalance flqConf others s) (pg : ℕ) :
    s.q.rx.heap.refs pg = others pg + s.refsTo pg := by
  obtain ⟨c, d, hstable, -, hrefs⟩ := h
  have hpage := hrefs.refs pg
  have hshift := Finset.sum_Ico_add' (fun b => here pg (s.q.rx.flq.sdesc (b % flqConf.size)).pg)
    c (c + flqConf.size) d
  rw [Nat.add_right_comm, sum_turn (fun i => here pg (s.q.rx.flq.sdesc i).pg)] at hshift
  unfold refsDue bufView at hpage
  dsimp only at hpage
  rw [hshift] at hpage
  unfold CallState.refsTo
  dsimp only
  rw [Finset.card_filter, Finset.card_filter, hstable.fits.numPages, hstable.fits.size]
  exact hpage

/-! ## Giving up the pages -/

/-- The references that a slot stands for: its own and those of the buffers carved out of the
page. -/
def slotRefs (flq : Flq) (pg slot : ℕ) : ℕ :=
  here pg (flq.pgSdesc slot).pgBase * ((flq.pgSdesc slot).pgOffset / 2 ^ flq.descPgShift + 1)

/-- The loop of `descq_flq_free_page_resource` drops the references of its slots. -/
theorem freePages_refs {n slot : ℕ} {flq : Flq} {heap : PageHeap}
    (hpages : ∀ i, slot ≤ i → i < slot + n → (flq.pgSdesc i).pgBase ≠ 0)
    (h : ∀ pg, heap.refs pg = others pg + ∑ i ∈ Finset.Ico slot (slot + n), slotRefs flq pg i)
    (pg : ℕ) : (freePages n slot flq heap).2.refs pg = others pg := by
  induction n generalizing slot flq heap with
  | zero =>
    have hnone := h pg
    rwa [Nat.add_zero, Finset.Ico_self, Finset.sum_empty] at hnone
  | succ n ih =>
    have hfirst := hpages slot le_rfl (by omega)
    unfold freePages flqFreePageOne
    dsimp only
    rw [if_neg hfirst]
    dsimp only
    generalize hflq₁ : flq.setPgSdesc slot { flq.pgSdesc slot with
      pgBase := 0, pgDmaBaseAddr := 0 } = flq₁
    have hother : ∀ i, slot + 1 ≤ i → flq₁.pgSdesc i = flq.pgSdesc i := by
      intro i hi
      rw [← hflq₁]
      exact Function.update_of_ne (by omega) ..
    have hshift : flq₁.descPgShift = flq.descPgShift := by
      rw [← hflq₁]
      rfl
    have hsame : ∀ pg, ∑ i ∈ Finset.Ico (slot + 1) (slot + 1 + n), slotRefs flq₁ pg i =
        ∑ i ∈ Finset.Ico (slot + 1) (slot + 1 + n), slotRefs flq pg i := by
      refine fun pg => Finset.sum_congr rfl fun i hi => ?_
      unfold slotRefs
      rw [hother i (Finset.mem_Ico.mp hi).1, hshift]
    refine ih (fun i hi hin => ?_) fun pg => ?_
    · rw [hother i hi]
      exact hpages i (by omega) (by omega)
    · have hold := h pg
      have hlt : slot < slot + (n + 1) := by omega
      have hbound : slot + (n + 1) = slot + 1 + n := by omega
      rw [Finset.sum_eq_sum_Ico_succ_bot hlt, hbound] at hold
      rw [hsame]
      unfold PageHeap.putPage
      dsimp only
      unfold slotRefs at hold ⊢
      by_cases heq : pg = (flq.pgSdesc slot).pgBase
      · subst heq
        rw [Function.update_self]
        rw [here_self, one_mul] at hold
        omega
      · rw [Function.update_of_ne heq]
        rw [here_of_ne (Ne.symm heq), zero_mul] at hold
        omega

/-- The buffers in use of a page. -/
theorem card_inPage {nb c a q : ℕ} (hnb : 0 < nb) :
    ((Finset.Ico c a).filter fun b => b / nb = q).card = inPage nb c a q := by
  have hpage : (Finset.Ico c a).filter (fun b => b / nb = q) =
      Finset.Ico (max c (q * nb)) (min a ((q + 1) * nb)) := by
    ext b
    rw [Finset.mem_filter, Finset.mem_Ico, Finset.mem_Ico, Nat.div_eq_iff hnb, max_le_iff,
      lt_min_iff, Nat.add_mul, one_mul]
    omega
  rw [hpage, Nat.card_Ico]
  rfl

/-- The buffers carved out of the pages are those in the descriptors. -/
theorem PageRefs.sum_slotRefs {flq : Flq} {heap : PageHeap} {held : List SwSg} {c d a r : ℕ}
    (hshape : Shape flqConf c a r flq heap)
    (h : PageRefs flqConf others held d c a r (bufView flq heap)) (pg : ℕ) :
    ∑ i ∈ Finset.range flqConf.numPages, slotRefs flq pg i =
      ∑ i ∈ Finset.range flqConf.numPages, here pg (flq.pgSdesc i).pgBase +
        ∑ b ∈ Finset.Ico c a, here pg (flq.sdesc ((b + d) % flqConf.size)).pg := by
  have hbuf : (2 : ℕ) ^ flq.descPgShift = flqConf.bufSize := by
    rw [hshape.fits.shift]
    rfl
  have hwindow := hshape.window
  have hused := hshape.used
  -- the buffers page by page
  have hpages : ∑ b ∈ Finset.Ico c a, here pg (flq.sdesc ((b + d) % flqConf.size)).pg =
      ∑ q ∈ Finset.Ico r (r + flqConf.numPages),
        here pg (flq.pgSdesc (q % flqConf.numPages)).pgBase * inPage flqConf.bufsPerPg c a q := by
    have hmaps : ∀ b ∈ Finset.Ico c a,
        b / flqConf.bufsPerPg ∈ Finset.Ico r (r + flqConf.numPages) := by
      intro b hb
      obtain ⟨hcb, hba⟩ := Finset.mem_Ico.mp hb
      rw [Finset.mem_Ico, Nat.le_div_iff_mul_le FlqConf.bufsPerPg_pos,
        Nat.div_lt_iff_lt_mul FlqConf.bufsPerPg_pos]
      omega
    rw [← Finset.sum_fiberwise_of_maps_to hmaps]
    refine Finset.sum_congr rfl fun q _ => ?_
    have hpage : ∀ b ∈ (Finset.Ico c a).filter fun b => b / flqConf.bufsPerPg = q,
        here pg (flq.sdesc ((b + d) % flqConf.size)).pg =
          here pg (flq.pgSdesc (q % flqConf.numPages)).pgBase := by
      intro b hb
      obtain ⟨hmem, rfl⟩ := Finset.mem_filter.mp hb
      obtain ⟨hcb, hba⟩ := Finset.mem_Ico.mp hmem
      exact congrArg (here pg) (h.owned b hcb hba)
    rw [Finset.sum_const_nat hpage, card_inPage FlqConf.bufsPerPg_pos, Nat.mul_comm]
  have hslots : ∀ q ∈ Finset.Ico r (r + flqConf.numPages),
      slotRefs flq pg (q % flqConf.numPages) =
        here pg (flq.pgSdesc (q % flqConf.numPages)).pgBase +
          here pg (flq.pgSdesc (q % flqConf.numPages)).pgBase *
            inPage flqConf.bufsPerPg c a q := by
    intro q hq
    obtain ⟨hrq, hqr⟩ := Finset.mem_Ico.mp hq
    unfold slotRefs
    rw [hshape.offset q hrq hqr, hbuf, Nat.mul_div_cancel_left _ FlqConf.bufSize_pos, Nat.mul_add,
      mul_one, Nat.add_comm]
  rw [hpages, ← sum_turn (slotRefs flq pg) flqConf.numPages r, Finset.sum_congr rfl hslots,
    Finset.sum_add_distrib, sum_turn fun i => here pg (flq.pgSdesc i).pgBase]

/-- In balance, `descq_flq_free_page_resource` leaves the references of others and those of the
stack. -/
theorem InBalance.freed (h : InBalance flqConf others s) (pg : ℕ) :
    (descqFlqFreePageResource s.q.rx.flq s.q.rx.heap).2.refs pg =
      others pg + heldOn s.held pg := by
  obtain ⟨c, d, hstable, -, hrefs⟩ := h
  unfold descqFlqFreePageResource
  dsimp only
  rw [hstable.fits.numPages]
  have hpages : ∀ i, 0 ≤ i → i < 0 + flqConf.numPages → (s.q.rx.flq.pgSdesc i).pgBase ≠ 0 :=
    fun i _ hi => hstable.pages i (by omega)
  refine @freePages_refs (fun pg => others pg + heldOn s.held pg) _ _ _ _ hpages (fun pg => ?_) pg
  have hpage := hrefs.refs pg
  have hsum := hrefs.sum_slotRefs hstable pg
  unfold refsDue bufView at hpage
  dsimp only at hpage
  rw [Nat.zero_add, ← Finset.range_eq_Ico, hsum]
  omega

/-- In every run without failing allocations whose calls take no entry before they reject one, the
references to each page are those of others and those that slots, descriptors and the stack stand
for, and giving up the pages leaves those of others and of the stack. -/
theorem calls_balanced (hserved : ServedBy conf flqConf) (hsucc : env.toPageEnv.Succeeds)
    {heap : PageHeap} (hfinite : {p | heap.refs p ≠ 0}.Finite) {es : List CallEvent}
    (hrun : Admitted (callStep env conf) (CallAllowed conf) (callStart env conf flqConf heap) es)
    (hfirst : Admitted (callStep env conf) (RejectsFirst env conf)
      (callStart env conf flqConf heap) es) :
    let s := run (callStep env conf) (callStart env conf flqConf heap) es
    ∀ pg, s.q.rx.heap.refs pg = heap.refs pg + s.refsTo pg ∧
      (descqFlqFreePageResource s.q.rx.flq s.q.rx.heap).2.refs pg =
        heap.refs pg + heldOn s.held pg := by
  intro s pg
  obtain ⟨hsetup, hbalance⟩ := @inBalance_callStart env conf flqConf hsucc _ hfinite
  have hinv : CallInv env conf s.q ∧ InBalance flqConf heap.refs s :=
    (hrun.and hfirst).invariant
      (I := fun s => CallInv env conf s.q ∧ InBalance flqConf heap.refs s)
      (fun s e hs hok => ⟨hs.1.step hok.1 hok.2, hs.2.step hsucc hserved hs.1 hok.2⟩)
      ⟨hserved.callInv hsetup, hbalance⟩
  exact ⟨hinv.2.refs pg, hinv.2.freed pg⟩

end

/-! ## A refill that shares a page -/

/-- Five packets on the ring of 64 descriptors, and then 63, whose refill takes back buffers of the
page that is being cut. -/
def sharingRun : List CallEvent :=
  [.process (fun _ => 10) 5 0 true, .process (fun off => if off < 40 then 8 else 10) 4 0 true]

/-- The references are balanced after this refill too. -/
theorem calls_balanced_sharingRun :
    let s := run (callStep env64 conf64) (callStart env64 conf64 ring64 {}) sharingRun
    ∀ pg, s.q.rx.heap.refs pg = ({} : PageHeap).refs pg + s.refsTo pg ∧
      (descqFlqFreePageResource s.q.rx.flq s.q.rx.heap).2.refs pg =
        ({} : PageHeap).refs pg + heldOn s.held pg := by
  have hserved : ServedBy conf64 ring64 := ⟨rfl, by decide, by decide, by decide⟩
  -- packets without user data pass the checks
  have hfirst : ∀ ring : ℕ → ℕ, (∀ off, ring off = 8 ∨ ring off = 10) → ∀ csPidx s updCmpl,
      RejectsFirst env64 conf64 s (.process ring csPidx 0 updCmpl) := by
    rintro ring hring csPidx s updCmpl - k ⟨-, next, t, rv, q', -, hround⟩
    rcases entryRound_rejected hround with ⟨hparse, -⟩ | ⟨cmpl, hparse, hcheck, -⟩
    · cases hparse
    · obtain rfl := Except.ok.inj hparse
      rcases hring t.descCmptCur with hentry | hentry
      · rw [hentry] at hcheck
        exact absurd hcheck (by decide)
      · rw [hentry] at hcheck
        exact absurd hcheck (by decide)
  refine calls_balanced hserved env64_succeeds (by simp) ⟨by decide, by decide, trivial⟩
    ⟨hfirst _ (fun _ => Or.inr rfl) _ _ _, hfirst _ (fun off => ?_) _ _ _, trivial⟩
  split
  · exact Or.inl rfl
  · exact Or.inr rfl

end OnicDriver.C2h
