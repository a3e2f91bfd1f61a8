import OnicDriver.C2h.Refill

/-!
# Setting up the free list

With allocations and mappings succeeding, `descq_flq_alloc_resource` puts a
page of its own into every slot and fills the whole ring.
-/

namespace OnicDriver.C2h

open Lib

variable {conf : FlqConf} {env : PageEnv}

/-- The first `n` slots hold pages of their own, mapped and referenced. -/
structure Paged (env : PageEnv) (n : ℕ) (v : BufView) : Prop where
  dma : ∀ slot < n, env.dmaMapPage (v.pgBase slot) = some (v.pgDma slot)
  inj : ∀ slot < n, ∀ slot' < n, v.pgBase slot = v.pgBase slot' → slot = slot'
  refs : ∀ slot < n, 0 < v.refs (v.pgBase slot)

/-- A page without references is in none of the slots. -/
theorem Paged.ne_of_refs {n slot pg : ℕ} {v : BufView} (h : Paged env n v) (hslot : slot < n)
    (hfree : v.refs pg = 0) : v.pgBase slot ≠ pg := by
  rintro rfl
  exact (h.refs slot hslot).ne' hfree

/-- `flq_fill_page_one` on the next slot. -/
theorem Paged.fillPage {n : ℕ} {flq : Flq} {heap : PageHeap} (h : Paged env n (bufView flq heap))
    {pg mapping : ℕ} (hfree : heap.refs pg = 0) (hmap : env.dmaMapPage pg = some mapping)
    (calls : ℕ) :
    Paged env (n + 1)
      (bufView (flq.setPgSdesc n { pgBase := pg, pgDmaBaseAddr := mapping, pgOffset := 0 })
        { refs := Function.update heap.refs pg 1, calls := calls }) := by
  have hbase : ∀ slot < n, Function.update flq.pgSdesc n
      { pgBase := pg, pgDmaBaseAddr := mapping, pgOffset := 0 } slot = flq.pgSdesc slot :=
    fun slot hslot => Function.update_of_ne hslot.ne ..
  have hother : ∀ slot < n, (flq.pgSdesc slot).pgBase ≠ pg :=
    fun slot hslot => h.ne_of_refs hslot hfree
  refine ⟨fun slot hslot => ?_, fun slot hslot slot' hslot' heq => ?_, fun slot hslot => ?_⟩
  · rcases Nat.lt_succ_iff_lt_or_eq.mp hslot with hlt | rfl
    · simpa [bufView, Flq.setPgSdesc, hbase slot hlt] using h.dma slot hlt
    · simpa [bufView, Flq.setPgSdesc] using hmap
  · rcases Nat.lt_succ_iff_lt_or_eq.mp hslot with hlt | rfl <;>
      rcases Nat.lt_succ_iff_lt_or_eq.mp hslot' with hlt' | rfl
    · simp only [bufView, Flq.setPgSdesc, hbase _ hlt, hbase _ hlt'] at heq
      exact h.inj slot hlt slot' hlt' heq
    · simp only [bufView, Flq.setPgSdesc, hbase _ hlt, Function.update_self] at heq
      exact absurd heq (hother slot hlt)
    · simp only [bufView, Flq.setPgSdesc, hbase _ hlt', Function.update_self] at heq
      exact absurd heq.symm (hother slot' hlt')
    · rfl
  · rcases Nat.lt_succ_iff_lt_or_eq.mp hslot with hlt | rfl
    · simpa [bufView, Flq.setPgSdesc, hbase slot hlt, Function.update_of_ne (hother slot hlt)]
        using h.refs slot hlt
    · simp [bufView, Flq.setPgSdesc]

/-- The page loop of `descq_flq_alloc_resource` fills all its slots. -/
theorem fillPages_paged (henv : env.Succeeds) {n slot : ℕ} {flq : Flq} {heap : PageHeap}
    (hfinite : {p | heap.refs p ≠ 0}.Finite) (hv : Paged env slot (bufView flq heap))
    (hpages : ∀ s < slot, (flq.pgSdesc s).pgBase ≠ 0 ∧ (flq.pgSdesc s).pgOffset = 0) :
    ∃ f heap', fillPages env n slot flq heap = (0, { flq with pgSdesc := f }, heap') ∧
      {p | heap'.refs p ≠ 0}.Finite ∧
      Paged env (slot + n) (bufView { flq with pgSdesc := f } heap') ∧
      ∀ s < slot + n, (f s).pgBase ≠ 0 ∧ (f s).pgOffset = 0 := by
  induction n generalizing slot flq heap with
  | zero => exact ⟨flq.pgSdesc, heap, rfl, hfinite, hv, hpages⟩
  | succ n ih =>
    obtain ⟨pg, mapping, hpg, hfree, hmap, hfill⟩ :=
      flqFillPageOne_succeeds henv heap hfinite flq slot (flq.pgSdesc slot)
    have hsame : flq.setPgSdesc slot (flq.pgSdesc slot) = flq := by
      simp [Flq.setPgSdesc]
    rw [hsame] at hfill
    have hpages' : ∀ s < slot + 1,
        ((flq.setPgSdesc slot { pgBase := pg, pgDmaBaseAddr := mapping, pgOffset := 0 }).pgSdesc
          s).pgBase ≠ 0 ∧
        ((flq.setPgSdesc slot { pgBase := pg, pgDmaBaseAddr := mapping, pgOffset := 0 }).pgSdesc
          s).pgOffset = 0 := by
      intro s hs
      rcases Nat.lt_succ_iff_lt_or_eq.mp hs with hlt | rfl
      · simpa [Flq.setPgSdesc, Function.update_of_ne hlt.ne] using hpages s hlt
      · simpa [Flq.setPgSdesc] using hpg
    obtain ⟨f, heap', heq, hfin, hpaged, hf⟩ :=
      ih (finite_update hfinite pg 1) (hv.fillPage hfree hmap (heap.calls + 1)) hpages'
    rw [Nat.add_right_comm slot 1 n, Nat.add_assoc] at hpaged hf
    refine ⟨f, heap', ?_, hfin, hpaged, hf⟩
    unfold fillPages
    rw [hfill]
    dsimp only
    rw [if_neg (by decide), heq]
    rfl

/-- `descq_flq_alloc_resource` succeeds. Its descriptor loop keeps every property that holds
for pages without buffers and that cutting a buffer keeps. -/
theorem descqFlqAllocResource_succeeds (henv : env.Succeeds) {heap : PageHeap}
    (hfinite : {p | heap.refs p ≠ 0}.Finite) {c2hBufsz : ℕ} {I : ℕ → BufView → Prop}
    (hI : FillKeeps conf 0 0 c2hBufsz I) (hstart : ∀ v, Paged env conf.numPages v → I 0 v) :
    ∃ flq' heap', descqFlqAllocResource env c2hBufsz true true conf.flq heap = (0, flq', heap') ∧
      Stable conf 0 flq' heap' ∧ I conf.size (bufView flq' heap') := by
  have hnb : 2 ^ conf.pgBits / 2 ^ conf.shift = conf.bufsPerPg :=
    Nat.pow_div conf.shift_le (by decide)
  have hpos : conf.bufsPerPg ≠ 0 := FlqConf.bufsPerPg_pos.ne'
  have hnone : Paged env 0 (bufView { conf.flq with
      numBufsPerPg := conf.bufsPerPg, numPages := conf.numPages
      numPgsMask := conf.numPages - 1, pgSdesc := fun _ => {} } heap) :=
    ⟨fun _ h => absurd h (Nat.not_lt_zero _), fun _ h => absurd h (Nat.not_lt_zero _),
      fun _ h => absurd h (Nat.not_lt_zero _)⟩
  obtain ⟨f, heap₁, hfill, hfin, hpaged, hpages⟩ := fillPages_paged (n := conf.numPages) henv
    hfinite hnone (fun s h => absurd h (Nat.not_lt_zero s))
  rw [Nat.zero_add] at hpaged hpages
  obtain ⟨flq₁, hflq₁⟩ : ∃ flq₁ : Flq, flq₁ = { conf.flq with
      numBufsPerPg := conf.bufsPerPg, numPages := conf.numPages
      numPgsMask := conf.numPages - 1, pgSdesc := f, sdesc := fun _ => { len := 0 }
      sdescInfo := fun _ => {}, allocIdx := 0 } := ⟨_, rfl⟩
  have hshape : Shape conf 0 0 0 flq₁ heap₁ := by
    subst hflq₁
    refine ⟨⟨rfl, rfl, rfl, rfl, rfl, rfl⟩, ?_, rfl, ?_, ?_, ?_, ?_, ?_, hfin⟩
    · simp
    · simp
    · simp
    · simp
    · intro q _ hq
      have hslot : q % conf.numPages < conf.numPages := Nat.mod_lt _ conf.numPages_pos
      simp [(hpages _ hslot).2, inPage]
    · exact fun slot hslot => (hpages slot hslot).1
  have hv : I 0 (bufView flq₁ heap₁) := by
    subst hflq₁
    exact hstart _ ⟨hpaged.dma, hpaged.inj, hpaged.refs⟩
  obtain ⟨flq', heap', hdescs, hstable, hkept⟩ :=
    hshape.fillDescs hI hv (n := conf.size) (by omega)
  rw [Nat.zero_add] at hstable hkept
  refine ⟨flq', heap', ?_, ?_, hkept⟩
  · unfold descqFlqAllocResource
    have hbufs : conf.flq.maxPgOffset / 2 ^ conf.flq.descPgShift = conf.bufsPerPg := hnb
    simp only [hbufs, if_neg hpos, Bool.true_eq_false, if_false]
    have hnum : flqNumPages conf.flq.size conf.bufsPerPg = conf.numPages := rfl
    simp only [hnum, hfill]
    have hring : fillDescs c2hBufsz conf.flq.size 0 flq₁ heap₁ = (0, flq', heap') := hdescs
    rw [if_neg (by decide), ← hflq₁, hring]
    rfl
  · unfold Stable
    rw [Nat.zero_add, Nat.zero_div]
    exact hstable

end OnicDriver.C2h
