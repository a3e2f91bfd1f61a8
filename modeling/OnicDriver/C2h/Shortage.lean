import OnicDriver.C2h.Carved
import OnicDriver.C2h.Rejected

/-!
# Refills when pages run out

The page allocator and the mapping of pages may fail at any time. A queue then
loses free descriptors, but it never asks a refill for more buffers than are
carved out of the pages. The first loop of `flq_refill_pages` skips pages without
limit, and this is what makes it end.
-/

namespace OnicDriver.C2h

open Lib

section

variable {conf : FlqConf} {flq flq' : Flq} {heap : PageHeap} {env : PageEnv} {passedOn : Bool}

/-! ## One refill -/

/-- `qdma_flq_refill` for at most as many descriptors as buffers are carved returns. It gives back
as many buffers as it was asked for and carves at most as many. -/
theorem Whole.refill {st : FlqState} (h : Whole conf st.flq) (env : PageEnv) (c2hBufsz idx : ℕ)
    {n : ℕ} (hn : n ≤ carved st.flq) (havail : st.avail + n < 2 ^ 32) :
    ∃ k ≤ n, ∃ st', qdmaFlqRefill env c2hBufsz passedOn idx n false st = some (k, st') ∧
      Whole conf st'.flq ∧ carved st'.flq + n = carved st.flq + k ∧
      st'.avail = st.avail + k := by
  have hfuel : n * (conf.numPages + 1) ≤ refillFuel st.flq n := by
    unfold refillFuel
    rw [h.fits.numPages]
  obtain ⟨⟨nr, flq₁, heap₁⟩, hreturn⟩ := @Whole.returnBufs_ends _ _ st.heap h passedOn false _ _
    st.flq.recycleIdx hn hfuel
  obtain ⟨hwhole₁, hcarved₁, -, -⟩ := h.of_returnBufs hreturn
  obtain ⟨hwhole₂, hcarved₂, -, -⟩ :=
    hwhole₁.replacePages env (u32 (flq₁.allocIdx - flq₁.recycleIdx)) heap₁
  generalize hpages : C2h.replacePages env (u32 (flq₁.allocIdx - flq₁.recycleIdx)) flq₁ heap₁ = r
    at hwhole₂ hcarved₂
  obtain ⟨flq₂, heap₂⟩ := r
  obtain ⟨k, hk, hwhole, hcarved, hav, hcount⟩ := @Whole.refillEntries _ c2hBufsz n
    { st with flq := flq₂, heap := heap₂ } hwhole₂ havail idx
  have hrefill : flqRefillPages env passedOn false n st.flq st.heap = some (flq₂, heap₂) := by
    unfold flqRefillPages
    rw [hreturn]
    exact congrArg some hpages
  refine ⟨k, hk, _, ?_, hwhole, ?_, hav⟩
  · unfold qdmaFlqRefill
    rw [if_neg Bool.false_ne_true, hrefill, ← hcount]
    rfl
  · dsimp only at hcarved hcarved₂
    omega

/-! ## The setup -/

/-- The page loop of the setup carves nothing, whether it gets its pages or not. -/
theorem Whole.fillPages (env : PageEnv) {n slot : ℕ} (hslots : slot + n ≤ conf.numPages)
    (h : Whole conf flq) (hzero : ∀ s < conf.numPages, (flq.pgSdesc s).pgOffset = 0) :
    Whole conf (fillPages env n slot flq heap).2.1 ∧
      ∀ s < conf.numPages, ((C2h.fillPages env n slot flq heap).2.1.pgSdesc s).pgOffset = 0 := by
  induction n generalizing slot flq heap with
  | zero => exact ⟨h, hzero⟩
  | succ n ih =>
    have hlt : slot < conf.numPages := by omega
    have hwhole := (h.fillPageOne env heap hlt (hzero slot hlt)).1
    have hzero' : ∀ s < conf.numPages,
        ((flqFillPageOne env flq heap slot).2.1.pgSdesc s).pgOffset = 0 := by
      intro s hs
      unfold flqFillPageOne
      cases env.allocPages heap.calls heap.refs with
      | none => exact hzero s hs
      | some pg =>
        dsimp only
        cases env.dmaMapPage pg with
        | none => exact hzero s hs
        | some mapping =>
          by_cases heq : s = slot
          · simp [Flq.setPgSdesc, heq]
          · simpa [Flq.setPgSdesc, Function.update_of_ne heq] using hzero s hs
    unfold C2h.fillPages
    dsimp only
    split
    · exact ⟨hwhole, hzero'⟩
    · exact ih (by omega) hwhole hzero'

/-- The descriptor loop of the setup, if it succeeds, carves a buffer for each descriptor. -/
theorem Whole.fillDescs (c2hBufsz : ℕ) {n idx : ℕ} (h : Whole conf flq)
    (hok : 0 ≤ (fillDescs c2hBufsz n idx flq heap).1) :
    Whole conf (C2h.fillDescs c2hBufsz n idx flq heap).2.1 ∧
      carved (C2h.fillDescs c2hBufsz n idx flq heap).2.1 = carved flq + n := by
  induction n generalizing idx flq heap with
  | zero => exact ⟨h, rfl⟩
  | succ n ih =>
    unfold C2h.fillDescs at hok ⊢
    dsimp only at hok ⊢
    rcases h.fillOne c2hBufsz heap idx with ⟨hneg, -⟩ | ⟨hzero, hwhole, hcarved⟩
    · rw [if_pos hneg] at hok
      omega
    · rw [if_neg hzero.not_lt] at hok ⊢
      obtain ⟨hwhole', hcarved'⟩ := ih hwhole hok
      refine ⟨hwhole', hcarved'.trans ?_⟩
      rw [hcarved, Nat.add_assoc, Nat.add_comm 1 n]

/-- A successful setup carves a buffer for each descriptor. -/
theorem whole_of_setup {c2hBufsz : ℕ} {pgSdescOk sdescOk : Bool} {heap' : PageHeap}
    (h : descqFlqAllocResource env c2hBufsz pgSdescOk sdescOk conf.flq heap = (0, flq', heap')) :
    Whole conf flq' ∧ carved flq' = conf.size := by
  obtain ⟨rv, rv', flq₁, heap₁, hpages, -, hdescs, hok⟩ := descqFlqAllocResource_filled h
  have hbufs : conf.flq.maxPgOffset / 2 ^ conf.flq.descPgShift = conf.bufsPerPg :=
    Nat.pow_div conf.shift_le Nat.two_pos
  have hnum : (emptyFlq conf.flq).numPages = conf.numPages := by
    unfold emptyFlq
    dsimp only
    rw [hbufs]
    rfl
  have hempty : Whole conf (emptyFlq conf.flq) := by
    refine ⟨⟨rfl, rfl, rfl, rfl, hnum, ?_⟩, fun _ _ => dvd_zero _⟩
    rw [← hnum]
    rfl
  obtain ⟨hwhole₁, hzero⟩ := @Whole.fillPages _ _ heap env conf.numPages 0 (by omega) hempty
    fun _ _ => rfl
  rw [hnum] at hpages
  rw [hpages] at hwhole₁ hzero
  dsimp only at hwhole₁ hzero
  have hpaged : Whole conf (pagedFlq flq₁) :=
    ⟨⟨hwhole₁.fits.1, hwhole₁.fits.2, hwhole₁.fits.3, hwhole₁.fits.4, hwhole₁.fits.5,
      hwhole₁.fits.6⟩, hwhole₁.whole⟩
  have hnone : carved (pagedFlq flq₁) = 0 := by
    refine Finset.sum_eq_zero fun slot hslot => ?_
    have hlt : slot < flq₁.numPages := Finset.mem_range.mp hslot
    rw [hwhole₁.fits.numPages] at hlt
    have hoffset : ((pagedFlq flq₁).pgSdesc slot).pgOffset = 0 := hzero slot hlt
    rw [hoffset, Nat.zero_div]
  have hfill := @Whole.fillDescs _ _ heap₁ c2hBufsz flq₁.size 0 hpaged (by rw [hdescs]; exact hok)
  rw [hdescs, hnone, Nat.zero_add, hwhole₁.fits.size] at hfill
  exact hfill

end

/-! ## Runs of calls -/

/-- More buffers are carved out of the pages than descriptors count as free, though no more than the
ring has, and the offsets of the pages are whole numbers of buffers. -/
structure Stocked (flqConf : FlqConf) (q : C2hQueue) : Prop where
  whole : Whole flqConf q.rx.flq
  avail : q.rx.avail < carved q.rx.flq
  carved_le : carved q.rx.flq ≤ flqConf.size

/-- The call returns. -/
def Returns (env : C2hEnv) (conf : C2hConf) (s : CallState) : CallEvent → Prop
  | .process ring csPidx budget updCmpl =>
    ∃ r, descqProcessCompletionStC2h env conf ring csPidx budget updCmpl s.q = some r
  | .drop _ => True

section

variable {env : C2hEnv} {conf : C2hConf} {flqConf : FlqConf} {q q' q₁ : C2hQueue} {k t : ℕ}
  {s : CallState}

theorem Stocked.of_rx (h : Stocked flqConf q) (hrx : q'.rx = q.rx) : Stocked flqConf q' := by
  refine ⟨?_, ?_, ?_⟩ <;> rw [hrx]
  · exact h.whole
  · exact h.avail
  · exact h.carved_le

/-- A call that ends without an error returns: it used at most the descriptors that counted as free,
and buffers are carved for these. -/
theorem Stocked.ended (h : Stocked flqConf q) (hbatch : Batch env conf q k k t q₁) :
    ∃ rx, (if t = 0 then some q₁.rx else
        (qdmaFlqRefill env.toPageEnv conf.c2hBufsz true q.pidx t false q₁.rx).map Prod.snd) =
          some rx ∧
      ∀ q', q'.rx = rx → Stocked flqConf q' := by
  have havail := hbatch.avail
  have hshort := h.avail
  have hfull := h.carved_le
  have hsize := flqConf.size_lt
  obtain ⟨f, hflq, -⟩ := hbatch.flq
  have hwhole : Whole flqConf q₁.rx.flq := by
    rw [hflq]
    exact ⟨⟨h.whole.fits.1, h.whole.fits.2, h.whole.fits.3, h.whole.fits.4, h.whole.fits.5,
      h.whole.fits.6⟩, h.whole.whole⟩
  have hcarved : carved q₁.rx.flq = carved q.rx.flq := by
    rw [hflq]
    rfl
  by_cases hzero : t = 0
  · rw [if_pos hzero]
    refine ⟨q₁.rx, rfl, fun q' hrx => ⟨?_, ?_, ?_⟩⟩ <;> rw [hrx]
    · exact hwhole
    · omega
    · omega
  · rw [if_neg hzero]
    obtain ⟨k', hk, st', hrefill, hwhole', hcarved', hav⟩ :=
      @Whole.refill _ true _ hwhole env.toPageEnv conf.c2hBufsz q.pidx t (by omega) (by omega)
    rw [hrefill]
    refine ⟨st', rfl, fun q' hrx => ⟨?_, ?_, ?_⟩⟩ <;> rw [hrx]
    · exact hwhole'
    · omega
    · omega

/-- A step returns and leaves the queue stocked. -/
theorem Stocked.step (h : Stocked flqConf s.q) (hinv : CallInv env conf s.q) {e : CallEvent}
    (hfirst : RejectsFirst env conf s e) :
    Returns env conf s e ∧ Stocked flqConf (callStep env conf s e).q := by
  cases e with
  | drop b =>
    refine ⟨trivial, ?_⟩
    unfold callStep
    dsimp only
    split
    · exact ⟨h.whole, h.avail, h.carved_le⟩
    · exact h
  | process ring csPidx budget updCmpl =>
    unfold callStep Returns
    dsimp only
    cases herr : s.q.err with
    | true =>
      unfold descqProcessCompletionStC2h
      rw [if_pos herr]
      exact ⟨⟨_, rfl⟩, h⟩
    | false =>
      obtain ⟨hstart, hsize, -⟩ := hinv.live herr
      have hcall := @BatchStart.process env _ _ hstart hsize ring csPidx budget updCmpl herr
      generalize descqProcessCompletionStC2h env conf ring csPidx budget updCmpl s.q = r at hcall
      cases hcall with
      | idle rv q' _ hidle => exact ⟨⟨_, rfl⟩, h.of_rx hidle.rx⟩
      | rejected k t rv s' q' hk hafter hbatch hround =>
        obtain rfl := hfirst herr k ⟨hk, _, _, _, _, hafter, hround⟩
        obtain ⟨hnext, hs⟩ := Prod.mk.inj (Option.some.inj hafter)
        rw [← hnext, ← hs] at hround
        exact ⟨⟨_, rfl⟩, h.of_rx (sameAccounting_of_rejected hround).rx⟩
      | ended k t q₁ fin hk hentries hbatch hzero hfin =>
        obtain ⟨rx, hrx, hstocked⟩ := h.ended hbatch
        rw [hrx]
        exact ⟨⟨_, rfl⟩, hstocked _ (hfin rx).rx⟩

/-- A queue that was set up is stocked. -/
theorem stocked_callStart {heap : PageHeap}
    (hsetup :
      (descqFlqAllocResource env.toPageEnv conf.c2hBufsz true true flqConf.flq heap).1 = 0) :
    Stocked flqConf (callStart env conf flqConf heap).q := by
  have hpos := flqConf.size_pos
  generalize hr : descqFlqAllocResource env.toPageEnv conf.c2hBufsz true true flqConf.flq heap = r
    at hsetup
  obtain ⟨rv, flq, heap'⟩ := r
  dsimp only at hsetup
  subst hsetup
  obtain ⟨hwhole, hcarved⟩ := whole_of_setup hr
  unfold callStart
  rw [hr]
  refine ⟨hwhole, ?_, hcarved.le⟩
  dsimp only [qdmaDescqConfigComplete]
  omega

/-- Whatever pages the allocator refuses and whatever mappings fail, every call of a run returns,
and the queue stays stocked, as long as no call takes an entry before it rejects one. -/
theorem calls_return (hserved : ServedBy conf flqConf) {heap : PageHeap}
    (hsetup : (descqFlqAllocResource env.toPageEnv conf.c2hBufsz true true flqConf.flq heap).1 = 0)
    {es : List CallEvent}
    (hrun : Admitted (callStep env conf) (CallAllowed conf) (callStart env conf flqConf heap) es)
    (hfirst : Admitted (callStep env conf) (RejectsFirst env conf)
      (callStart env conf flqConf heap) es) :
    Admitted (callStep env conf) (Returns env conf) (callStart env conf flqConf heap) es ∧
      Always (callStep env conf) (fun s => Stocked flqConf s.q) (callStart env conf flqConf heap)
        es := by
  have hstart : CallInv env conf (callStart env conf flqConf heap).q ∧
      Stocked flqConf (callStart env conf flqConf heap).q :=
    ⟨hserved.callInv hsetup, stocked_callStart hsetup⟩
  have hboth := hrun.and hfirst
  have hstep : ∀ s e, CallInv env conf s.q ∧ Stocked flqConf s.q →
      CallAllowed conf s e ∧ RejectsFirst env conf s e →
      CallInv env conf (callStep env conf s e).q ∧ Stocked flqConf (callStep env conf s e).q :=
    fun s e hs hok => ⟨hs.1.step hok.1 hok.2, (hs.2.step hs.1 hok.2).2⟩
  constructor
  · exact hboth.steps hstep (fun s e hs hok => (hs.2.step hs.1 hok.2).1) hstart
  · exact hboth.always (fun s hs => hs.2) (fun s e hs hok _ => hstep s e hs hok) hstart hboth

end

/-! ## An allocator that runs out of pages -/

/-- The allocator has four pages, which the setup takes. -/
def fourPages : C2hEnv :=
  { inTurn with allocPages := fun n refs => if n < 4 then inTurn.allocPages n refs else none }

/-- Both calls refill a descriptor without a new page for it. -/
theorem calls_return_fourPages :
    Admitted (callStep fourPages refusing) (Returns fourPages refusing)
        (callStart fourPages refusing refusingFlq {}) takingRun ∧
      Always (callStep fourPages refusing) (fun s => Stocked refusingFlq s.q)
        (callStart fourPages refusing refusingFlq {}) takingRun := by
  have htaken : ∀ csPidx budget (q : C2hQueue) k,
      ¬ Rejects fourPages refusing (fun _ => 1) csPidx budget q k := by
    rintro csPidx budget q k ⟨-, next, s, rv, q', -, hround⟩
    rcases entryRound_rejected hround with ⟨hparse, -⟩ | ⟨cmpl, hparse, hcheck, -⟩
    · cases hparse
    · obtain rfl := Except.ok.inj hparse
      revert hcheck
      decide
  exact calls_return refusing_servedBy (by decide) (by decide)
    ⟨fun _ k h => absurd h (htaken _ _ _ k), fun _ k h => absurd h (htaken _ _ _ k), trivial⟩

end OnicDriver.C2h
