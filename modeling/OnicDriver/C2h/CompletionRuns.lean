import OnicDriver.C2h.Delivery

/-!
# Runs of completion processing

The hardware writes entries into the completion ring while calls process them
with any budgets. The queue simulates the reader of the ring, and splitting
the work differently leads to the same state, the interrupt moderation and the
pages of the free list aside.
-/

namespace OnicDriver.C2h

open Lib

/-- The queue, its completion ring, and where and in which color the hardware writes next. -/
structure CmptRun where
  q : C2hQueue
  ring : ℕ → ℕ := fun _ => 0
  csPidx : ℕ := 0
  hwColor : Bool := true

/-- A queue after its configuration and setup. -/
def cmptStart (env : C2hEnv) (conf : C2hConf) (flqConf : FlqConf) (heap : PageHeap) : CmptRun :=
  { q := qdmaDescqConfigComplete conf (rxStart env flqConf heap).q }

/-- The hardware writes an entry and moves the status on, flipping the color after a lap; or
a call processes entries. -/
def cmptStep (env : C2hEnv) (conf : C2hConf) (s : CmptRun) : CmptEvent → CmptRun
  | .write entry =>
    { s with
      ring := Function.update s.ring (s.csPidx * conf.cmptEntryLen) entry
      csPidx := ringIdxIncr s.csPidx 1 conf.rngszCmpt
      hwColor := if s.csPidx + 1 = conf.rngszCmpt then !s.hwColor else s.hwColor }
  | .process budget updCmpl =>
    match descqProcessCompletionStC2h env conf s.ring s.csPidx budget updCmpl s.q with
    | none => s
    | some (_, q) => { s with q := q }

/-- The entries between the consumer index of the queue and the status. -/
def CmptRun.outstanding (conf : C2hConf) (s : CmptRun) : List ℕ :=
  (List.range (ringIdxDelta s.csPidx s.q.cidxCmpt conf.rngszCmpt)).map fun i =>
    s.ring (ringIdxIncr s.q.cidxCmpt i conf.rngszCmpt * conf.cmptEntryLen)

/-- What the hardware writes: an entry for which there is room in the ring, with the color of
the lap and with no more descriptors than the hardware has left. -/
def HwWrites (conf : C2hConf) (pgShift : ℕ) (s : CmptRun) : CmptEvent → Prop
  | .write entry =>
    (s.outstanding conf).length + 1 < conf.rngszCmpt ∧
    (∀ cmpl ∈ conf.accepts entry, cmpl.color = s.hwColor) ∧
    conf.used pgShift (s.outstanding conf ++ [entry]) ≤ conf.rngsz - 1
  | .process .. => True

instance (conf : C2hConf) (pgShift : ℕ) (s : CmptRun) (e : CmptEvent) :
    Decidable (HwWrites conf pgShift s e) :=
  match e with
  | .write _ => inferInstanceAs (Decidable (_ ∧ _ ∧ _))
  | .process .. => isTrue trivial

/-- The entries that the reader consumed. -/
def Reader.done (r : Reader) : List ℕ := r.written.take r.consumed

/-- The simulation relation between the queue and the reader of its ring. -/
structure Simulates (flqConf : FlqConf) (conf : C2hConf) (s : CmptRun) (r : Reader) : Prop where
  le : r.consumed ≤ r.written.length
  ring : Pending conf s.ring r.consumed r.outstanding
  csPidx : s.csPidx = r.written.length % conf.rngszCmpt
  hwColor : s.hwColor = lapColor conf.rngszCmpt r.written.length
  room : r.outstanding.length < conf.rngszCmpt
  fits : conf.used flqConf.shift r.outstanding ≤ flqConf.size - 1
  delivered : Delivered flqConf conf r.done s.q
  state : Settled flqConf conf r.done s.q ∨ Stopped conf r.outstanding s.q

section

variable {flqConf : FlqConf} {conf : C2hConf} {env : C2hEnv} {s : CmptRun} {r : Reader}

theorem Reader.length_done (h : r.consumed ≤ r.written.length) : r.done.length = r.consumed := by
  rw [Reader.done, List.length_take, min_eq_left h]

theorem Reader.length_outstanding (h : r.consumed ≤ r.written.length) :
    r.consumed + r.outstanding.length = r.written.length := by
  rw [Reader.outstanding, List.length_drop]
  omega

/-- The entries read out of the ring. -/
theorem Pending.entries {ring : ℕ → ℕ} {n : ℕ} {es : List ℕ} (h : Pending conf ring n es) :
    (List.range es.length).map
      (fun i => ring ((n + i) % conf.rngszCmpt * conf.cmptEntryLen)) = es := by
  induction es generalizing n with
  | nil => rfl
  | cons e es ih =>
    rw [List.length_cons, List.range_succ_eq_map, List.map_cons, List.map_map]
    congr 1
    · exact h.1
    · refine Eq.trans (List.map_congr_left fun i _ => ?_) (ih h.2.2)
      have hindex : n + (i + 1) = n + 1 + i := by omega
      exact congrArg (fun k => ring (k % conf.rngszCmpt * conf.cmptEntryLen)) hindex

/-- The outstanding entries of the queue are those of the reader. -/
theorem Simulates.outstanding (h : Simulates flqConf conf s r) :
    s.outstanding conf = r.outstanding := by
  have hroom := h.room
  have hlen := Reader.length_outstanding h.le
  have hcidx : s.q.cidxCmpt = r.consumed % conf.rngszCmpt := by
    rw [← Reader.length_done h.le]
    exact congrArg C2hQueue.cidxCmpt h.delivered.cursor
  unfold CmptRun.outstanding
  rw [h.csPidx, hcidx, ← hlen, ringIdxDelta_mod _ hroom]
  refine Eq.trans (List.map_congr_left fun i hi => ?_) h.ring.entries
  have hlt := List.mem_range.mp hi
  rw [ringIdxIncr_mod _ (by omega) (by omega)]

/-- The hardware writes an entry. -/
theorem Simulates.write (hconf : flqConf.Runs conf) (h : Simulates flqConf conf s r) {entry : ℕ}
    (hok : HwWrites conf flqConf.shift s (.write entry)) :
    Simulates flqConf conf (cmptStep env conf s (.write entry))
      (readerStep conf r (.write entry)) := by
  obtain ⟨hroom, hcolor, hfits⟩ := hok
  have hlen := Reader.length_outstanding h.le
  have hpos := hconf.rngszCmpt_pos
  rw [h.outstanding] at hroom hfits
  rw [hconf.rngsz] at hfits
  have hout : (readerStep conf r (.write entry)).outstanding = r.outstanding ++ [entry] :=
    List.drop_append_of_le_length h.le
  have hdone : (readerStep conf r (.write entry)).done = r.done :=
    List.take_append_of_le_length h.le
  have hwritten : (readerStep conf r (.write entry)).written.length = r.written.length + 1 := by
    simp [readerStep]
  refine ⟨?_, ?_, ?_, ?_, ?_, ?_, ?_, ?_⟩
  · rw [hwritten]
    exact h.le.trans (Nat.le_succ _)
  · rw [hout]
    have hnew := h.ring.write hconf.cmptEntryLen_pos h.room (e := entry) (fun cmpl hcmpl => by
      rw [hcolor cmpl hcmpl, h.hwColor, hlen])
    rw [hlen, ← h.csPidx] at hnew
    exact hnew
  · rw [hwritten, ← ringIdxIncr_mod _ hpos (by omega), ← h.csPidx]
    rfl
  · rw [hwritten, lapColor_succ hpos, ← h.csPidx, ← h.hwColor]
    rfl
  · rw [hout, List.length_append]
    exact hroom
  · rw [hout]
    exact hfits
  · rw [hdone]
    exact h.delivered
  · rw [hdone, hout]
    rcases h.state with hsettled | ⟨bad, rest, heq, hbad⟩
    · exact Or.inl hsettled
    · exact Or.inr ⟨bad, rest ++ [entry], by rw [heq, List.cons_append], hbad⟩

/-- The consumed entries after a call, given how many of its batch are accepted. -/
theorem Reader.done_process {good rest : List ℕ} {budget : ℕ} (updCmpl : Bool)
    (hsplit : batch budget r.outstanding = good ++ rest)
    (haccepted : conf.acceptedPrefix (batch budget r.outstanding) = good.length) :
    (readerStep conf r (.process budget updCmpl)).done = r.done ++ good ∧
      (readerStep conf r (.process budget updCmpl)).outstanding =
        r.outstanding.drop good.length := by
  have hgood : good = r.outstanding.take good.length := by
    have hprefix := batch_eq_take budget r.outstanding
    rw [hsplit] at hprefix
    have htake := congrArg (List.take good.length) hprefix
    rw [List.take_left' rfl, List.take_take, List.length_append, min_eq_left (by omega)] at htake
    exact htake
  have hstep : readerStep conf r (.process budget updCmpl) =
      { r with consumed := r.consumed + good.length } := by
    rw [← haccepted]
    rfl
  rw [hstep]
  constructor
  · conv_rhs => rw [hgood]
    exact List.take_add
  · exact (List.drop_drop ..).symm

/-- A queue that is stopped at a rejected entry stays there. -/
theorem Stopped.process (hconf : flqConf.Runs conf) {ring : ℕ → ℕ} {done es : List ℕ}
    {q : C2hQueue} (h : Stopped conf es q) (hd : Delivered flqConf conf done q)
    (hring : Pending conf ring done.length es) (hroom : es.length < conf.rngszCmpt) (budget : ℕ)
    (updCmpl : Bool) :
    ∃ rv q', descqProcessCompletionStC2h env conf ring
        ((done.length + es.length) % conf.rngszCmpt) budget updCmpl q = some (rv, q') ∧
      Delivered flqConf conf done q' ∧ Stopped conf es q' ∧
      conf.acceptedPrefix (batch budget es) = 0 := by
  obtain ⟨bad, rest, rfl, hreject, hwhy⟩ := h
  obtain ⟨k, hk⟩ : ∃ k, (batch budget (bad :: rest)).length = k + 1 := by
    refine Nat.exists_eq_succ_of_ne_zero fun hzero => ?_
    rw [length_batch] at hzero
    split at hzero <;> simp_all
  have hnone : conf.acceptedPrefix (batch budget (bad :: rest)) = 0 := by
    have hhead := batch_eq_take budget (bad :: rest)
    rw [hk, List.take_succ_cons] at hhead
    rw [hhead]
    simp [C2hConf.acceptedPrefix, hreject]
  by_cases herr : q.err = true
  · refine ⟨-EINVAL, q, ?_, hd, ⟨bad, rest, rfl, hreject, Or.inl herr⟩, hnone⟩
    unfold descqProcessCompletionStC2h
    rw [if_pos herr]
  · obtain ⟨rv, err, hstop, hwhy'⟩ := processEntries_reject env k q.pidx
      (q := { q with pktCnt := (bad :: rest).length }) hreject hring.1
    rw [process_outstanding hd (by simpa using herr) hroom (List.cons_ne_nil _ _), hk, hstop]
    refine ⟨rv, _, rfl, ⟨rfl, hd.callbacks⟩, ⟨bad, rest, rfl, hreject, ?_⟩, hnone⟩
    rcases hwhy' with herr' | ⟨-, hparse⟩
    · exact Or.inl herr'
    · exact Or.inr ⟨rv, hparse⟩

/-- The simulation after a call that consumed `good`. -/
theorem Simulates.consume (h : Simulates flqConf conf s r) {good rest : List ℕ} {budget : ℕ}
    {updCmpl : Bool} (hsplit : batch budget r.outstanding = good ++ rest)
    (haccepted : conf.acceptedPrefix (batch budget r.outstanding) = good.length) {rv : ℤ}
    {q : C2hQueue}
    (hcall : descqProcessCompletionStC2h env conf s.ring s.csPidx budget updCmpl s.q =
      some (rv, q)) (hd : Delivered flqConf conf (r.done ++ good) q)
    (hstate : Settled flqConf conf (r.done ++ good) q ∨
      Stopped conf (r.outstanding.drop good.length) q) :
    Simulates flqConf conf (cmptStep env conf s (.process budget updCmpl))
      (readerStep conf r (.process budget updCmpl)) := by
  obtain ⟨hdone, hout⟩ := Reader.done_process updCmpl hsplit haccepted
  have hlen := Reader.length_outstanding h.le
  have hroom := h.room
  have hle : good.length ≤ r.outstanding.length := by
    have hprefix := congrArg List.length (batch_eq_take budget r.outstanding)
    rw [hsplit, List.length_append, List.length_take] at hprefix
    omega
  have hconsumed : (readerStep conf r (.process budget updCmpl)).consumed =
      r.consumed + good.length := congrArg (r.consumed + ·) haccepted
  have hq : cmptStep env conf s (.process budget updCmpl) = { s with q := q } := by
    unfold cmptStep
    simp only [hcall]
  have hused := used_append conf flqConf.shift (r.outstanding.take good.length)
    (r.outstanding.drop good.length)
  rw [List.take_append_drop] at hused
  rw [hq]
  refine ⟨?_, ?_, h.csPidx, h.hwColor, ?_, ?_, ?_, ?_⟩
  · rw [hconsumed]
    show r.consumed + good.length ≤ r.written.length
    omega
  · rw [hout, hconsumed]
    exact h.ring.drop good.length
  · rw [hout, List.length_drop]
    omega
  · rw [hout]
    have := h.fits
    omega
  · rw [hdone]
    exact hd
  · rw [hdone, hout]
    exact hstate

/-- A call. -/
theorem Simulates.process (hconf : flqConf.Runs conf) (henv : env.Accepts) (hsucc : env.Succeeds)
    (h : Simulates flqConf conf s r) (budget : ℕ) (updCmpl : Bool) :
    Simulates flqConf conf (cmptStep env conf s (.process budget updCmpl))
      (readerStep conf r (.process budget updCmpl)) := by
  have hlen := Reader.length_outstanding h.le
  have hring := h.ring
  have hcs := h.csPidx
  rw [← hlen, ← Reader.length_done h.le] at hcs
  rw [← Reader.length_done h.le] at hring
  rcases h.state with hsettled | hstopped
  · by_cases hsome : r.outstanding = []
    · have hdelta : ringIdxDelta s.csPidx s.q.cidxCmpt conf.rngszCmpt = 0 := by
        have hout := congrArg List.length h.outstanding
        rw [hsome] at hout
        simpa [CmptRun.outstanding] using hout
      obtain ⟨rv, updates, hcall⟩ := process_empty env s.ring budget updCmpl hdelta
      have hbatch : batch budget r.outstanding = [] := by simp [hsome, batch]
      have hsplit : batch budget r.outstanding = [] ++ [] := hbatch
      refine h.consume hsplit (by rw [hbatch]; rfl) hcall ?_ (Or.inl ?_)
      · rw [List.append_nil]
        exact ⟨congrArg (fun q : C2hQueue => { q with cidxUpdates := updates })
          h.delivered.cursor, h.delivered.callbacks⟩
      · rw [List.append_nil]
        exact ⟨hsettled.rx, hsettled.pidx, hsettled.err, hsettled.wrbCidx⟩
    · rcases acceptedPrefix_split conf (batch budget r.outstanding) with
        ⟨haccepted, hall⟩ | ⟨good, bad, rest, hsplit, hall, hreject, haccepted⟩
      · obtain ⟨rv, q, hcall, hd, hs, -⟩ := hsettled.process_accepted hconf henv hsucc
          h.delivered hring h.room h.fits updCmpl hsome hall
        rw [← hcs] at hcall
        exact h.consume (List.append_nil _).symm haccepted hcall hd (Or.inl hs)
      · obtain ⟨rv, q, hcall, hd, hs⟩ := hsettled.process_rejected hconf henv h.delivered hring
          h.room h.fits updCmpl hsplit hall hreject
        rw [← hcs] at hcall
        exact h.consume hsplit haccepted hcall hd (Or.inr hs)
  · obtain ⟨rv, q, hcall, hd, hs, hnone⟩ :=
      hstopped.process hconf h.delivered hring h.room budget updCmpl
    rw [← hcs] at hcall
    exact h.consume (List.nil_append _).symm hnone hcall ((List.append_nil r.done).symm ▸ hd)
      (Or.inr hs)

/-- One step keeps the simulation. -/
theorem Simulates.step (hconf : flqConf.Runs conf) (henv : env.Accepts) (hsucc : env.Succeeds)
    (h : Simulates flqConf conf s r) (e : CmptEvent) (hok : HwWrites conf flqConf.shift s e) :
    Simulates flqConf conf (cmptStep env conf s e) (readerStep conf r e) := by
  cases e with
  | write entry => exact h.write hconf hok
  | process budget updCmpl => exact h.process hconf henv hsucc budget updCmpl

/-- A run keeps the simulation. -/
theorem Simulates.run (hconf : flqConf.Runs conf) (henv : env.Accepts) (hsucc : env.Succeeds)
    (h : Simulates flqConf conf s r) {es : List CmptEvent}
    (hrun : Admitted (cmptStep env conf) (HwWrites conf flqConf.shift) s es) :
    Simulates flqConf conf (run (cmptStep env conf) s es) (run (readerStep conf) r es) := by
  induction es generalizing s r with
  | nil => exact h
  | cons e es ih => exact ih (h.step hconf henv hsucc e hrun.1) hrun.2

/-- A queue after its setup has consumed nothing. -/
theorem Simulates.start (hconf : flqConf.Runs conf) (hsucc : env.Succeeds) {heap : PageHeap}
    (hfinite : {p | heap.refs p ≠ 0}.Finite) :
    Simulates flqConf conf (cmptStart env conf flqConf heap) {} := by
  have hinv : RxInv flqConf env.toPageEnv 0 0 (rxStart env flqConf heap) :=
    RxInv.start_inv hsucc hfinite
  have havail := hinv.avail
  have hcolor : lapColor conf.rngszCmpt 0 = true := by simp [lapColor]
  refine ⟨le_rfl, trivial, (Nat.zero_mod _).symm, hcolor.symm, hconf.rngszCmpt_pos, Nat.zero_le _,
    ⟨?_, rfl⟩, Or.inl ⟨⟨0, hinv.stable, hinv.pidxPend, ?_⟩, (Nat.zero_mod _).symm, rfl, ?_⟩⟩
  · unfold C2hQueue.atEntry Reader.done
    rw [List.take_nil, List.length_nil, Nat.zero_mod, Nat.zero_mul, hcolor]
    rfl
  · show (rxStart env flqConf heap).q.rx.avail = flqConf.size - 1
    omega
  · exact (Nat.zero_mod _).symm

/-! ## Splitting the work -/

end

end OnicDriver.C2h
