import OnicDriver.H2c.Running
import OnicDriver.H2c.Moves

/-!
# Termination of request processing

An iteration of the loops over the work list writes descriptors, finishes a request,
or leaves the loop, unless it is stuck: the list of the first request ends below its
count, so that nothing is found to go on with, or the callback of a memory mapped
queue takes no descriptor. The descriptors that are free or that the hardware can
return during a call are fewer than the ring has, so that without a stuck iteration
the loops end.
-/

namespace OnicDriver.H2c

open Lib Queue

/-! ## Stuck iterations -/

/-- The queue in which an iteration looks for free descriptors. -/
def lookForDescs (conf : QueueConf) (q : Descq) : Descq :=
  if q.avail = 0 then descqPollMmNH2cCmplStatus conf q else q

/-- The list of the request `req` ends before its offset, which is below its count. -/
def NoOffset (req : QdmaRequest) (id : ReqId) (q : Descq) : Prop :=
  qdmaSglFindOffset req (q.cb id) = none ∧ u32 (q.cb id).offset < (q.req id).count

/-- The callback takes no descriptor for the request and does not finish it. -/
def FillsNothing (conf : QueueConf) (fill : Descq → ReqId → Fill) (id : ReqId) (q : Descq) : Prop :=
  (getDescs conf id (fill q id).gets q).1 = 0 ∧
    ∀ c ∈ (fill q id).dataCnt, u32 (((getDescs conf id (fill q id).gets q).2.cb id).offset + c) <
      ((getDescs conf id (fill q id).gets q).2.req id).count

/-- An iteration of `descq_mm_proc_request` that changes nothing and is made again. -/
def MmStuck (conf : QueueConf) (id : ReqId) (q : Descq) : Prop :=
  (lookForDescs conf q).avail ≠ 0 ∧
    match conf.ulExt with
    | some fill => FillsNothing conf fill id (lookForDescs conf q)
    | none => NoOffset (q.req id) id (lookForDescs conf q)

/-- The same for `descq_proc_st_h2c_request`, which leaves its loop when the callback takes no
descriptor. -/
def StStuck (conf : QueueConf) (id : ReqId) (q : Descq) : Prop :=
  (lookForDescs conf q).avail ≠ 0 ∧ conf.ulExt = none ∧
    NoOffset (q.req id) id (lookForDescs conf q)

/-- An iteration leaves the loop, or it writes a descriptor or removes a request from the work
list. -/
def MovesOn (pass : ReqId → Descq → Option ℕ × Descq) (id : ReqId) (q : Descq) : Prop :=
  (pass id q).1 = none ∨ q.written < (pass id q).2.written ∨
    (pass id q).2.workList.length < q.workList.length

/-- The states in which iterations of the loop begin. -/
inductive Reaches (pass : ReqId → Descq → Option ℕ × Descq) : Descq → Descq → Prop
  | start (q : Descq) : Reaches pass q q
  | next {q q' : Descq} {id : ReqId} {rest : List ReqId} (hwork : q.workList = id :: rest)
    (hstays : (pass id q).1 ≠ none) (h : Reaches pass (pass id q).2 q') : Reaches pass q q'

/-- Every iteration of the loop from `q` on has a property. -/
def EachIteration (pass : ReqId → Descq → Option ℕ × Descq) (p : ReqId → Descq → Prop)
    (q : Descq) : Prop :=
  ∀ q' id rest, Reaches pass q q' → q'.workList = id :: rest → p id q'

/-- The call comes to its loop. -/
def Loops (q : Descq) : Prop :=
  q.qStopWait = false ∧ q.qState = .online ∧ q.procReqRunning = false

/-- A call returns, and the iterations of its loop move on. -/
def Terminates (conf : QueueConf) (call : ℕ → Bool → Descq → Option (ℤ × Descq))
    (pass : ReqId → Descq → Option ℕ × Descq) (q : Descq) : Prop :=
  (∃ fuel, ∀ doorbell, (call fuel doorbell q).isSome) ∧
    (Loops q → EachIteration pass (MovesOn pass) (descqPollMmNH2cCmplStatus conf q))

/-- No iteration of the loop of a call is stuck. -/
def NeverStuck (conf : QueueConf) (pass : ReqId → Descq → Option ℕ × Descq)
    (stuck : ReqId → Descq → Prop) (q : Descq) : Prop :=
  Loops q → EachIteration pass (fun id q => ¬ stuck id q) (descqPollMmNH2cCmplStatus conf q)

/-- The free descriptors and those that the hardware can return before the next write of the PIDX
register are at most `b`. -/
def Bounded (conf : QueueConf) (b : ℕ) (q : Descq) : Prop :=
  ∃ k m, Indices conf k m q.ring ∧ q.avail + m ≤ b

/-- Nobody submits requests while a callback runs. -/
def Quiet (conf : QueueConf) : Prop :=
  ∀ fill, conf.ulExt = some fill → ∀ q id, (fill q id).queued = []

section

variable {conf : QueueConf} {q q' : Descq} {id : ReqId} {rest : List ReqId} {b : ℕ}

theorem Quiet.callbackQueues (h : Quiet conf) : CallbackQueues (fun _ => True) conf := by
  intro fill hfill
  have hnil := h fill hfill
  constructor
  · intro q id
    rw [hnil]
    exact List.nodup_nil
  · exact fun _ _ _ _ => trivial
  · intro q id s hs
    rw [hnil] at hs
    exact absurd hs List.not_mem_nil
  · exact fun q id hne => absurd (hnil q id) hne

/-! ## Bounds -/

theorem Bounded.of_slots (h : Bounded conf b q) (hslots : q'.ring.slots = q.ring.slots) :
    Bounded conf b q' := by
  obtain ⟨k, m, hind, hle⟩ := h
  have havail : q'.avail = q.avail := by
    simp only [RingView.slots, Prod.mk.injEq] at hslots
    exact hslots.2.1
  refine ⟨k, m, hind.congr hslots, ?_⟩
  rw [havail]
  exact hle

theorem Bounded.status (h : Bounded conf b q) : Bounded conf b (descqMmNH2cCmplStatus conf q) := by
  obtain ⟨k, m, hind, hle⟩ := h
  obtain ⟨adv, -, heq⟩ | ⟨r, n, adv, -, hpos, hr, heq⟩ := descqMmNH2cCmplStatus_cases hind
  · rw [heq]
    exact ⟨k, m, hind.congr rfl, hle⟩
  · rw [heq]
    set q₀ := takeBack conf r { q with advances := adv } with hq₀
    have hind₀ : Indices conf (k - r) (m - r) q₀.ring :=
      Indices.takeBack (q := { q with advances := adv }) (hind.congr rfl) hr
    have hinfo : q₀.pidxInfoPidx = (q₀.cidx + (m - r)) % conf.rngsz := hind.info_takeBack hr hpos
    have hcredit : (giveCredit conf q₀).ring = q₀.ring := ring_giveCredit
    have hm := hind.posted_le
    have havail : q₀.avail = q.avail + r := rfl
    obtain hring | hring := @ring_qdmaPidxUpdate_true conf (giveCredit conf q₀)
    · refine ⟨k - r, m - r, ?_, ?_⟩
      · rw [hring, hcredit]
        exact hind₀.congr rfl
      · have hsame := congrArg RingView.avail hring
        rw [hcredit] at hsame
        have hsame' : (qdmaPidxUpdate conf (giveCredit conf q₀) true).2.avail = q₀.avail := hsame
        omega
    · refine ⟨m - r, m - r, ?_, ?_⟩
      · have hinfo₁ : (giveCredit conf q₀).pidxInfoPidx = q₀.pidxInfoPidx :=
          congrArg RingView.pidxInfoPidx hcredit
        rw [hring, hcredit, hinfo₁]
        exact hind₀.post hinfo rfl
      · have hsame := congrArg RingView.avail hring
        rw [hcredit] at hsame
        have hsame' : (qdmaPidxUpdate conf (giveCredit conf q₀) true).2.avail = q₀.avail := hsame
        omega

theorem written_status (h : Bounded conf b q) :
    (descqMmNH2cCmplStatus conf q).written = q.written := by
  obtain ⟨k, m, hind, -⟩ := h
  exact ring_descqMmNH2cCmplStatus hind RingView.written fun _ _ _ _ _ _ _ _ => rfl

theorem Bounded.poll (h : Bounded conf b q) :
    Bounded conf b (descqPollMmNH2cCmplStatus conf q) ∧
      (descqPollMmNH2cCmplStatus conf q).written = q.written := by
  unfold descqPollMmNH2cCmplStatus
  split
  · have hflag : Bounded conf b { q with procReqRunning := true } := h.of_slots rfl
    exact ⟨hflag.status, written_status hflag⟩
  · exact ⟨h, rfl⟩

theorem Bounded.lookForDescs (h : Bounded conf b q) :
    Bounded conf b (lookForDescs conf q) ∧ (lookForDescs conf q).written = q.written := by
  unfold H2c.lookForDescs
  split
  · exact h.poll
  · exact ⟨h, rfl⟩

/-- A step that uses `n` descriptors. -/
structure Uses (conf : QueueConf) (b n : ℕ) (q q' : Descq) : Prop where
  bounded : Bounded conf (b - n) q'
  le : n ≤ b
  written : q'.written = q.written + n

theorem Bounded.uses_zero (h : Bounded conf b q') (hwritten : q'.written = q.written) :
    Uses conf b 0 q q' := ⟨h, Nat.zero_le b, hwritten⟩

theorem Uses.trans {n n' : ℕ} {q'' : Descq} (h : Uses conf b n q q')
    (h' : Uses conf (b - n) n' q' q'') : Uses conf b (n + n') q q'' := by
  obtain ⟨-, hle, hwritten⟩ := h
  obtain ⟨hbounded, hle', hwritten'⟩ := h'
  refine ⟨?_, by omega, by omega⟩
  rw [← Nat.sub_sub]
  exact hbounded

theorem Bounded.qdmaQDescGet (h : Bounded conf b q) (cnt : ℕ) :
    Uses conf b (qdmaQDescGet conf id cnt q).1 q (qdmaQDescGet conf id cnt q).2 := by
  have hlook : Bounded conf b (if q.avail < cnt then descqMmNH2cCmplStatus conf q else q) ∧
      (if q.avail < cnt then descqMmNH2cCmplStatus conf q else q).written = q.written := by
    split
    · exact ⟨h.status, written_status h⟩
    · exact ⟨h, rfl⟩
  unfold H2c.qdmaQDescGet
  dsimp only
  split
  · exact h.uses_zero rfl
  · set q₁ := if q.avail < cnt then descqMmNH2cCmplStatus conf q else q
    split
    · exact hlook.1.uses_zero hlook.2
    · rename_i hcnt havail
      obtain ⟨⟨k, m, hind, hle⟩, hwritten⟩ := hlook
      have hlen : (q₁.owners ++ List.replicate cnt id).length = q₁.owners.length + cnt := by
        rw [List.length_append, List.length_replicate]
      refine ⟨⟨k, m, ?_, ?_⟩, by omega, congrArg (· + cnt) hwritten⟩
      · apply hind.extend (n := cnt) (not_lt.mp havail) rfl _ rfl hlen rfl rfl
        exact ringIdxIncr_eq_mod hind.pidx_lt (by omega)
      · change q₁.avail - cnt + m ≤ b - cnt
        omega

theorem Bounded.getDescs (h : Bounded conf b q) (gets : List ℕ) :
    Uses conf b (getDescs conf id gets q).1 q (getDescs conf id gets q).2 := by
  induction gets generalizing q b with
  | nil => exact h.uses_zero rfl
  | cons cnt gets ih =>
    have hhead := @Bounded.qdmaQDescGet _ _ id _ h cnt
    exact hhead.trans (ih hhead.bounded)

theorem Bounded.qdmaUpdateRequest (h : Bounded conf b q) (n c : ℕ) :
    Bounded conf b (qdmaUpdateRequest q id n c) ∧
      (qdmaUpdateRequest q id n c).written = q.written := by
  have hring := @ring_qdmaUpdateRequest q id n c
  refine ⟨h.of_slots (by rw [hring]; rfl), ?_⟩
  exact congrArg RingView.written hring

theorem Bounded.issue (h : Bounded conf b q) {pieces : List Piece}
    (hlen : pieces.length ≤ q.avail) (mm : ℕ → MmDesc) (st : ℕ → H2cDesc) :
    Uses conf b pieces.length q
      (issue conf id pieces { q with mmDesc := mm, h2cDesc := st }) := by
  have hset : Bounded conf b { q with mmDesc := mm, h2cDesc := st } := h.of_slots rfl
  obtain ⟨k, m, hind, hle⟩ := hset
  have hring := @ring_qdmaUpdateRequest { q with mmDesc := mm, h2cDesc := st } id pieces.length
    (dataCnt pieces)
  have havail : (H2c.qdmaUpdateRequest { q with mmDesc := mm, h2cDesc := st } id pieces.length
      (dataCnt pieces)).avail = q.avail := congrArg RingView.avail hring
  have hwritten : (H2c.qdmaUpdateRequest { q with mmDesc := mm, h2cDesc := st } id pieces.length
      (dataCnt pieces)).written = q.written := congrArg RingView.written hring
  have hle' : q.avail + m ≤ b := hle
  refine ⟨⟨k, m, hind.issue hlen, ?_⟩, by omega, congrArg (· + pieces.length) hwritten⟩
  change (H2c.qdmaUpdateRequest { q with mmDesc := mm, h2cDesc := st } id pieces.length
    (dataCnt pieces)).avail - pieces.length + m ≤ _
  rw [havail]
  omega

/-! ## Iterations -/

theorem length_qdmaUpdateRequest_le (n c : ℕ) :
    (qdmaUpdateRequest q id n c).workList.length ≤ q.workList.length := by
  unfold qdmaUpdateRequest
  dsimp only
  split
  · exact List.length_erase_le
  · exact le_rfl

theorem length_issue_le (pieces : List Piece) (mm : ℕ → MmDesc) (st : ℕ → H2cDesc) :
    (issue conf id pieces { q with mmDesc := mm, h2cDesc := st }).workList.length ≤
      q.workList.length :=
  length_qdmaUpdateRequest_le pieces.length (dataCnt pieces)

/-- The first request leaves the work list when its offset is no longer below its count. -/
theorem length_qdmaUpdateRequest (hwork : q.workList = id :: rest) (n c : ℕ) :
    (qdmaUpdateRequest q id n c).workList.length < q.workList.length ↔
      (q.req id).count ≤ u32 ((q.cb id).offset + c) := by
  unfold qdmaUpdateRequest
  dsimp only
  split
  · rename_i hdone
    refine ⟨fun _ => hdone, fun _ => ?_⟩
    change (q.workList.erase id).length < _
    rw [hwork, List.erase_cons_head]
    exact Nat.lt_succ_self _
  · rename_i hless
    exact ⟨fun h => absurd h (lt_irrefl _), fun h => absurd h hless⟩

/-- What an iteration does: it leaves the loop, or it uses `n` descriptors, and it is stuck where it
uses none and leaves all requests on the list. -/
def IterationSpec (conf : QueueConf) (pass : ReqId → Descq → Option ℕ × Descq)
    (isStuck : ReqId → Descq → Prop) : Prop :=
  ∀ q id rest b, Bounded conf b q → q.pending.Nodup → q.workList = id :: rest →
    (pass id q).1 = none ∧ ¬ isStuck id q ∨
    (pass id q).1 ≠ none ∧ ∃ n, Uses conf b n q (pass id q).2 ∧
      (pass id q).2.workList.length ≤ q.workList.length ∧
      (isStuck id q ↔ n = 0 ∧ ¬ (pass id q).2.workList.length < q.workList.length)

/-- The iterations of a callback. -/
theorem fpBypassDescFill_spec {fill : Descq → ReqId → Fill} (hquiet : (fill q id).queued = [])
    (h : Bounded conf b q) (hnodup : q.pending.Nodup) (hwork : q.workList = id :: rest) :
    Uses conf b (fpBypassDescFill conf fill id q).1 q (fpBypassDescFill conf fill id q).2 ∧
      (fpBypassDescFill conf fill id q).2.workList.length ≤ q.workList.length ∧
      (FillsNothing conf fill id q ↔ (fpBypassDescFill conf fill id q).1 = 0 ∧
        ¬ (fpBypassDescFill conf fill id q).2.workList.length < q.workList.length) := by
  have huses := @Bounded.getDescs _ _ id _ h (fill q id).gets
  have hgets : Completes (fun _ => True) conf q (getDescs conf id (fill q id).gets q).2 :=
    Completes.getDescs hnodup (fill q id).gets
  have hwork₁ := hgets.work.trans hwork
  unfold FillsNothing fpBypassDescFill
  dsimp only
  rw [hquiet, List.foldl_nil]
  generalize getDescs conf id (fill q id).gets q = r at huses hgets hwork₁
  have hlen : r.2.workList.length = q.workList.length := congrArg List.length hgets.work
  cases hcnt : (fill q id).dataCnt with
  | none =>
    refine ⟨huses, hlen.le, ?_⟩
    constructor
    · rintro ⟨hzero, -⟩
      exact ⟨hzero, hlen.not_lt⟩
    · rintro ⟨hzero, -⟩
      exact ⟨hzero, fun c hc => by cases hc⟩
  | some c =>
    obtain ⟨hbounded, hwritten⟩ := @Bounded.qdmaUpdateRequest _ _ id _ huses.bounded r.1 c
    have hiff := length_qdmaUpdateRequest hwork₁ r.1 c
    refine ⟨⟨hbounded, huses.le, hwritten.trans huses.written⟩, ?_, ?_⟩
    · exact (length_qdmaUpdateRequest_le r.1 c).trans hlen.le
    · dsimp only
      rw [← hlen, hiff, not_le]
      constructor
      · rintro ⟨hzero, hless⟩
        exact ⟨hzero, hless c rfl⟩
      · rintro ⟨hzero, hless⟩
        refine ⟨hzero, ?_⟩
        intro c' hc'
        cases hc'
        exact hless

/-- An iteration that finds no place to go on in the list. -/
theorem noOffset_spec {req : QdmaRequest} (h : Bounded conf b q) (hwork : q.workList = id :: rest)
    (hfind : qdmaSglFindOffset req (q.cb id) = none) :
    Uses conf b 0 q (qdmaUpdateRequest q id 0 0) ∧
      (qdmaUpdateRequest q id 0 0).workList.length ≤ q.workList.length ∧
      (NoOffset req id q ↔ (0 = 0 ∧
        ¬ (qdmaUpdateRequest q id 0 0).workList.length < q.workList.length)) := by
  obtain ⟨hbounded, hwritten⟩ := @Bounded.qdmaUpdateRequest _ _ id _ h 0 0
  refine ⟨hbounded.uses_zero hwritten, length_qdmaUpdateRequest_le 0 0, ?_⟩
  have hadd : u32 (((q.cb id).offset : ℤ) + (0 : ℕ)) = u32 (q.cb id).offset := by
    rw [Nat.cast_zero, add_zero]
  rw [length_qdmaUpdateRequest hwork, hadd, not_le]
  unfold NoOffset
  exact ⟨fun h => ⟨rfl, h.2⟩, fun h => ⟨hfind, h.2⟩⟩

/-- The search for free descriptors leaves the requests alone. -/
theorem lookForDescs_completes (hnodup : q.pending.Nodup) :
    Completes (fun _ => True) conf q (lookForDescs conf q) := Completes.pollIfFull hnodup

theorem mmPass_spec (hquiet : Quiet conf) : IterationSpec conf (mmPass conf) (MmStuck conf) := by
  intro q id rest b h hnodup hwork
  have hlook := @lookForDescs_completes conf _ hnodup
  obtain ⟨hbounded, hwritten⟩ := h.lookForDescs
  have hwork₁ := hlook.work.trans hwork
  have hlen : (lookForDescs conf q).workList.length = q.workList.length :=
    congrArg List.length hlook.work
  have hnodup₁ := hlook.walk.pending hnodup
  have hfrom : ∀ {n q'}, Uses conf b n (lookForDescs conf q) q' → Uses conf b n q q' :=
    fun huses => ⟨huses.bounded, huses.le, hwritten ▸ huses.written⟩
  have heq : (if q.avail = 0 then descqPollMmNH2cCmplStatus conf q else q) =
      lookForDescs conf q := rfl
  unfold mmPass MmStuck
  dsimp only
  rw [heq]
  set q₁ := lookForDescs conf q
  by_cases hzero : q₁.avail = 0
  · rw [if_pos hzero]
    exact Or.inl ⟨rfl, fun hstuck => hstuck.1 hzero⟩
  · rw [if_neg hzero]
    cases hext : conf.ulExt with
    | some fill =>
      obtain ⟨huses, hle, hiff⟩ :=
        fpBypassDescFill_spec (hquiet fill hext q₁ id) hbounded hnodup₁ hwork₁
      refine Or.inr ⟨Option.some_ne_none _, _, hfrom huses, hlen ▸ hle, ?_⟩
      rw [← hlen]
      exact ⟨fun hstuck => hiff.mp hstuck.2, fun hnothing => ⟨hzero, hiff.mpr hnothing⟩⟩
    | none =>
      dsimp only
      cases hfind : qdmaSglFindOffset (q.req id) (q₁.cb id) with
      | none =>
        obtain ⟨huses, hle, hiff⟩ := noOffset_spec hbounded hwork₁ hfind
        refine Or.inr ⟨Option.some_ne_none _, 0, hfrom huses, hlen ▸ hle, ?_⟩
        rw [← hlen]
        exact ⟨fun hstuck => hiff.mp hstuck.2, fun hnothing => ⟨hzero, hiff.mpr hnothing⟩⟩
      | some r =>
        have hnot : ¬ NoOffset (q.req id) id q₁ := by
          rintro ⟨hnone, -⟩
          rw [hfind] at hnone
          cases hnone
        dsimp only
        split
        · exact Or.inl ⟨rfl, fun hstuck => hnot hstuck.2⟩
        · rename_i hne
          have hroom := length_cutList_le conf.aperture (mmWindow conf (q.req id)) r.1
            (((q.req id).sgl.take (q.req id).sgcnt).drop r.1) r.2 q₁.avail
            (mmEpAddr conf (q.req id) (q.cb id))
          generalize cutList conf.aperture (mmWindow conf (q.req id)) r.1
            (((q.req id).sgl.take (q.req id).sgcnt).drop r.1) r.2 q₁.avail
            (mmEpAddr conf (q.req id) (q.cb id)) = pieces at hne hroom ⊢
          have huses := @Bounded.issue _ _ id _ hbounded _ hroom
          refine Or.inr ⟨Option.some_ne_none _, _, hfrom (huses _ _), ?_, ?_⟩
          · rw [← hlen]
            exact length_issue_le pieces _ _
          · exact ⟨fun hstuck => absurd hstuck.2 hnot,
              fun hnothing => absurd (List.length_eq_zero_iff.mp hnothing.1) hne⟩

theorem stPass_spec (hquiet : Quiet conf) : IterationSpec conf (stPass conf) (StStuck conf) := by
  intro q id rest b h hnodup hwork
  have hlook := @lookForDescs_completes conf _ hnodup
  obtain ⟨hbounded, hwritten⟩ := h.lookForDescs
  have hwork₁ := hlook.work.trans hwork
  have hlen : (lookForDescs conf q).workList.length = q.workList.length :=
    congrArg List.length hlook.work
  have hnodup₁ := hlook.walk.pending hnodup
  have hfrom : ∀ {n q'}, Uses conf b n (lookForDescs conf q) q' → Uses conf b n q q' :=
    fun huses => ⟨huses.bounded, huses.le, hwritten ▸ huses.written⟩
  have heq : (if q.avail = 0 then descqPollMmNH2cCmplStatus conf q else q) =
      lookForDescs conf q := rfl
  unfold stPass StStuck
  dsimp only
  rw [heq]
  set q₁ := lookForDescs conf q
  by_cases hzero : q₁.avail = 0
  · rw [if_pos hzero]
    exact Or.inl ⟨rfl, fun hstuck => hstuck.1 hzero⟩
  · rw [if_neg hzero]
    cases hext : conf.ulExt with
    | some fill =>
      obtain ⟨huses, hle, -⟩ :=
        fpBypassDescFill_spec (hquiet fill hext q₁ id) hbounded hnodup₁ hwork₁
      dsimp only
      split
      · exact Or.inl ⟨rfl, fun hstuck => (nomatch hstuck.2.1)⟩
      · rename_i hne
        refine Or.inr ⟨Option.some_ne_none _, _, hfrom huses, hlen ▸ hle, ?_⟩
        exact ⟨fun hstuck => (nomatch hstuck.2.1), fun hnothing => absurd hnothing.1 hne⟩
    | none =>
      dsimp only
      cases hfind : qdmaSglFindOffset (q.req id) (q₁.cb id) with
      | none =>
        obtain ⟨huses, hle, hiff⟩ := noOffset_spec hbounded hwork₁ hfind
        refine Or.inr ⟨Option.some_ne_none _, 0, hfrom huses, hlen ▸ hle, ?_⟩
        rw [← hlen]
        exact ⟨fun hstuck => hiff.mp hstuck.2.2,
          fun hnothing => ⟨hzero, rfl, hiff.mpr hnothing⟩⟩
      | some r =>
        have hnot : ¬ NoOffset (q.req id) id q₁ := by
          rintro ⟨hnone, -⟩
          rw [hfind] at hnone
          cases hnone
        dsimp only
        have hroom := length_cutList_le (pktsz (q.req id)) none r.1
          (((q.req id).sgl.take (q.req id).sgcnt).drop r.1) r.2 q₁.avail 0
        generalize cutList (pktsz (q.req id)) none r.1
          (((q.req id).sgl.take (q.req id).sgcnt).drop r.1) r.2 q₁.avail 0 = pieces at hroom ⊢
        split
        · exact Or.inl ⟨rfl, fun hstuck => hnot hstuck.2.2⟩
        · rename_i hne
          have huses := @Bounded.issue _ _ id _ hbounded _ hroom
          refine Or.inr ⟨Option.some_ne_none _, _, hfrom (huses _ _), ?_, ?_⟩
          · rw [← hlen]
            exact length_issue_le pieces _ _
          · exact ⟨fun hstuck => absurd hstuck.2.2 hnot,
              fun hnothing => absurd (List.length_eq_zero_iff.mp hnothing.1) hne⟩

/-! ## Loops -/

variable {pass : ReqId → Descq → Option ℕ × Descq} {isStuck : ReqId → Descq → Prop}

theorem IterationSpec.movesOn (hspec : IterationSpec conf pass isStuck) (h : Bounded conf b q)
    (hnodup : q.pending.Nodup) (hwork : q.workList = id :: rest) :
    MovesOn pass id q ↔ ¬ isStuck id q := by
  obtain ⟨hnone, hnot⟩ | ⟨hsome, n, huses, hle, hiff⟩ := hspec q id rest b h hnodup hwork
  · exact ⟨fun _ => hnot, fun _ => Or.inl hnone⟩
  · have hwritten := huses.written
    unfold MovesOn
    rw [hiff]
    constructor
    · intro hmoves hnothing
      obtain hnone | hlt | hlt := hmoves
      · exact hsome hnone
      · omega
      · exact hnothing.2 hlt
    · intro hnot
      by_cases hzero : n = 0
      · exact Or.inr (Or.inr (by_contra fun hlt => hnot ⟨hzero, hlt⟩))
      · exact Or.inr (Or.inl (by omega))

/-- What an iteration that moves on leaves for the next one. -/
theorem IterationSpec.next (hspec : IterationSpec conf pass isStuck) (h : Bounded conf b q)
    (hnodup : q.pending.Nodup) (hwork : q.workList = id :: rest) (hsome : (pass id q).1 ≠ none) :
    ∃ b', Bounded conf b' (pass id q).2 ∧ b' ≤ b ∧
      (¬ isStuck id q → b' + (pass id q).2.workList.length < b + q.workList.length) := by
  obtain ⟨hnone, -⟩ | ⟨-, n, huses, hle, hiff⟩ := hspec q id rest b h hnodup hwork
  · exact absurd hnone hsome
  · refine ⟨b - n, huses.bounded, Nat.sub_le b n, ?_⟩
    intro hnot
    have hn := huses.le
    rw [hiff, not_and, not_not] at hnot
    by_cases hzero : n = 0
    · have hlt := hnot hzero
      omega
    · omega

/-- The states of a loop are bounded, and no request is on their lists twice. -/
theorem Reaches.bounded (hspec : IterationSpec conf pass isStuck)
    (hpass : Walks (fun _ => True) conf pass) (hreach : Reaches pass q q') (h : Bounded conf b q)
    (hnodup : q.pending.Nodup) : (∃ b', Bounded conf b' q') ∧ q'.pending.Nodup := by
  induction hreach generalizing b with
  | start q => exact ⟨⟨b, h⟩, hnodup⟩
  | next hwork hstays _ ih =>
    obtain ⟨b', hbounded, -⟩ := hspec.next h hnodup hwork hstays
    exact ih hbounded (Walk.pending (hpass _ _ _ hnodup hwork) hnodup)

/-- A loop without stuck iterations ends. -/
theorem passes_isSome (hspec : IterationSpec conf pass isStuck)
    (hpass : Walks (fun _ => True) conf pass) (h : Bounded conf b q) (hnodup : q.pending.Nodup)
    (hnever : EachIteration pass (fun id q => ¬ isStuck id q) q) {fuel n : ℕ}
    (hfuel : b + q.workList.length ≤ fuel) : ∃ r, passes pass fuel n q = some r := by
  induction fuel generalizing q b n with
  | zero =>
    have hnil : q.workList = [] := List.length_eq_zero_iff.mp (by omega)
    unfold passes
    rw [hnil]
    exact ⟨_, rfl⟩
  | succ fuel ih =>
    unfold passes
    split
    · exact ⟨_, rfl⟩
    · rename_i id rest hwork
      dsimp only
      have hnot : ¬ isStuck id q := hnever q id rest (Reaches.start q) hwork
      cases hres : pass id q with
      | mk o q' =>
        cases o with
        | none => exact ⟨_, rfl⟩
        | some a =>
          have hstays : (pass id q).1 ≠ none := by
            rw [hres]
            exact Option.some_ne_none a
          obtain ⟨b', hbounded, -, hlt⟩ := hspec.next h hnodup hwork hstays
          have hwalk := Walk.pending (hpass q id rest hnodup hwork) hnodup
          have hlt' := hlt hnot
          rw [hres] at hbounded hwalk hlt'
          apply ih hbounded hwalk _ (by omega)
          intro q'' j ids hreach hhead
          apply hnever q'' j ids _ hhead
          apply Reaches.next hwork hstays
          rw [hres]
          exact hreach

/-- A call of one of the two functions returns, and each of its iterations moves on, exactly when no
iteration is stuck. -/
theorem terminates_iff (hspec : IterationSpec conf pass isStuck)
    (hpass : Walks (fun _ => True) conf pass) (h : Bounded conf b q) (hnodup : q.pending.Nodup) :
    Terminates conf (procRequest conf pass) pass q ↔ NeverStuck conf pass isStuck q := by
  have hpoll : Completes (fun _ => True) conf q (descqPollMmNH2cCmplStatus conf q) :=
    Completes.poll hnodup
  have hnodup₁ := hpoll.walk.pending hnodup
  have hbounded := h.poll.1
  have hiff : ∀ q' id rest, Reaches pass (descqPollMmNH2cCmplStatus conf q) q' →
      q'.workList = id :: rest → (MovesOn pass id q' ↔ ¬ isStuck id q') := by
    intro q' id rest hreach hwork
    obtain ⟨⟨b', hb'⟩, hnodup'⟩ := hreach.bounded hspec hpass hbounded hnodup₁
    exact hspec.movesOn hb' hnodup' hwork
  constructor
  · rintro ⟨-, hmoves⟩ hloops q' id rest hreach hwork
    exact (hiff q' id rest hreach hwork).mp (hmoves hloops q' id rest hreach hwork)
  · intro hnever
    refine ⟨?_, fun hloops q' id rest hreach hwork =>
      (hiff q' id rest hreach hwork).mpr (hnever hloops q' id rest hreach hwork)⟩
    refine ⟨b + (descqPollMmNH2cCmplStatus conf q).workList.length, fun doorbell => ?_⟩
    unfold procRequest
    split
    · rfl
    · rename_i hstop
      rw [Bool.not_eq_true] at hstop
      split
      · rfl
      · rename_i honline
        split
        · rfl
        · rename_i hrunning
          rw [Bool.not_eq_true] at hrunning
          have hloops : Loops q := ⟨hstop, not_not.mp honline, hrunning⟩
          obtain ⟨r, hr⟩ := passes_isSome hspec hpass hbounded hnodup₁ (hnever hloops)
            (n := 0) le_rfl
          rw [hr]
          rfl

/-- Both functions return, each iteration of their loops writing a descriptor, removing a request
from the work list or leaving the loop, exactly when no iteration is stuck. -/
theorem processing_terminates_iff {k m : ℕ} (hquiet : Quiet conf) (hind : Indices conf k m q.ring)
    (hnodup : q.pending.Nodup) :
    (Terminates conf (descqMmProcRequest conf) (mmPass conf) q ↔
        NeverStuck conf (mmPass conf) (MmStuck conf) q) ∧
      (Terminates conf (descqProcStH2cRequest conf) (stPass conf) q ↔
        NeverStuck conf (stPass conf) (StStuck conf) q) := by
  have hbounded : Bounded conf (q.avail + m) q := ⟨k, m, hind, le_rfl⟩
  have hfill := hquiet.callbackQueues
  exact ⟨terminates_iff (mmPass_spec hquiet) (mmPass_walks hfill) hbounded hnodup,
    terminates_iff (stPass_spec hquiet) (stPass_walks hfill) hbounded hnodup⟩

/-! ## Requests whose list covers their count -/

theorem Serving.not_noOffset (h : Serving conf q) (hid : id ∈ q.workList) :
    ¬ NoOffset (q.req id) id (lookForDescs conf q) := by
  rintro ⟨hfind, -⟩
  have hcb : (lookForDescs conf q).cb id = q.cb id := h.pollIfFull.keeps.cb id hid
  obtain ⟨i, off, hsome, -⟩ := (h.covers id hid).findOffset (h.unfinished id hid)
  rw [hcb, hsome] at hfind
  cases hfind

theorem Serving.not_mmStuck (hfill : CallbackWilling conf) (h : Serving conf q)
    (hid : id ∈ q.workList) : ¬ MmStuck conf id q := by
  rintro ⟨havail, hstuck⟩
  cases hext : conf.ulExt with
  | some fill =>
    rw [hext] at hstuck
    have hserving : Serving conf (lookForDescs conf q) := h.pollIfFull.serving
    exact (hfill fill hext).takes _ id havail hserving.avail_lt hstuck.1
  | none =>
    rw [hext] at hstuck
    exact h.not_noOffset hid hstuck

theorem Serving.reaches (hpass : Serves conf pass) (h : Serving conf q)
    (hreach : Reaches pass q q') : Serving conf q' := by
  induction hreach with
  | start q => exact h
  | @next q q' id rest hwork hstays _ ih =>
    have hid : id ∈ q.workList := by
      rw [hwork]
      exact List.mem_cons_self
    obtain ⟨q₁, hres, -⟩ | ⟨n, q₁, hres, hprog⟩ := hpass q id h hid
    · rw [hres] at hstays
      exact absurd rfl hstays
    · rw [hres] at ih
      exact ih hprog.serving

/-- With requests whose lists cover their counts, and callbacks that take descriptors, no iteration
is stuck. -/
theorem Serving.neverStuck (hfill : CallbackWilling conf) (h : Serving conf q) :
    NeverStuck conf (mmPass conf) (MmStuck conf) q ∧
      NeverStuck conf (stPass conf) (StStuck conf) q := by
  have hpoll := h.poll.serving
  have hmem : ∀ {q' : Descq} {id rest}, q'.workList = id :: rest → id ∈ q'.workList := by
    intro q' id rest hwork
    rw [hwork]
    exact List.mem_cons_self
  constructor
  · intro _ q' id rest hreach hwork
    exact (hpoll.reaches (mmPass_serves hfill) hreach).not_mmStuck hfill (hmem hwork)
  · intro _ q' id rest hreach hwork hstuck
    exact (hpoll.reaches (stPass_serves hfill) hreach).not_noOffset (hmem hwork) hstuck.2.2

/-! ## A list that is too short -/

/-- A stuck iteration is made again for ever. -/
theorem passes_stuck (hext : conf.ulExt = none) (havail : q.avail ≠ 0)
    (hoffset : (q.cb id).offset < 2 ^ 32) (hstuck : NoOffset (q.req id) id q)
    (hwork : q.workList = id :: rest) (fuel n : ℕ) : passes (mmPass conf) fuel n q = none := by
  induction fuel generalizing q n with
  | zero =>
    unfold passes
    rw [hwork]
  | succ fuel ih =>
    obtain ⟨hfind, hless⟩ := hstuck
    set q' := q.setCb id { q.cb id with
      descNr := (q.cb id).descNr + 0, offset := u32 ((q.cb id).offset + (0 : ℕ)) } with hq'
    have hadd : u32 (((q.cb id).offset : ℤ) + (0 : ℕ)) = (q.cb id).offset := by
      rw [Nat.cast_zero, add_zero, u32_natCast hoffset]
    have hsame : (q'.cb id).offset = (q.cb id).offset := by
      rw [hq', Descq.setCb]
      dsimp only
      rw [Function.update_self]
      exact hadd
    have hupdate : qdmaUpdateRequest q id 0 0 = q' := by
      unfold qdmaUpdateRequest
      dsimp only
      rw [if_neg]
      rw [hadd, ← u32_natCast hoffset]
      exact not_le.mpr hless
    have hpass : mmPass conf id q = (some 0, q') := by
      unfold mmPass
      rw [hext]
      dsimp only
      rw [if_neg havail, if_neg havail, hfind]
      dsimp only
      rw [hupdate]
    unfold passes
    rw [hwork]
    dsimp only
    rw [hpass]
    have hfind' : qdmaSglFindOffset (q'.req id) (q'.cb id) = none := by
      unfold qdmaSglFindOffset at hfind ⊢
      rw [hsame]
      exact hfind
    have hless' : u32 (q'.cb id).offset < (q'.req id).count := by
      rw [hsame]
      exact hless
    exact ih (q := q') havail (hsame ▸ hoffset) ⟨hfind', hless'⟩ hwork _

end

/-- A request for four bytes on a queue in poll mode. -/
def pollQueue (req : QdmaRequest) : Descq := enqueue pollConf.start { id := 1, req := req }

theorem pollQueue_terminates :
    (Terminates pollConf (descqMmProcRequest pollConf) (mmPass pollConf) (pollQueue pollReq) ↔
        NeverStuck pollConf (mmPass pollConf) (MmStuck pollConf) (pollQueue pollReq)) ∧
      (Terminates pollConf (descqProcStH2cRequest pollConf) (stPass pollConf) (pollQueue pollReq) ↔
        NeverStuck pollConf (stPass pollConf) (StStuck pollConf) (pollQueue pollReq)) :=
  processing_terminates_iff (fun _ hfill => (nomatch hfill)) ((Indices.start pollConf).congr rfl)
    (List.nodup_singleton 1)

/-- A request for 16 bytes with a list of 8. -/
def shortReq : QdmaRequest := { count := 16, sgcnt := 1, sgl := [{ len := 8 }] }

/-- A request whose list ends after half of its count is processed for ever. -/
theorem shortReq_not_terminates :
    ¬ Terminates pollConf (descqMmProcRequest pollConf) (mmPass pollConf) (pollQueue shortReq) := by
  rintro ⟨⟨fuel, hfuel⟩, -⟩
  have hcall := hfuel true
  set q₁ := descqPollMmNH2cCmplStatus pollConf (pollQueue shortReq) with hq₁
  have hloop : descqMmProcRequest pollConf fuel true (pollQueue shortReq) =
      (passes (mmPass pollConf) fuel 0 q₁).map fun r => finishRequests pollConf true r.1 r.2 := rfl
  have hnone : passes (mmPass pollConf) fuel 0 q₁ = none := by
    cases fuel with
    | zero => rfl
    | succ fuel =>
      set q₂ := (mmPass pollConf 1 q₁).2 with hq₂
      have hfirst : passes (mmPass pollConf) (fuel + 1) 0 q₁ =
          passes (mmPass pollConf) fuel (u32 ((0 : ℕ) + (1 : ℕ))) q₂ := rfl
      rw [hfirst]
      have hoffset : (q₂.cb 1).offset = 8 := by decide
      have hstuck : qdmaSglFindOffset (q₂.req 1) (q₂.cb 1) = none := by decide
      have hless : u32 (q₂.cb 1).offset < (q₂.req 1).count := by decide
      have havail : q₂.avail ≠ 0 := by decide
      have hwork : q₂.workList = [1] := by decide
      exact passes_stuck rfl havail (by rw [hoffset]; decide) ⟨hstuck, hless⟩ hwork _ _
  rw [hloop, hnone] at hcall
  cases hcall

end OnicDriver.H2c
