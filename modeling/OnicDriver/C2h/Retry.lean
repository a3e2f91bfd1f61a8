import OnicDriver.C2h.Calls
import OnicDriver.C2h.BufferCount
import OnicDriver.Netdev.Receive

/-!
# Packet callbacks that fail

A callback that returns an error leaves its entry at the completion cursor, and
the next call tries again. The descriptors of the packet are taken off the count
of free ones at every try, so the queue survives a failed callback only for an
entry that uses no descriptors.
-/

namespace OnicDriver.C2h

open Lib Netdev

/-- The queue after `n` rounds on the same entry that were stopped. -/
def retry (env : C2hEnv) (conf : C2hConf) (ring : ℕ → ℕ) (pidx : ℕ) :
    ℕ → C2hQueue → Option C2hQueue
  | 0, q => some q
  | n + 1, q =>
    match entryRound env conf ring pidx q with
    | .stopped q => retry env conf ring pidx n q
    | _ => none

/-- The callback accepts everything. -/
def C2hEnv.accepting (env : C2hEnv) : C2hEnv := { env with fpDescqC2hPacket := fun _ _ => 0 }

/-- The packet callback was called with the entry at the cursor and returned an error. -/
def CallbackFails (env : C2hEnv) (conf : C2hConf) (pidx : ℕ) (cmpl : UlCmptInfo) (q : C2hQueue) :
    Prop :=
  if cmpl.descUsed then
    flNr conf q.rx.flq cmpl.len ≤ q.rx.avail ∧ q.answer env conf pidx cmpl.len cmpl.entry < 0
  else (rcvUddOnly env cmpl.entry q).1 < 0

/-- The queue with another record of the calls. -/
def C2hQueue.log (calls : List PacketCall) (q : C2hQueue) : C2hQueue :=
  { q with callbacks := calls }

/-- The call for user data without a packet. -/
def uddCall (entry : ℕ) : PacketCall :=
  { len := 0, sgcnt := 0, first := 0, sgl := [], udd := some entry }

/-- A failed callback for the entry at the cursor does no harm. -/
structure SurvivesFailure (env : C2hEnv) (conf : C2hConf) (ring : ℕ → ℕ) (pidx : ℕ)
    (q : C2hQueue) : Prop where
  /-- The queue is as before the entry was looked at. -/
  intact : ∀ q', entryRound env conf ring pidx q = .stopped q' →
    q' = q.log q'.callbacks
  /-- The pages of the packet are dropped at most once. -/
  released : ∀ n q', retry env conf ring pidx n q = some q' →
    ((buffersOf (q'.callbacks.drop q.callbacks.length)).map SwSg.pg).Subperm
      ((buffersOf ((q'.callbacks.drop q.callbacks.length).take 1)).map SwSg.pg)
  /-- A later success is as good as one at the first try, and delivers the packet once. -/
  later : ∀ n q', retry env conf ring pidx n q = some q' → ∀ next q'',
    entryRound env conf ring pidx q' = .taken next q'' →
      (∃ q₁, entryRound env.accepting conf ring pidx q = .taken next q₁ ∧
        q''.log q₁.callbacks = q₁) ∧
      ∃ call, accepted env q''.callbacks = accepted env q.callbacks ++ [call]

section

variable {env : C2hEnv} {conf : C2hConf} {ring : ℕ → ℕ} {pidx n : ℕ} {q q' : C2hQueue}
  {cmpl : UlCmptInfo}

/-- A failed call of `onic_rx_pkt_process` drops the pages of all buffers of the packet. -/
theorem onicRxPktProcess_failed_puts {rx : RxEnv} {call : PacketCall}
    (hlen : call.sgl.length = call.sgcnt)
    (hfail : (onicRxPktProcess rx call.len call.sgcnt call.sgl).ret < 0) :
    (onicRxPktProcess rx call.len call.sgcnt call.sgl).putPages = call.sgl.map SwSg.pg := by
  unfold onicRxPktProcess at hfail ⊢
  by_cases hzero : call.sgcnt = 0
  · rw [hzero] at hlen
    rw [if_pos hzero, List.length_eq_zero_iff.mp hlen]
    rfl
  · rw [if_neg hzero] at hfail ⊢
    dsimp only at hfail ⊢
    by_cases hneg : (onicRxDeliver rx call.len call.sgcnt call.sgl).ret < 0
    · have hnone : (onicRxDeliver rx call.len call.sgcnt call.sgl).putPages = [] := by
        unfold onicRxDeliver at hneg ⊢
        rw [if_neg hzero] at hneg ⊢
        cases hsgl : call.sgl with
        | nil => rfl
        | cons first rest =>
          rw [hsgl] at hneg
          dsimp only at hneg ⊢
          split_ifs at hneg ⊢
          · rfl
          · exact absurd hneg (lt_irrefl 0)
          · rfl
          · rfl
      rw [if_pos hneg, hnone, ← hlen, List.take_length, List.nil_append]
    · rw [if_neg hneg] at hfail
      exact absurd hfail hneg

/-- A failed callback for a packet loses the count of its descriptors. -/
theorem Passes.not_intact (hpass : Passes conf ring q cmpl) (hbuf : 0 < conf.c2hBufsz)
    (hused : cmpl.descUsed = true) (hfail : CallbackFails env conf pidx cmpl q) :
    ¬ SurvivesFailure env conf ring pidx q := by
  intro h
  unfold CallbackFails at hfail
  rw [if_pos hused] at hfail
  obtain ⟨hfit, hanswer⟩ := hfail
  have hround := @Passes.entryRound_packet env _ _ pidx _ _ hpass hused
  rw [if_neg (not_lt.mpr hfit), if_pos hanswer] at hround
  have havail : q.rx.avail - flNr conf q.rx.flq cmpl.len = q.rx.avail :=
    congrArg (fun q => q.rx.avail) (h.intact _ hround)
  have hpos : 0 < flNr conf q.rx.flq cmpl.len := getFlNr_pos hbuf cmpl.len
  omega

theorem rcvUddOnly_eq (env : C2hEnv) (entry : ℕ) (q : C2hQueue) :
    rcvUddOnly env entry q = (env.fpDescqC2hPacket q.callbacks.length (uddCall entry),
      q.log (q.callbacks ++ [uddCall entry])) := rfl

theorem cmptNext_log (calls : List PacketCall) (q : C2hQueue) :
    cmptNext conf (q.log calls) = (cmptNext conf q).log calls := by
  unfold cmptNext C2hQueue.log
  dsimp only
  split <;> rfl

/-- The record of the calls does not matter to the checks. -/
theorem Passes.log (hpass : Passes conf ring q cmpl) (calls : List PacketCall) :
    Passes conf ring (q.log calls) cmpl :=
  ⟨hpass.parse, hpass.check, hpass.color⟩

/-- Failed callbacks for user data leave nothing but the calls. -/
theorem Passes.retry_udd (hpass : Passes conf ring q cmpl) (hused : cmpl.descUsed = false)
    (h : retry env conf ring pidx n q = some q') :
    ∃ calls, q' = q.log (q.callbacks ++ calls) ∧ buffersOf calls = [] ∧
      accepted env (q.callbacks ++ calls) = accepted env q.callbacks := by
  induction n generalizing q with
  | zero =>
    obtain rfl := Option.some.inj h
    refine ⟨[], ?_, rfl, ?_⟩
    · rw [List.append_nil]
      rfl
    · rw [List.append_nil]
  | succ n ih =>
    unfold retry at h
    rw [hpass.entryRound_udd hused, rcvUddOnly_eq] at h
    dsimp only at h
    by_cases hrv : env.fpDescqC2hPacket q.callbacks.length (uddCall cmpl.entry) < 0
    · rw [if_pos hrv] at h
      obtain ⟨calls, rfl, hnone, haccepted⟩ := ih (hpass.log _) h
      have hcalls : (q.log (q.callbacks ++ [uddCall cmpl.entry])).callbacks ++ calls =
          q.callbacks ++ uddCall cmpl.entry :: calls := by
        unfold C2hQueue.log
        rw [List.append_assoc]
        rfl
      rw [hcalls] at haccepted ⊢
      refine ⟨uddCall cmpl.entry :: calls, rfl, ?_, ?_⟩
      · unfold buffersOf at hnone ⊢
        rw [List.flatMap_cons, hnone]
        rfl
      · rw [haccepted]
        unfold C2hQueue.log
        rw [accepted_append_singleton, if_neg (not_le.mpr hrv), List.append_nil]
    · rw [if_neg hrv] at h
      cases h

/-- A failed callback for an entry without descriptors does no harm. -/
theorem Passes.survivesFailure_udd (hpass : Passes conf ring q cmpl)
    (hused : cmpl.descUsed = false) : SurvivesFailure env conf ring pidx q where
  intact q' h := by
    have hone : retry env conf ring pidx 1 q = some q' := by
      unfold retry
      rw [h]
      rfl
    obtain ⟨calls, rfl, -, -⟩ := hpass.retry_udd hused hone
    rfl
  released n q' h := by
    obtain ⟨calls, rfl, hnone, -⟩ := hpass.retry_udd hused h
    unfold C2hQueue.log
    dsimp only
    rw [List.drop_left, hnone]
    exact List.nil_subperm
  later n q' h next q'' hround := by
    obtain ⟨calls, rfl, -, haccepted⟩ := hpass.retry_udd hused h
    rw [(hpass.log _).entryRound_udd hused, rcvUddOnly_eq] at hround
    dsimp only at hround
    split_ifs at hround with hrv
    obtain ⟨rfl, rfl⟩ := Round.taken.inj hround
    refine ⟨⟨(cmptNext conf q).log (q.callbacks ++ [uddCall cmpl.entry]), ?_, ?_⟩,
      uddCall cmpl.entry, ?_⟩
    · rw [hpass.entryRound_udd hused, rcvUddOnly_eq, ← cmptNext_log]
      rfl
    · rw [cmptNext_log, cmptNext_log]
      rfl
    · rw [cmptNext_log, ← haccepted]
      unfold C2hQueue.log at hrv ⊢
      dsimp only at hrv ⊢
      rw [accepted_append_singleton, if_pos (not_lt.mp hrv)]

/-- The queue survives a failed callback exactly if the entry uses no descriptors. -/
theorem callbackFails_survives_iff (hbuf : 0 < conf.c2hBufsz) (hpass : Passes conf ring q cmpl)
    (hfail : CallbackFails env conf pidx cmpl q) :
    SurvivesFailure env conf ring pidx q ↔ cmpl.descUsed = false := by
  constructor
  · intro h
    cases hused : cmpl.descUsed with
    | true => exact absurd h (hpass.not_intact hbuf hused hfail)
    | false => rfl
  · intro hused
    exact hpass.survivesFailure_udd hused

end

/-! ## A callback that fails once -/

/-- Four descriptors with a page each, for packets and user data. -/
def retrying : C2hConf :=
  { rngsz := 4, rngszCmpt := 4, cmptEntryLen := 8, c2hBufsz := 4096, cmplUddEn := true }

/-- The first callback finds no memory for the packet. -/
def failingOnce : C2hEnv := { inTurn with
  fpDescqC2hPacket := fun n _ => if n = 0 then -ENOMEM else 0 }

/-- The queue after its setup. -/
def retryingQueue : C2hQueue :=
  let r := descqFlqAllocResource inTurn.toPageEnv retrying.c2hBufsz true true
    (allocFlq 12 retrying) {}
  { rx := { flq := r.2.1, heap := r.2.2, avail := retrying.rngsz - 1 } }

/-- The completion entry of a packet of 64 bytes. -/
def packetEntry : ℕ := 64 * 2 ^ 4 + 2 ^ 3 + 2

/-- The failed callback for a packet loses its descriptor. -/
theorem retryingQueue_not_survives :
    ∃ cmpl, Passes retrying (fun _ => packetEntry) retryingQueue cmpl ∧
      CallbackFails failingOnce retrying 0 cmpl retryingQueue ∧
      ¬ SurvivesFailure failingOnce retrying (fun _ => packetEntry) 0 retryingQueue := by
  have hpass : Passes retrying (fun _ => packetEntry) retryingQueue (parseCmplEntry packetEntry) :=
    ⟨rfl, by decide, by decide⟩
  have hfail : CallbackFails failingOnce retrying 0 (parseCmplEntry packetEntry) retryingQueue := by
    unfold CallbackFails
    rw [if_pos (by decide)]
    exact ⟨by decide, by decide⟩
  exact ⟨_, hpass, hfail, hpass.not_intact (by decide) (by decide) hfail⟩

/-- The failed callback for user data is made up for. -/
theorem retryingQueue_survives :
    SurvivesFailure failingOnce retrying (fun _ => 2) 0 retryingQueue := by
  have hpass : Passes retrying (fun _ => 2) retryingQueue (parseCmplEntry 2) :=
    ⟨rfl, by decide, by decide⟩
  have hfail : CallbackFails failingOnce retrying 0 (parseCmplEntry 2) retryingQueue := by
    unfold CallbackFails
    rw [if_neg (by decide)]
    decide
  exact (callbackFails_survives_iff (by decide) hpass hfail).mpr (by decide)

end OnicDriver.C2h
