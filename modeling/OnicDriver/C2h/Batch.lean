import OnicDriver.C2h.Rounds
import Mathlib.Algebra.BigOperators.Group.List.Basic

/-!
# Batches of completion entries

What the rounds of one call did so far: the descriptors used follow the producer
index, the packets taken refer to them in order, and all else about the free
list is as it was before the call. An entry whose callback fails may take
descriptors off the count of free ones.
-/

namespace OnicDriver.C2h

open Lib

/-- The memory that a buffer stands for. -/
def place (s : SwSg) : ℕ × ℕ × ℕ := (s.pg, s.offset, s.dmaAddr)

/-- The calls of the packet callback that took what they were called with. -/
def accepted (env : C2hEnv) (calls : List PacketCall) : List PacketCall :=
  (calls.zipIdx.filter fun c => decide (0 ≤ env.fpDescqC2hPacket c.2 c.1)).map Prod.fst

/-- The packets use descriptors that follow each other from `start` on. -/
def Consecutive (rngsz : ℕ) : ℕ → List PacketCall → Prop
  | _, [] => True
  | start, call :: calls =>
    (call.sgcnt ≠ 0 → call.first = start % rngsz) ∧
      Consecutive rngsz (start + call.sgcnt) calls

instance Consecutive.decidable (rngsz : ℕ) :
    ∀ (start : ℕ) (calls : List PacketCall), Decidable (Consecutive rngsz start calls)
  | _, [] => isTrue trivial
  | start, call :: calls =>
    have : Decidable (Consecutive rngsz (start + call.sgcnt) calls) :=
      Consecutive.decidable rngsz (start + call.sgcnt) calls
    inferInstanceAs (Decidable (_ ∧ _))

/-- The number of descriptors of a list of packets. -/
def descsOf (calls : List PacketCall) : ℕ := (calls.map PacketCall.sgcnt).sum

/-- The buffers of a list of packets. -/
def buffersOf (calls : List PacketCall) : List SwSg := calls.flatMap PacketCall.sgl

section

variable {env : C2hEnv}

@[simp] theorem accepted_nil : accepted env [] = [] := rfl

theorem accepted_append_singleton (calls : List PacketCall) (call : PacketCall) :
    accepted env (calls ++ [call]) = accepted env calls ++
      if 0 ≤ env.fpDescqC2hPacket calls.length call then [call] else [] := by
  unfold accepted
  rw [List.zipIdx_append, List.filter_append, List.map_append, Nat.zero_add]
  congr 1
  by_cases htaken : 0 ≤ env.fpDescqC2hPacket calls.length call
  · simp [htaken]
  · simp [htaken]

theorem consecutive_append {rngsz start : ℕ} {calls calls' : List PacketCall} :
    Consecutive rngsz start (calls ++ calls') ↔
      Consecutive rngsz start calls ∧ Consecutive rngsz (start + descsOf calls) calls' := by
  induction calls generalizing start with
  | nil => simp [Consecutive, descsOf]
  | cons call calls ih =>
    have hsum : start + descsOf (call :: calls) = start + call.sgcnt + descsOf calls := by
      simp [descsOf, Nat.add_assoc]
    rw [List.cons_append, Consecutive, Consecutive, ih, hsum, and_assoc]

theorem descsOf_append (calls calls' : List PacketCall) :
    descsOf (calls ++ calls') = descsOf calls + descsOf calls' := by
  simp [descsOf]

/-- Whether packets follow each other depends on where they start in the ring only. -/
theorem consecutive_mod {rngsz start start' : ℕ} (h : start % rngsz = start' % rngsz)
    {calls : List PacketCall} :
    Consecutive rngsz start calls ↔ Consecutive rngsz start' calls := by
  induction calls generalizing start start' with
  | nil => exact Iff.rfl
  | cons call calls ih =>
    have hnext : (start + call.sgcnt) % rngsz = (start' + call.sgcnt) % rngsz := by
      rw [← Nat.mod_add_mod, h, Nat.mod_add_mod]
    rw [Consecutive, Consecutive, h, ih hnext]

end

/-! ## The state in a batch -/

/-- A queue before a batch of entries: the indices are in range, and the last call ended with the
packets it took. -/
structure BatchStart (conf : C2hConf) (q : C2hQueue) : Prop where
  bufsz : 0 < conf.c2hBufsz
  avail : q.rx.avail < conf.rngsz
  pidx : q.pidx < conf.rngsz
  pidxPend : q.rx.flq.pidxPend = q.pidx
  cidx : q.cidxCmpt < conf.rngszCmpt

/-- The queue after `k` entries of a batch, with `j` callbacks that took theirs, and `t` descriptors
used. -/
structure Batch (env : C2hEnv) (conf : C2hConf) (q₀ : C2hQueue) (k j t : ℕ) (q : C2hQueue) :
    Prop where
  flq : ∃ f, q.rx.flq = { q₀.rx.flq with sdesc := f, pidxPend := (q₀.pidx + t) % conf.rngsz } ∧
    ∀ i, place (f i) = place (q₀.rx.flq.sdesc i)
  heap : q.rx.heap = q₀.rx.heap
  avail : q.rx.avail + t ≤ q₀.rx.avail
  pidx : q.pidx = q₀.pidx
  cidx : q.cidxCmpt = (q₀.cidxCmpt + k) % conf.rngszCmpt
  info : q.cmptCidxInfo = q₀.cmptCidxInfo
  stop : q.qStopWait = q₀.qStopWait
  err : q.err = q₀.err
  calls : ∃ new, accepted env q.callbacks = accepted env q₀.callbacks ++ new ∧
    Consecutive conf.rngsz q₀.pidx new ∧ new.length = j ∧ descsOf new = t ∧
    (buffersOf new).map place =
      (List.range t).map fun i => place (q₀.rx.flq.sdesc ((q₀.pidx + i) % conf.rngsz))

section

variable {env : C2hEnv} {conf : C2hConf} {ring : ℕ → ℕ} {pidx k j t : ℕ} {q₀ q : C2hQueue}

theorem BatchStart.batch (h : BatchStart conf q) : Batch env conf q 0 0 0 q where
  flq := ⟨q.rx.flq.sdesc, by rw [Nat.add_zero, Nat.mod_eq_of_lt h.pidx, ← h.pidxPend],
    fun _ => rfl⟩
  heap := rfl
  avail := le_rfl
  pidx := rfl
  cidx := (Nat.mod_eq_of_lt h.cidx).symm
  info := rfl
  stop := rfl
  err := rfl
  calls := ⟨[], (List.append_nil _).symm, trivial, rfl, rfl, rfl⟩

/-- Writing the length of a buffer. -/
theorem place_lastLen (pidx len : ℕ) (flq : Flq) (i : ℕ) :
    place ((lastLen conf pidx len flq).sdesc i) = place (flq.sdesc i) := by
  unfold lastLen
  dsimp only
  by_cases heq : i = ringIdxIncr pidx (flNr conf flq len - 1) conf.rngsz
  · rw [heq, Function.update_self]
    rfl
  · rw [Function.update_of_ne heq]

/-- The free list after the length of a buffer was written. -/
theorem Batch.lastLen (h : Batch env conf q₀ k j t q) (pidx len : ℕ) :
    ∃ f, C2h.lastLen conf pidx len q.rx.flq =
        { q₀.rx.flq with sdesc := f, pidxPend := (q₀.pidx + t) % conf.rngsz } ∧
      ∀ i, place (f i) = place (q₀.rx.flq.sdesc i) := by
  obtain ⟨f, hflq, hf⟩ := h.flq
  refine ⟨(C2h.lastLen conf pidx len q.rx.flq).sdesc, ?_, fun i => ?_⟩
  · unfold C2h.lastLen
    rw [hflq]
  · rw [place_lastLen, hflq]
    exact hf i

/-- The number of descriptors of a packet, from the free list before the batch. -/
theorem Batch.flNr (h : Batch env conf q₀ k j t q) (len : ℕ) :
    C2h.flNr conf q.rx.flq len = C2h.flNr conf q₀.rx.flq len := by
  obtain ⟨f, hflq, -⟩ := h.flq
  unfold C2h.flNr
  rw [hflq]

/-- The completion cursor moves on. -/
theorem cmptNext_cidx {cidx : ℕ} (hpos : 0 < conf.rngszCmpt)
    (hcidx : q.cidxCmpt = cidx % conf.rngszCmpt) :
    (cmptNext conf q).cidxCmpt = (cidx + 1) % conf.rngszCmpt := by
  have hlt := Nat.mod_lt cidx hpos
  rw [← Nat.mod_add_mod]
  unfold cmptNext
  dsimp only
  split
  · rename_i hwrap
    rw [← hcidx, hwrap, Nat.mod_self]
  · rename_i hwrap
    rw [hcidx] at hwrap ⊢
    rw [Nat.mod_eq_of_lt (a := cidx % conf.rngszCmpt + 1) (by omega)]

/-- Moving the completion cursor changes nothing else of a batch. -/
theorem Batch.next (hpos : 0 < conf.rngszCmpt) (h : Batch env conf q₀ k j t q) :
    Batch env conf q₀ (k + 1) j t (cmptNext conf q) := by
  have hcidx := cmptNext_cidx hpos h.cidx
  rw [Nat.add_assoc] at hcidx
  have hsame : (cmptNext conf q).rx = q.rx ∧ (cmptNext conf q).pidx = q.pidx ∧
      (cmptNext conf q).cmptCidxInfo = q.cmptCidxInfo ∧
      (cmptNext conf q).qStopWait = q.qStopWait ∧ (cmptNext conf q).err = q.err ∧
      (cmptNext conf q).callbacks = q.callbacks := by
    unfold cmptNext
    split <;> exact ⟨rfl, rfl, rfl, rfl, rfl, rfl⟩
  obtain ⟨hrx, hpidx, hinfo, hstop, herr, hcalls⟩ := hsame
  refine ⟨?_, ?_, ?_, hpidx.trans h.pidx, hcidx, hinfo.trans h.info, hstop.trans h.stop,
    herr.trans h.err, ?_⟩
  · rw [hrx]
    exact h.flq
  · rw [hrx]
    exact h.heap
  · rw [hrx]
    exact h.avail
  · rw [hcalls]
    exact h.calls

/-- A callback that did not take its packet. -/
theorem Batch.failed (h : Batch env conf q₀ k j t q) {len entry : ℕ}
    (hanswer : q.answer env conf pidx len entry < 0) :
    Batch env conf q₀ k j t (q.handed conf pidx len entry) := by
  have havail := h.avail
  unfold C2hQueue.answer at hanswer
  refine ⟨h.lastLen pidx len, h.heap, ?_, h.pidx, h.cidx, h.info, h.stop, h.err, ?_⟩
  · unfold C2hQueue.handed
    dsimp only
    omega
  · unfold C2hQueue.handed
    dsimp only
    rw [accepted_append_singleton, if_neg (not_le.mpr hanswer), List.append_nil]
    exact h.calls

/-- A callback that failed to take user data. -/
theorem Batch.uddFailed (h : Batch env conf q₀ k j t q) {entry : ℕ}
    (hrv : (rcvUddOnly env entry q).1 < 0) :
    Batch env conf q₀ k j t (rcvUddOnly env entry q).2 := by
  refine ⟨h.flq, h.heap, h.avail, h.pidx, h.cidx, h.info, h.stop, h.err, ?_⟩
  unfold rcvUddOnly C2hQueue.callback at hrv ⊢
  dsimp only at hrv ⊢
  rw [accepted_append_singleton, if_neg (not_le.mpr hrv), List.append_nil]
  exact h.calls

/-- A callback that took user data. -/
theorem Batch.uddTaken (h : Batch env conf q₀ k j t q) {entry : ℕ}
    (hrv : 0 ≤ (rcvUddOnly env entry q).1) :
    Batch env conf q₀ k (j + 1) t (rcvUddOnly env entry q).2 := by
  obtain ⟨new, hnew, hconsec, hlength, hsum, hplaces⟩ := h.calls
  refine ⟨h.flq, h.heap, h.avail, h.pidx, h.cidx, h.info, h.stop, h.err, ?_⟩
  unfold rcvUddOnly C2hQueue.callback at hrv ⊢
  dsimp only at hrv ⊢
  rw [accepted_append_singleton, if_pos hrv, hnew, List.append_assoc]
  refine ⟨_, rfl, ?_, ?_, ?_, ?_⟩
  · exact consecutive_append.mpr ⟨hconsec, fun h => absurd rfl h, trivial⟩
  · rw [List.length_append, hlength]
    rfl
  · rw [descsOf_append, hsum]
    rfl
  · rw [← hplaces]
    simp [buffersOf]

/-- A packet that the callback took. -/
theorem Batch.packet (hstart : BatchStart conf q₀) (h : Batch env conf q₀ k j t q) {len entry : ℕ}
    (hfit : C2h.flNr conf q.rx.flq len ≤ q.rx.avail)
    (hanswer : 0 ≤ q.answer env conf ((q₀.pidx + t) % conf.rngsz) len entry) :
    nextPidx conf ((q₀.pidx + t) % conf.rngsz) len q =
        (q₀.pidx + (t + C2h.flNr conf q.rx.flq len)) % conf.rngsz ∧
      Batch env conf q₀ k (j + 1) (t + C2h.flNr conf q.rx.flq len)
        ((q.handed conf ((q₀.pidx + t) % conf.rngsz) len entry).taken
          (nextPidx conf ((q₀.pidx + t) % conf.rngsz) len q)) := by
  have hnr : 0 < C2h.flNr conf q.rx.flq len := getFlNr_pos hstart.bufsz len
  have havail := h.avail
  have hbound := hstart.avail
  have hnext : nextPidx conf ((q₀.pidx + t) % conf.rngsz) len q =
      (q₀.pidx + (t + C2h.flNr conf q.rx.flq len)) % conf.rngsz := by
    unfold nextPidx
    rw [ringIdxIncr_mod _ (by omega) (by omega), ringIdxIncr_mod _ (by omega) (by omega)]
    congr 1
    omega
  obtain ⟨f, hflq, hf⟩ := h.lastLen ((q₀.pidx + t) % conf.rngsz) len
  obtain ⟨new, hnew, hconsec, hlength, hsum, hplaces⟩ := h.calls
  refine ⟨hnext, ⟨f, ?_, hf⟩, h.heap, ?_, h.pidx, h.cidx, h.info, h.stop, h.err,
    new ++ [packetCall conf (C2h.lastLen conf ((q₀.pidx + t) % conf.rngsz) len q.rx.flq)
      ((q₀.pidx + t) % conf.rngsz) len (C2h.flNr conf q.rx.flq len) entry], ?_, ?_, ?_, ?_, ?_⟩
  · rw [hnext]
    unfold C2hQueue.taken C2hQueue.handed
    dsimp only
    rw [hflq]
  · unfold C2hQueue.taken C2hQueue.handed
    dsimp only
    omega
  · unfold C2hQueue.taken C2hQueue.handed
    dsimp only
    rw [accepted_append_singleton, hnew, List.append_assoc]
    congr 2
    exact if_pos hanswer
  · refine consecutive_append.mpr ⟨hconsec, fun _ => ?_, trivial⟩
    rw [hsum]
    rfl
  · rw [List.length_append, hlength]
    rfl
  · rw [descsOf_append, hsum]
    rfl
  · rw [List.range_add, List.map_append, ← hplaces]
    unfold buffersOf
    rw [List.flatMap_append, List.map_append]
    congr 1
    simp only [List.flatMap_cons, List.flatMap_nil, List.append_nil, packetCall, List.map_map]
    refine List.map_congr_left fun i hi => ?_
    have hlt := List.mem_range.mp hi
    simp only [Function.comp_apply]
    rw [ringIdxIncr_mod _ (by omega) (by omega), hflq, Nat.add_assoc]
    exact hf _

/-- An entry taken. -/
theorem Batch.taken (hstart : BatchStart conf q₀) (h : Batch env conf q₀ k j t q) {next : ℕ}
    {q' : C2hQueue}
    (hround : entryRound env conf ring ((q₀.pidx + t) % conf.rngsz) q = .taken next q') :
    ∃ t', t ≤ t' ∧ next = (q₀.pidx + t') % conf.rngsz ∧
      Batch env conf q₀ (k + 1) (j + 1) t' q' := by
  have hpos : 0 < conf.rngszCmpt := Nat.zero_lt_of_lt hstart.cidx
  obtain ⟨cmpl, -, ⟨hfit, hanswer, rfl, rfl⟩ | ⟨hrv, rfl, rfl⟩⟩ := entryRound_taken hround
  · obtain ⟨hnext, hbatch⟩ := h.packet hstart hfit hanswer
    exact ⟨_, Nat.le_add_right _ _, hnext, hbatch.next hpos⟩
  · exact ⟨t, le_rfl, rfl, (h.uddTaken hrv).next hpos⟩

/-- The round that stops the loop. -/
theorem Batch.stopped (h : Batch env conf q₀ k j t q) {q' : C2hQueue}
    (hround : entryRound env conf ring pidx q = .stopped q') : Batch env conf q₀ k j t q' := by
  rcases entryRound_stopped hround with rfl | ⟨cmpl, -, rfl | ⟨-, hanswer, rfl⟩ | ⟨hrv, rfl⟩⟩
  · exact h
  · exact ⟨h.lastLen pidx cmpl.len, h.heap, h.avail, h.pidx, h.cidx, h.info, h.stop, h.err,
      h.calls⟩
  · exact h.failed hanswer
  · exact h.uddFailed hrv

/-- The queue before an entry that the rounds of a call get to. -/
theorem BatchStart.afterRounds (hstart : BatchStart conf q₀)
    (h : afterRounds env conf ring k q₀.pidx q₀ = some (pidx, q)) :
    ∃ t, pidx = (q₀.pidx + t) % conf.rngsz ∧ Batch env conf q₀ k k t q := by
  refine afterRounds_invariant
    (I := fun k p s => ∃ t, p = (q₀.pidx + t) % conf.rngsz ∧ Batch env conf q₀ k k t s) ?_ ?_ h
  · exact ⟨0, (Nat.mod_eq_of_lt hstart.pidx).symm, hstart.batch⟩
  · rintro k p s next s' ⟨t, rfl, hbatch⟩ hround
    obtain ⟨t', -, hnext, hbatch'⟩ := hbatch.taken hstart hround
    exact ⟨t', hnext, hbatch'⟩

/-- The queue after the loop. -/
theorem BatchStart.processEntries (hstart : BatchStart conf q₀) {n : ℕ}
    (h : processEntries env conf ring n q₀.pidx q₀ = .ok (k, pidx, q)) :
    k ≤ n ∧ ∃ t, pidx = (q₀.pidx + t) % conf.rngsz ∧ Batch env conf q₀ k k t q := by
  obtain ⟨hle, s, hafter, hlast⟩ := processEntries_ok h
  obtain ⟨t, hpidx, hbatch⟩ := hstart.afterRounds hafter
  refine ⟨hle, t, hpidx, ?_⟩
  rcases hlast with rfl | hstopped
  · exact hbatch
  · exact hbatch.stopped hstopped

end

end OnicDriver.C2h
