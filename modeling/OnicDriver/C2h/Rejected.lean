import OnicDriver.C2h.Calls
import OnicDriver.C2h.BufferCount

/-!
# Rejected completion entries

A call that meets an entry it rejects returns from the middle of its loop. The
completion cursor and the free descriptors already stand behind the entries
taken before, while the producer index and the completion register are set after
the loop only. The accounting is right exactly while no call has taken an entry
before it rejects one.
-/

namespace OnicDriver.C2h

open Lib

/-- The call gets to its entry number `k` and rejects it. -/
def Rejects (env : C2hEnv) (conf : C2hConf) (ring : ℕ → ℕ) (csPidx budget : ℕ) (q : C2hQueue)
    (k : ℕ) : Prop :=
  k < callCount conf csPidx budget q ∧ ∃ next s rv q',
    afterRounds env conf ring k q.pidx (looking conf csPidx q) = some (next, s) ∧
      entryRound env conf ring next s = .rejected rv q'

/-- Two queues with the same producer index, descriptors, count of free ones, completion cursor and
contents of the completion register. -/
structure SameAccounting (q q' : C2hQueue) : Prop where
  rx : q'.rx = q.rx
  pidx : q'.pidx = q.pidx
  cidx : q'.cidxCmpt = q.cidxCmpt
  cur : q'.descCmptCur = q.descCmptCur
  color : q'.color = q.color
  wrb : q'.cmptCidxInfo.wrbCidx = q.cmptCidxInfo.wrbCidx

/-- A call that rejects its entry number `k` leaves the accounting of a call that processed exactly
the `k` entries before. -/
def RejectsCleanly (env : C2hEnv) (conf : C2hConf) (s : CallState) : CallEvent → Prop
  | .process ring csPidx budget updCmpl =>
    s.q.err = false → ∀ k, Rejects env conf ring csPidx budget s.q k →
      ∃ rv q', descqProcessCompletionStC2h env conf ring csPidx budget updCmpl s.q =
          some (rv, q') ∧
        if k = 0 then SameAccounting s.q q' else
          ∃ q'', descqProcessCompletionStC2h env conf ring csPidx k updCmpl s.q = some (0, q'') ∧
            SameAccounting q'' q'
  | .drop _ => True

/-- A call that rejects an entry has taken none before. -/
def RejectsFirst (env : C2hEnv) (conf : C2hConf) (s : CallState) : CallEvent → Prop
  | .process ring csPidx budget _ =>
    s.q.err = false → ∀ k, Rejects env conf ring csPidx budget s.q k → k = 0
  | .drop _ => True

/-- The packets taken so far used descriptors that follow each other, and each entry taken was
delivered once. -/
def DeliveredInTurn (env : C2hEnv) (conf : C2hConf) (s : CallState) : Prop :=
  Consecutive conf.rngsz 0 (accepted env s.q.callbacks) ∧
    s.q.cidxCmpt = (accepted env s.q.callbacks).length % conf.rngszCmpt

/-- The queue between two calls: halted, or ready for the next batch. -/
structure CallInv (env : C2hEnv) (conf : C2hConf) (q : C2hQueue) : Prop where
  live : q.err = false → BatchStart conf q ∧ q.rx.flq.size = conf.rngsz ∧
    q.cmptCidxInfo.wrbCidx = q.cidxCmpt ∧ q.pidx = descsOf (accepted env q.callbacks) % conf.rngsz
  consecutive : Consecutive conf.rngsz 0 (accepted env q.callbacks)
  cursor : q.cidxCmpt = (accepted env q.callbacks).length % conf.rngszCmpt

section

variable {env : C2hEnv} {conf : C2hConf} {flqConf : FlqConf} {ring : ℕ → ℕ}
  {csPidx budget k t : ℕ} {q q' : C2hQueue} {s : CallState}

theorem Idle.callInv (h : Idle q q') (hq : CallInv env conf q) : CallInv env conf q' := by
  refine ⟨fun herr => ?_, ?_, ?_⟩
  · obtain ⟨hstart, hsize, hwrb, hpidx⟩ := hq.live (h.err.symm.trans herr)
    refine ⟨⟨hstart.bufsz, ?_, ?_, ?_, ?_⟩, ?_, ?_, ?_⟩
    · rw [h.rx]
      exact hstart.avail
    · rw [h.pidx]
      exact hstart.pidx
    · rw [h.rx, h.pidx]
      exact hstart.pidxPend
    · rw [h.cidx]
      exact hstart.cidx
    · rw [h.rx]
      exact hsize
    · rw [h.wrb, h.cidx]
      exact hwrb
    · rw [h.pidx, h.callbacks]
      exact hpidx
  · rw [h.callbacks]
    exact hq.consecutive
  · rw [h.cidx, h.callbacks]
    exact hq.cursor

/-- A refill of the descriptors of a batch, or none, keeps the indices and gives back at most the
descriptors used. -/
theorem Batch.refilled (h : Batch env conf q k k t q')
    {rx : FlqState}
    (hrx : (if t = 0 then some q'.rx else (qdmaFlqRefill env.toPageEnv conf.c2hBufsz true q.pidx t
      false q'.rx).map Prod.snd) = some rx) :
    SameLayout q'.rx.flq rx.flq ∧ rx.avail ≤ q.rx.avail := by
  have havail := h.avail
  split at hrx
  · obtain rfl := Option.some.inj hrx
    exact ⟨SameLayout.refl _, by omega⟩
  · obtain ⟨r, hrefill, rfl⟩ := Option.map_eq_some_iff.mp hrx
    have hcount := qdmaFlqRefill_avail hrefill
    exact ⟨qdmaFlqRefill_sameLayout hrefill, by omega⟩

/-- A call that ends without an error keeps the invariant. -/
theorem CallInv.ended (hq : CallInv env conf q) (hstart : BatchStart conf q)
    (hsize : q.rx.flq.size = conf.rngsz) (hwrb : q.cmptCidxInfo.wrbCidx = q.cidxCmpt)
    (hpidx : q.pidx = descsOf (accepted env q.callbacks) % conf.rngsz) {q₁ : C2hQueue}
    (h : Batch env conf q k k t q₁) {rx : FlqState}
    (hrx : (if t = 0 then some q₁.rx else (qdmaFlqRefill env.toPageEnv conf.c2hBufsz true q.pidx t
      false q₁.rx).map Prod.snd) = some rx) (hends : Ends conf q q₁ k t rx q') :
    CallInv env conf q' := by
  have hrngsz : 0 < conf.rngsz := Nat.zero_lt_of_lt hstart.pidx
  have hcmpt : 0 < conf.rngszCmpt := Nat.zero_lt_of_lt hstart.cidx
  have hbound := hstart.avail
  obtain ⟨hsame, havail⟩ := h.refilled hrx
  obtain ⟨f, hflq, -⟩ := h.flq
  obtain ⟨new, hnew, hconsec, hlength, hsum, -⟩ := h.calls
  have hmod : (0 + descsOf (accepted env q.callbacks)) % conf.rngsz = q.pidx % conf.rngsz := by
    rw [Nat.zero_add, hpidx, Nat.mod_mod]
  refine ⟨fun herr => ⟨⟨hstart.bufsz, ?_, ?_, ?_, ?_⟩, ?_, ?_, ?_⟩, ?_, ?_⟩
  · rw [hends.rx]
    omega
  · rw [hends.pidx]
    exact Nat.mod_lt _ hrngsz
  · rw [hends.rx, hends.pidx, hsame.pidxPend, hflq]
  · rw [hends.cidx, h.cidx]
    exact Nat.mod_lt _ hcmpt
  · rw [hends.rx, hsame.size, hflq]
    exact hsize
  · rw [hends.wrb, hends.cidx]
    split
    · rename_i hzero
      subst hzero
      rw [hwrb, h.cidx, Nat.add_zero, Nat.mod_eq_of_lt hstart.cidx]
    · rfl
  · rw [hends.pidx, hends.callbacks, hnew, descsOf_append, hsum, hpidx, Nat.mod_add_mod]
  · rw [hends.callbacks, hnew]
    exact consecutive_append.mpr ⟨hq.consecutive, (consecutive_mod hmod).mpr hconsec⟩
  · rw [hends.cidx, h.cidx, hends.callbacks, hnew, List.length_append, hlength, hq.cursor,
      Nat.mod_add_mod]

/-- An entry rejected at the start of a batch leaves the accounting alone. -/
theorem sameAccounting_of_rejected {rv : ℤ}
    (h : entryRound env conf ring q.pidx (looking conf csPidx q) = .rejected rv q') :
    SameAccounting q q' := by
  rcases entryRound_rejected h with ⟨-, rfl⟩ | ⟨cmpl, -, -, rfl⟩
  · exact ⟨rfl, rfl, rfl, rfl, rfl, rfl⟩
  · exact ⟨rfl, rfl, rfl, rfl, rfl, rfl⟩

/-- A step that rejects at most the first entry of a batch keeps the invariant. -/
theorem CallInv.step (h : CallInv env conf s.q) {e : CallEvent} (hok : CallAllowed conf s e)
    (hfirst : RejectsFirst env conf s e) : CallInv env conf (callStep env conf s e).q := by
  cases e with
  | drop b =>
    unfold callStep
    dsimp only
    split
    · refine ⟨fun herr => ?_, h.consecutive, h.cursor⟩
      obtain ⟨hstart, hrest⟩ := h.live herr
      exact ⟨⟨hstart.1, hstart.2, hstart.3, hstart.4, hstart.5⟩, hrest⟩
    · exact h
  | process ring csPidx budget updCmpl =>
    unfold callStep
    dsimp only
    cases herr : s.q.err with
    | true =>
      unfold descqProcessCompletionStC2h
      rw [if_pos herr]
      exact h
    | false =>
      obtain ⟨hstart, hsize, hwrb, hpidx⟩ := h.live herr
      have hcall := @BatchStart.process env _ _ hstart hsize ring csPidx budget updCmpl herr
      generalize descqProcessCompletionStC2h env conf ring csPidx budget updCmpl s.q = r at hcall
      cases hcall with
      | idle rv q' _ hidle => exact hidle.callInv h
      | rejected k t rv s' q' hk hafter hbatch hround =>
        obtain rfl := hfirst herr k ⟨hk, _, _, _, _, hafter, hround⟩
        obtain ⟨hnext, hs⟩ := Prod.mk.inj (Option.some.inj hafter)
        rw [← hnext, ← hs] at hround
        rcases entryRound_rejected hround with ⟨-, rfl⟩ | ⟨cmpl, -, -, rfl⟩
        · exact ⟨fun _ => ⟨⟨hstart.1, hstart.2, hstart.3, hstart.4, hstart.5⟩, hsize, hwrb, hpidx⟩,
            h.consecutive, h.cursor⟩
        · exact ⟨fun herr' => (nomatch herr'), h.consecutive, h.cursor⟩
      | ended k t q₁ fin hk hentries hbatch hzero hfin =>
        split
        · exact h
        · rename_i rv q' hsome
          obtain ⟨rx, hrx, heq⟩ := Option.map_eq_some_iff.mp hsome
          obtain rfl := (Prod.mk.inj heq).2
          exact h.ended hstart hsize hwrb hpidx hbatch hrx (hfin rx)

/-! ## Calls that reject an entry -/

theorem callCount_le (conf : C2hConf) (csPidx budget : ℕ) (q : C2hQueue) :
    callCount conf csPidx budget q ≤ ringIdxDelta csPidx q.cidxCmpt conf.rngszCmpt := by
  unfold callCount
  dsimp only
  split <;> omega

/-- The call ends with the error of the entry it rejects. -/
theorem Rejects.process (h : Rejects env conf ring csPidx budget q k) (herr : q.err = false)
    (updCmpl : Bool) :
    ∃ next s rv q', descqProcessCompletionStC2h env conf ring csPidx budget updCmpl q =
        some (rv, q') ∧
      afterRounds env conf ring k q.pidx (looking conf csPidx q) = some (next, s) ∧
      entryRound env conf ring next s = .rejected rv q' := by
  obtain ⟨hk, next, s, rv, q', hafter, hround⟩ := h
  have hle := callCount_le conf csPidx budget q
  refine ⟨next, s, rv, q', ?_, hafter, hround⟩
  have hentries := processEntries_of_rejected hk hafter hround
  unfold descqProcessCompletionStC2h
  rw [if_neg (by rw [herr]; decide)]
  dsimp only
  rw [if_neg (by omega)]
  have hcount : (if budget = 0 ∨ budget > ringIdxDelta csPidx q.cidxCmpt conf.rngszCmpt then
      ringIdxDelta csPidx q.cidxCmpt conf.rngszCmpt else budget) =
    callCount conf csPidx budget q := rfl
  have hlooking : { q with pktCnt := ringIdxDelta csPidx q.cidxCmpt conf.rngszCmpt } =
    looking conf csPidx q := rfl
  rw [hcount, hlooking, hentries]

/-- The call with a budget of exactly the entries taken. -/
theorem callCount_budget (hk : k < callCount conf csPidx budget q) (hpos : k ≠ 0) :
    callCount conf csPidx k q = k := by
  have hle := callCount_le conf csPidx budget q
  unfold callCount
  dsimp only
  rw [if_neg (by omega)]

/-- A call that took entries before it rejects one does not leave the accounting of the call that
took only these: the completion register is behind. -/
theorem Rejects.not_sameAccounting (h : Rejects env conf ring csPidx budget q k)
    (hstart : BatchStart conf q) (hsize : q.rx.flq.size = conf.rngsz)
    (hwrb : q.cmptCidxInfo.wrbCidx = q.cidxCmpt) (herr : q.err = false)
    (hcs : csPidx < conf.rngszCmpt) (hpos : k ≠ 0) {updCmpl : Bool} {rv : ℤ} {q'' : C2hQueue}
    (hcall : descqProcessCompletionStC2h env conf ring csPidx budget updCmpl q = some (rv, q'))
    (hshort : descqProcessCompletionStC2h env conf ring csPidx k updCmpl q = some (0, q'')) :
    ¬ SameAccounting q'' q' := by
  have hlt : k < conf.rngszCmpt := h.1.trans (callCount_lt hcs hstart.cidx)
  obtain ⟨next, s, rv', s', hcall', hafter, hround⟩ := h.process herr updCmpl
  obtain ⟨-, rfl⟩ := Prod.mk.inj (Option.some.inj (hcall.symm.trans hcall'))
  have hcount := callCount_budget h.1 hpos
  have hentries := processEntries_of_afterRounds hafter
  have hstart' : BatchStart conf (looking conf csPidx q) :=
    ⟨hstart.1, hstart.2, hstart.3, hstart.4, hstart.5⟩
  obtain ⟨t, -, hbatch⟩ := hstart'.afterRounds hafter
  -- the failing call leaves the completion register as it was
  have hold : q'.cmptCidxInfo.wrbCidx = q.cidxCmpt := by
    have hinfo : q'.cmptCidxInfo = s.cmptCidxInfo := by
      rcases entryRound_rejected hround with ⟨-, rfl⟩ | ⟨cmpl, -, -, rfl⟩ <;> rfl
    rw [hinfo, hbatch.info]
    exact hwrb
  -- the short call moves it behind the entries taken
  have hnew : q''.cmptCidxInfo.wrbCidx = (q.cidxCmpt + k) % conf.rngszCmpt := by
    have hend := @BatchStart.process env _ _ hstart hsize ring csPidx k updCmpl herr
    rw [hshort] at hend
    generalize hr : some ((0 : ℤ), q'') = r at hend
    cases hend with
    | idle rv q₁ hnone hidle => exact absurd (hcount.symm.trans hnone) hpos
    | rejected k₁ t₁ rv s₁ q₁ hk₁ hafter₁ hbatch₁ hround₁ =>
      have herror := processEntries_of_rejected hk₁ hafter₁ hround₁
      rw [hcount, hentries] at herror
      cases herror
    | ended k₁ t₁ q₁ fin hk₁ hentries₁ hbatch₁ hzero hfin =>
      rw [hcount, hentries] at hentries₁
      obtain rfl : k = k₁ := (Prod.mk.inj (Except.ok.inj hentries₁)).1
      obtain ⟨rx, -, heq⟩ := Option.map_eq_some_iff.mp hr.symm
      obtain rfl := (Prod.mk.inj heq).2
      rw [(hfin rx).wrb, if_neg hpos, hbatch₁.cidx]
  intro hsame
  have hmod : q.cidxCmpt % conf.rngszCmpt = (q.cidxCmpt + k) % conf.rngszCmpt :=
    (Nat.mod_eq_of_lt hstart.cidx).trans (hold.symm.trans (hsame.wrb.trans hnew))
  have := eq_of_mod_eq (r := q.cidxCmpt) (n := conf.rngszCmpt) le_rfl (by omega) (by omega)
    (by omega) hmod
  omega

/-- A step rejects cleanly exactly if it rejects at most the first entry of its batch. -/
theorem CallInv.rejectsCleanly_iff (h : CallInv env conf s.q) {e : CallEvent}
    (hok : CallAllowed conf s e) :
    RejectsCleanly env conf s e ↔ RejectsFirst env conf s e := by
  cases e with
  | drop b => exact Iff.rfl
  | process ring csPidx budget updCmpl =>
    constructor
    · intro hclean herr k hrejects
      obtain ⟨hstart, hsize, hwrb, -⟩ := h.live herr
      obtain ⟨rv, q', hcall, hsame⟩ := hclean herr k hrejects
      by_contra hpos
      rw [if_neg hpos] at hsame
      obtain ⟨q'', hshort, hsame⟩ := hsame
      exact hrejects.not_sameAccounting hstart hsize hwrb herr hok hpos hcall hshort hsame
    · intro hfirst herr k hrejects
      obtain rfl := hfirst herr k hrejects
      obtain ⟨next, t, rv, q', hcall, hafter, hround⟩ := hrejects.process herr updCmpl
      obtain ⟨rfl, rfl⟩ := Prod.mk.inj (Option.some.inj hafter)
      exact ⟨rv, q', hcall, by rw [if_pos rfl]; exact sameAccounting_of_rejected hround⟩

/-! ## Runs -/

/-- The setup leaves a queue that is ready for its first batch. -/
theorem ServedBy.callInv (hserved : ServedBy conf flqConf) {heap : PageHeap}
    (hsetup :
      (descqFlqAllocResource env.toPageEnv conf.c2hBufsz true true flqConf.flq heap).1 = 0) :
    CallInv env conf (callStart env conf flqConf heap).q := by
  have hpos := flqConf.size_pos
  generalize hr : descqFlqAllocResource env.toPageEnv conf.c2hBufsz true true flqConf.flq heap = r
    at hsetup
  obtain ⟨rv, flq, heap'⟩ := r
  dsimp only at hsetup
  subst hsetup
  obtain ⟨hsize, hpend⟩ := descqFlqAllocResource_kept hr
  have hrngsz := hserved.rngsz
  unfold callStart
  rw [hr]
  refine ⟨fun _ => ⟨⟨hserved.c2hBufsz_pos, ?_, ?_, hpend, hserved.rngszCmpt_pos⟩, ?_, rfl, rfl⟩,
    trivial, rfl⟩
  · dsimp only [qdmaDescqConfigComplete]
    omega
  · dsimp only [qdmaDescqConfigComplete]
    omega
  · exact hsize.trans hserved.rngsz.symm

/-- In every run the calls that reject an entry leave the accounting of the entries before it, and
the packets are delivered in turn from descriptors of their own, exactly if no call takes an entry
before it rejects one. -/
theorem calls_rejectCleanly_iff (hserved : ServedBy conf flqConf) {heap : PageHeap}
    (hsetup : (descqFlqAllocResource env.toPageEnv conf.c2hBufsz true true flqConf.flq heap).1 = 0)
    {es : List CallEvent}
    (hrun : Admitted (callStep env conf) (CallAllowed conf) (callStart env conf flqConf heap) es) :
    Admitted (callStep env conf) (RejectsCleanly env conf) (callStart env conf flqConf heap) es ∧
        Always (callStep env conf) (DeliveredInTurn env conf) (callStart env conf flqConf heap) es ↔
      Admitted (callStep env conf) (RejectsFirst env conf) (callStart env conf flqConf heap)
        es := by
  have hstart : CallInv env conf (callStart env conf flqConf heap).q := hserved.callInv hsetup
  have hcongr := hrun.congr (I := fun s => CallInv env conf s.q)
    (fun s e hs hok hfirst => hs.step hok hfirst) (fun s e hs hok => hs.rejectsCleanly_iff hok)
    hstart
  constructor
  · rintro ⟨hclean, -⟩
    exact hcongr.mp hclean
  · intro hfirst
    refine ⟨hcongr.mpr hfirst, ?_⟩
    exact hrun.always (I := fun s => CallInv env conf s.q)
      (fun s hs => ⟨hs.consecutive, hs.cursor⟩) (fun s e hs hok hgood => hs.step hok hgood) hstart
      hfirst

end

/-! ## A parser that refuses an entry -/

/-- Four descriptors with a page each, and a parser that refuses entry 0 and takes any other as a
packet of 64 bytes. -/
def refusing : C2hConf :=
  { rngsz := 4, rngszCmpt := 4, cmptEntryLen := 8, c2hBufsz := 4096
    fpProcUlCmptEntry := some fun entry =>
      if entry = 0 then .error (-EINVAL)
      else .ok { color := true, descUsed := true, len := 64, entry := entry } }

theorem refusingFlq_size_pos : 0 < 4 := by decide

/-- The free list of this queue. -/
def refusingFlq : FlqConf where
  size := 4
  shift := 12
  pgBits := 12
  size_pos := refusingFlq_size_pos
  size_lt := by decide
  shift_le := le_rfl
  pgBits_lt := ring64.pgBits_lt

/-- The first call takes a packet and meets an entry that the parser refuses; the parser takes the
entry when the next call looks at it. -/
def refusingRun : List CallEvent :=
  [.process (fun off => if off = 0 then 1 else 0) 2 0 true, .process (fun _ => 1) 2 0 true]

theorem refusing_servedBy : ServedBy refusing refusingFlq := ⟨rfl, by decide, by decide, by decide⟩

/-- The second packet is delivered from the descriptor of the first. -/
theorem refusingRun_not_rejectsCleanly :
    ServedBy refusing refusingFlq ∧
    (descqFlqAllocResource inTurn.toPageEnv refusing.c2hBufsz true true refusingFlq.flq {}).1 = 0 ∧
    Admitted (callStep inTurn refusing) (CallAllowed refusing)
      (callStart inTurn refusing refusingFlq {}) refusingRun ∧
    ¬ (Admitted (callStep inTurn refusing) (RejectsCleanly inTurn refusing)
        (callStart inTurn refusing refusingFlq {}) refusingRun ∧
      Always (callStep inTurn refusing) (DeliveredInTurn inTurn refusing)
        (callStart inTurn refusing refusingFlq {}) refusingRun) := by
  refine ⟨refusing_servedBy, by decide, by decide, ?_⟩
  rintro ⟨-, halways⟩
  have hlast := halways.final.1
  revert hlast
  decide

/-- The same calls without the refused entry. -/
def takingRun : List CallEvent :=
  [.process (fun _ => 1) 1 0 true, .process (fun _ => 1) 2 0 true]

/-- The parser takes every entry of this run. -/
theorem takingRun_rejectsFirst (s : CallState) (e : CallEvent) (he : e ∈ takingRun) :
    RejectsFirst inTurn refusing s e := by
  have htaken : ∀ csPidx budget (q : C2hQueue) k,
      ¬ Rejects inTurn refusing (fun _ => 1) csPidx budget q k := by
    rintro csPidx budget q k ⟨-, next, s, rv, q', -, hround⟩
    rcases entryRound_rejected hround with ⟨hparse, -⟩ | ⟨cmpl, hparse, hcheck, -⟩
    · cases hparse
    · obtain rfl := Except.ok.inj hparse
      revert hcheck
      decide
  rcases List.mem_cons.mp he with rfl | he
  · exact fun _ k h => absurd h (htaken _ _ _ k)
  · obtain rfl := List.mem_singleton.mp he
    exact fun _ k h => absurd h (htaken _ _ _ k)

theorem takingRun_rejectsCleanly :
    Admitted (callStep inTurn refusing) (RejectsCleanly inTurn refusing)
        (callStart inTurn refusing refusingFlq {}) takingRun ∧
      Always (callStep inTurn refusing) (DeliveredInTurn inTurn refusing)
        (callStart inTurn refusing refusingFlq {}) takingRun := by
  have hfirst : Admitted (callStep inTurn refusing) (fun _ e => e ∈ takingRun)
      (callStart inTurn refusing refusingFlq {}) takingRun :=
    admitted_of_forall (fun e he => he) _
  exact (calls_rejectCleanly_iff refusing_servedBy (by decide) (by decide)).mpr
    (hfirst.imp takingRun_rejectsFirst)

end OnicDriver.C2h
