import OnicDriver.C2h.Receive

/-!
# The rounds of completion processing

The loop of `descq_process_completion_st_c2h` as single rounds. A round rejects
its entry, stops the loop, or takes the entry. What a batch of rounds does to
the queue is described by the descriptors it used: they follow each other from
the producer index on, whatever the callbacks answer.
-/

namespace OnicDriver.C2h

open Lib

/-- The outcome of one round: the entry is rejected, the loop stops, or the entry is taken and the
next packet starts at descriptor `next`. -/
inductive Round
  | rejected (rv : ℤ) (q : C2hQueue)
  | stopped (q : C2hQueue)
  | taken (next : ℕ) (q : C2hQueue)

/-- One round of the loop of `descq_process_completion_st_c2h`. -/
def entryRound (env : C2hEnv) (conf : C2hConf) (ring : ℕ → ℕ) (pidx : ℕ) (q : C2hQueue) : Round :=
  match conf.parse (ring q.descCmptCur) with
  | .error rv => .rejected rv q
  | .ok cmpl =>
    if descqCmplErrCheck conf cmpl < 0 then
      .rejected (descqCmplErrCheck conf cmpl) { q with err := true }
    else if cmpl.color ≠ q.color then .stopped q
    else
      let (rv, next, q) := if cmpl.descUsed then rcvPkt env conf pidx cmpl.len cmpl.entry q
        else if conf.cmplUddEn then
          ((rcvUddOnly env cmpl.entry q).1, pidx, (rcvUddOnly env cmpl.entry q).2)
        else (0, pidx, q)
      if rv < 0 then .stopped q else .taken next (cmptNext conf q)

/-- The queue before entry number `k` of a call and the descriptor of its packet, if the entries
before it were taken. -/
def afterRounds (env : C2hEnv) (conf : C2hConf) (ring : ℕ → ℕ) :
    ℕ → ℕ → C2hQueue → Option (ℕ × C2hQueue)
  | 0, pidx, q => some (pidx, q)
  | k + 1, pidx, q =>
    match entryRound env conf ring pidx q with
    | .taken next q => afterRounds env conf ring k next q
    | _ => none

section

variable {env : C2hEnv} {conf : C2hConf} {ring : ℕ → ℕ} {pidx : ℕ} {q : C2hQueue}

/-- The loop round by round. -/
theorem processEntries_succ (n : ℕ) :
    processEntries env conf ring (n + 1) pidx q =
      match entryRound env conf ring pidx q with
      | .rejected rv q => .error (rv, q)
      | .stopped q => .ok (0, pidx, q)
      | .taken next q => (processEntries env conf ring n next q).map
          fun (procCnt, pidx, q) => (procCnt + 1, pidx, q) := by
  conv_lhs => unfold processEntries
  unfold entryRound
  cases conf.parse (ring q.descCmptCur) with
  | error rv => rfl
  | ok cmpl =>
    dsimp only
    by_cases hcheck : descqCmplErrCheck conf cmpl < 0
    · rw [if_pos hcheck, if_pos hcheck]
    · rw [if_neg hcheck, if_neg hcheck]
      by_cases hcolor : cmpl.color ≠ q.color
      · rw [if_pos hcolor, if_pos hcolor]
      · rw [if_neg hcolor, if_neg hcolor]
        generalize (if cmpl.descUsed then rcvPkt env conf pidx cmpl.len cmpl.entry q
          else if conf.cmplUddEn then
            ((rcvUddOnly env cmpl.entry q).1, pidx, (rcvUddOnly env cmpl.entry q).2)
          else (0, pidx, q)) = r
        obtain ⟨rv, next, q'⟩ := r
        dsimp only
        by_cases hrv : rv < 0
        · rw [if_pos hrv, if_pos hrv]
        · rw [if_neg hrv, if_neg hrv]

/-- The rounds one by one. -/
theorem afterRounds_succ {k : ℕ} {r : ℕ × C2hQueue} :
    afterRounds env conf ring (k + 1) pidx q = some r ↔
      ∃ next s, entryRound env conf ring pidx q = .taken next s ∧
        afterRounds env conf ring k next s = some r := by
  conv_lhs => unfold afterRounds
  cases hround : entryRound env conf ring pidx q with
  | rejected rv s => simp
  | stopped s => simp
  | taken next s => simp

/-- A call that ends without an error processed the entries taken, and at most stopped at the
next one. -/
theorem processEntries_ok {n k pidx' : ℕ} {q' : C2hQueue}
    (h : processEntries env conf ring n pidx q = .ok (k, pidx', q')) :
    k ≤ n ∧ ∃ s, afterRounds env conf ring k pidx q = some (pidx', s) ∧
      (q' = s ∨ entryRound env conf ring pidx' s = .stopped q') := by
  induction n generalizing k pidx q with
  | zero =>
    cases h
    exact ⟨le_rfl, _, rfl, Or.inl rfl⟩
  | succ n ih =>
    rw [processEntries_succ] at h
    cases hround : entryRound env conf ring pidx q with
    | rejected rv s =>
      rw [hround] at h
      cases h
    | stopped s =>
      rw [hround] at h
      cases h
      exact ⟨Nat.zero_le _, q, rfl, Or.inr hround⟩
    | taken next s =>
      rw [hround] at h
      dsimp only at h
      cases hrest : processEntries env conf ring n next s with
      | error e =>
        rw [hrest] at h
        cases h
      | ok r =>
        obtain ⟨k, p, t⟩ := r
        rw [hrest] at h
        cases h
        obtain ⟨hle, s', hafter, hlast⟩ := ih hrest
        exact ⟨Nat.succ_le_succ hle, s', afterRounds_succ.mpr ⟨next, s, hround, hafter⟩, hlast⟩

/-- A call that ends with an error rejected the entry after those taken. -/
theorem processEntries_error {n : ℕ} {rv : ℤ} {q' : C2hQueue}
    (h : processEntries env conf ring n pidx q = .error (rv, q')) :
    ∃ k < n, ∃ next s, afterRounds env conf ring k pidx q = some (next, s) ∧
      entryRound env conf ring next s = .rejected rv q' := by
  induction n generalizing pidx q with
  | zero => cases h
  | succ n ih =>
    rw [processEntries_succ] at h
    cases hround : entryRound env conf ring pidx q with
    | rejected rv' s =>
      rw [hround] at h
      cases h
      exact ⟨0, Nat.succ_pos n, pidx, q, rfl, hround⟩
    | stopped s =>
      rw [hround] at h
      cases h
    | taken next s =>
      rw [hround] at h
      dsimp only at h
      cases hrest : processEntries env conf ring n next s with
      | ok r =>
        rw [hrest] at h
        cases h
      | error e =>
        rw [hrest] at h
        cases h
        obtain ⟨k, hk, p, t, hafter, hrejected⟩ := ih hrest
        exact ⟨k + 1, Nat.succ_lt_succ hk, p, t, afterRounds_succ.mpr ⟨next, s, hround, hafter⟩,
          hrejected⟩

/-- A call whose budget is the number of entries taken. -/
theorem processEntries_of_afterRounds {k pidx' : ℕ} {q' : C2hQueue}
    (h : afterRounds env conf ring k pidx q = some (pidx', q')) :
    processEntries env conf ring k pidx q = .ok (k, pidx', q') := by
  induction k generalizing pidx q with
  | zero =>
    cases h
    rfl
  | succ k ih =>
    obtain ⟨next, s, hround, hrest⟩ := afterRounds_succ.mp h
    rw [processEntries_succ, hround]
    dsimp only
    rw [ih hrest]
    rfl

/-- A call that reaches a rejected entry ends with an error. -/
theorem processEntries_of_rejected {k n next : ℕ} {rv : ℤ} {s q' : C2hQueue} (hk : k < n)
    (h : afterRounds env conf ring k pidx q = some (next, s))
    (hrejected : entryRound env conf ring next s = .rejected rv q') :
    processEntries env conf ring n pidx q = .error (rv, q') := by
  induction k generalizing pidx q n with
  | zero =>
    obtain ⟨n, rfl⟩ : ∃ m, n = m + 1 := ⟨n - 1, by omega⟩
    cases h
    rw [processEntries_succ, hrejected]
  | succ k ih =>
    obtain ⟨n, rfl⟩ : ∃ m, n = m + 1 := ⟨n - 1, by omega⟩
    obtain ⟨next', s', hround, hrest⟩ := afterRounds_succ.mp h
    rw [processEntries_succ, hround]
    dsimp only
    rw [ih (by omega) hrest]
    rfl

/-- The rule of the rounds: what each taken entry keeps holds after all of them. -/
theorem afterRounds_invariant {I : ℕ → ℕ → C2hQueue → Prop} {k pidx' : ℕ} {q' : C2hQueue}
    (h0 : I 0 pidx q)
    (hstep : ∀ k p s next s', I k p s → entryRound env conf ring p s = .taken next s' →
      I (k + 1) next s')
    (h : afterRounds env conf ring k pidx q = some (pidx', q')) : I k pidx' q' := by
  induction k generalizing pidx q I with
  | zero =>
    cases h
    exact h0
  | succ k ih =>
    obtain ⟨next, s, hround, hrest⟩ := afterRounds_succ.mp h
    exact ih (I := fun k p s => I (k + 1) p s) (hstep 0 pidx q next s h0 hround)
      (fun k p s next s' hk hr => hstep (k + 1) p s next s' hk hr) hrest

/-! ## What a round does -/

/-- The entry passes the checks and is new. -/
structure Passes (conf : C2hConf) (ring : ℕ → ℕ) (q : C2hQueue) (cmpl : UlCmptInfo) : Prop where
  parse : conf.parse (ring q.descCmptCur) = .ok cmpl
  check : ¬ descqCmplErrCheck conf cmpl < 0
  color : cmpl.color = q.color

/-- An entry that uses no descriptors and passes the checks carries user data. -/
theorem Passes.udd {cmpl : UlCmptInfo} (h : Passes conf ring q cmpl)
    (hused : cmpl.descUsed = false) :
    conf.cmplUddEn = true := by
  have hcheck := h.check
  unfold descqCmplErrCheck at hcheck
  rw [hused] at hcheck
  cases hudd : conf.cmplUddEn with
  | true => rfl
  | false =>
    rw [hudd] at hcheck
    simp only [Bool.not_false, Bool.and_self, if_true] at hcheck
    split at hcheck <;> exact absurd (by decide) hcheck

/-- A round on an entry that passes the checks. -/
theorem Passes.entryRound {cmpl : UlCmptInfo} (h : Passes conf ring q cmpl) :
    entryRound env conf ring pidx q =
      if cmpl.descUsed then
        if (rcvPkt env conf pidx cmpl.len cmpl.entry q).1 < 0 then
          .stopped (rcvPkt env conf pidx cmpl.len cmpl.entry q).2.2
        else .taken (rcvPkt env conf pidx cmpl.len cmpl.entry q).2.1
          (cmptNext conf (rcvPkt env conf pidx cmpl.len cmpl.entry q).2.2)
      else if (rcvUddOnly env cmpl.entry q).1 < 0 then .stopped (rcvUddOnly env cmpl.entry q).2
      else .taken pidx (cmptNext conf (rcvUddOnly env cmpl.entry q).2) := by
  unfold OnicDriver.C2h.entryRound
  rw [h.parse]
  dsimp only
  rw [if_neg h.check, if_neg (not_not.mpr h.color)]
  cases hused : cmpl.descUsed with
  | true => rfl
  | false => simp [h.udd hused]

/-- The descriptor after the packet of an entry. -/
def nextPidx (conf : C2hConf) (pidx len : ℕ) (q : C2hQueue) : ℕ :=
  ringIdxIncr (ringIdxIncr pidx (flNr conf q.rx.flq len - 1) conf.rngsz) 1 conf.rngsz

/-- A round on a packet. -/
theorem Passes.entryRound_packet {cmpl : UlCmptInfo} (h : Passes conf ring q cmpl)
    (hused : cmpl.descUsed = true) :
    OnicDriver.C2h.entryRound env conf ring pidx q =
      if q.rx.avail < flNr conf q.rx.flq cmpl.len then
        .stopped { q with rx := { q.rx with flq := lastLen conf pidx cmpl.len q.rx.flq } }
      else if q.answer env conf pidx cmpl.len cmpl.entry < 0 then
        .stopped (q.handed conf pidx cmpl.len cmpl.entry)
      else .taken (nextPidx conf pidx cmpl.len q) (cmptNext conf
        ((q.handed conf pidx cmpl.len cmpl.entry).taken (nextPidx conf pidx cmpl.len q))) := by
  have hbusy : (-EBUSY : ℤ) < 0 := by decide
  rw [h.entryRound, hused, if_pos rfl, rcvPkt_eq]
  by_cases hfit : q.rx.avail < flNr conf q.rx.flq cmpl.len
  · rw [if_pos hfit, if_pos hfit]
    exact if_pos hbusy
  · rw [if_neg hfit, if_neg hfit]
    by_cases hanswer : q.answer env conf pidx cmpl.len cmpl.entry < 0
    · rw [if_pos hanswer, if_pos hanswer, if_pos hanswer]
    · rw [if_neg hanswer, if_neg hanswer]
      exact if_neg (lt_irrefl _)

/-- A round on user data without a packet. -/
theorem Passes.entryRound_udd {cmpl : UlCmptInfo} (h : Passes conf ring q cmpl)
    (hused : cmpl.descUsed = false) :
    OnicDriver.C2h.entryRound env conf ring pidx q =
      if (rcvUddOnly env cmpl.entry q).1 < 0 then .stopped (rcvUddOnly env cmpl.entry q).2
      else .taken pidx (cmptNext conf (rcvUddOnly env cmpl.entry q).2) := by
  rw [h.entryRound, hused, if_neg (by decide)]

/-- A rejected entry changes at most the error flag. -/
theorem entryRound_rejected {rv : ℤ} {q' : C2hQueue}
    (h : entryRound env conf ring pidx q = .rejected rv q') :
    (conf.parse (ring q.descCmptCur) = .error rv ∧ q' = q) ∨
      ∃ cmpl, conf.parse (ring q.descCmptCur) = .ok cmpl ∧ descqCmplErrCheck conf cmpl < 0 ∧
        q' = { q with err := true } := by
  unfold entryRound at h
  cases hparse : conf.parse (ring q.descCmptCur) with
  | error rv' =>
    rw [hparse] at h
    cases h
    exact Or.inl ⟨rfl, rfl⟩
  | ok cmpl =>
    rw [hparse] at h
    dsimp only at h
    split_ifs at h with hcheck
    cases h
    exact Or.inr ⟨cmpl, rfl, hcheck, rfl⟩

/-- An entry that is not rejected passes the checks, or has the color of the last lap. -/
theorem entryRound_not_rejected
    (h : ∀ rv q', entryRound env conf ring pidx q ≠ .rejected rv q') :
    entryRound env conf ring pidx q = .stopped q ∨ ∃ cmpl, Passes conf ring q cmpl := by
  unfold entryRound at h ⊢
  cases hparse : conf.parse (ring q.descCmptCur) with
  | error rv =>
    rw [hparse] at h
    exact absurd rfl (h rv q)
  | ok cmpl =>
    rw [hparse] at h
    dsimp only at h ⊢
    by_cases hcheck : descqCmplErrCheck conf cmpl < 0
    · rw [if_pos hcheck] at h
      exact absurd rfl (h _ _)
    · rw [if_neg hcheck]
      by_cases hcolor : cmpl.color = q.color
      · exact Or.inr ⟨cmpl, hparse, hcheck, hcolor⟩
      · exact Or.inl (if_pos hcolor)

/-- An entry taken is a packet that the callback took, or user data that it took. -/
theorem entryRound_taken {next : ℕ} {q' : C2hQueue}
    (h : entryRound env conf ring pidx q = .taken next q') :
    ∃ cmpl, Passes conf ring q cmpl ∧
      ((flNr conf q.rx.flq cmpl.len ≤ q.rx.avail ∧
          0 ≤ q.answer env conf pidx cmpl.len cmpl.entry ∧
          next = nextPidx conf pidx cmpl.len q ∧
          q' = cmptNext conf ((q.handed conf pidx cmpl.len cmpl.entry).taken next)) ∨
        (0 ≤ (rcvUddOnly env cmpl.entry q).1 ∧ next = pidx ∧
          q' = cmptNext conf (rcvUddOnly env cmpl.entry q).2)) := by
  rcases @entryRound_not_rejected env _ ring pidx _
    (fun rv s hrejected => by rw [hrejected] at h; cases h) with hstop | ⟨cmpl, hpass⟩
  · rw [hstop] at h
    cases h
  · refine ⟨cmpl, hpass, ?_⟩
    cases hused : cmpl.descUsed with
    | true =>
      rw [hpass.entryRound_packet hused] at h
      left
      split_ifs at h with hfit hanswer
      cases h
      exact ⟨not_lt.mp hfit, not_lt.mp hanswer, rfl, rfl⟩
    | false =>
      rw [hpass.entryRound_udd hused] at h
      right
      split_ifs at h with hrv
      cases h
      exact ⟨not_lt.mp hrv, rfl, rfl⟩

/-- Where the loop stops, the callback may have been called without taking the packet. -/
theorem entryRound_stopped {q' : C2hQueue} (h : entryRound env conf ring pidx q = .stopped q') :
    q' = q ∨ ∃ cmpl, Passes conf ring q cmpl ∧
      (q' = { q with rx := { q.rx with flq := lastLen conf pidx cmpl.len q.rx.flq } } ∨
        (flNr conf q.rx.flq cmpl.len ≤ q.rx.avail ∧
          q.answer env conf pidx cmpl.len cmpl.entry < 0 ∧
          q' = q.handed conf pidx cmpl.len cmpl.entry) ∨
        ((rcvUddOnly env cmpl.entry q).1 < 0 ∧ q' = (rcvUddOnly env cmpl.entry q).2)) := by
  rcases @entryRound_not_rejected env _ ring pidx _
    (fun rv s hrejected => by rw [hrejected] at h; cases h) with hstop | ⟨cmpl, hpass⟩
  · rw [hstop] at h
    cases h
    exact Or.inl rfl
  · refine Or.inr ⟨cmpl, hpass, ?_⟩
    cases hused : cmpl.descUsed with
    | true =>
      rw [hpass.entryRound_packet hused] at h
      split_ifs at h with hfit hanswer
      · cases h
        exact Or.inl rfl
      · cases h
        exact Or.inr (Or.inl ⟨not_lt.mp hfit, hanswer, rfl⟩)
    | false =>
      rw [hpass.entryRound_udd hused] at h
      split_ifs at h with hrv
      cases h
      exact Or.inr (Or.inr ⟨hrv, rfl⟩)

end

end OnicDriver.C2h
