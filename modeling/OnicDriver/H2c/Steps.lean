import OnicDriver.H2c.Running
import Mathlib.Logic.Relation

/-!
# The steps of a processing call

A processing call is a sequence of steps of six kinds. What each step keeps, every
call keeps, whatever its fuel and its scripts.
-/

namespace OnicDriver.H2c

open Lib Queue

/-- A step of a processing call. -/
inductive CallStep (conf : QueueConf) : Descq → Descq → Prop
  /-- The completion status is looked at. -/
  | look (q : Descq) : CallStep conf q (descqMmNH2cCmplStatus conf q)
  /-- A flag of the queue changes. -/
  | flags (q : Descq) (running : Bool) : CallStep conf q { q with procReqRunning := running }
  /-- The PIDX value is set aside. -/
  | aside (q : Descq) (empty : Bool) (pend : ℕ) (doorbells : List Bool) :
    CallStep conf q { q with
      pendListEmpty := empty, descPend := pend, doorbells := doorbells, pidxInfoPidx := q.pidx }
  /-- The PIDX value is set aside and posted. -/
  | post (q : Descq) (empty : Bool) (pend : ℕ) (doorbells : List Bool) :
    CallStep conf q { q with
      pendListEmpty := empty, descPend := pend, doorbells := doorbells, pidxInfoPidx := q.pidx
      posted := q.pidx }
  /-- A pass over the first request. -/
  | pass {q : Descq} {id : ReqId} {rest : List ReqId} (hwork : q.workList = id :: rest) :
    CallStep conf q (passOf conf id q).2
  /-- The callback fills descriptors for the first request. -/
  | fill {q : Descq} {id : ReqId} {rest : List ReqId} {fill : Descq → ReqId → Fill}
    (hext : conf.ulExt = some fill) (hwork : q.workList = id :: rest) :
    CallStep conf q (fpBypassDescFill conf fill id q).2

/-- A sequence of steps. -/
abbrev CallSteps (conf : QueueConf) : Descq → Descq → Prop := Relation.ReflTransGen (CallStep conf)

section

variable {conf : QueueConf} {q q' : Descq}

theorem CallSteps.look : CallSteps conf q (descqMmNH2cCmplStatus conf q) :=
  .single (.look q)

theorem CallSteps.poll : CallSteps conf q (descqPollMmNH2cCmplStatus conf q) := by
  unfold descqPollMmNH2cCmplStatus
  split
  · exact (Relation.ReflTransGen.single (.flags q true)).trans CallSteps.look
  · exact .refl

theorem CallSteps.passes {fuel n : ℕ} {r : ℕ × Descq}
    (hr : H2c.passes (passOf conf) fuel n q = some r) : CallSteps conf q r.2 := by
  induction fuel generalizing q n with
  | zero =>
    unfold H2c.passes at hr
    split at hr
    · cases hr
      exact .refl
    · cases hr
  | succ fuel ih =>
    unfold H2c.passes at hr
    split at hr
    · cases hr
      exact .refl
    · rename_i id rest hwork
      have hpass : CallSteps conf q (passOf conf id q).2 := .single (.pass hwork)
      dsimp only at hr
      split at hr
      · rename_i hres
        rw [hres] at hpass
        cases hr
        exact hpass
      · rename_i hres
        rw [hres] at hpass
        exact hpass.trans (ih hr)

theorem CallSteps.finishRequests (doorbell : Bool) (n : ℕ) :
    CallSteps conf q (finishRequests conf doorbell n q).2 := by
  unfold H2c.finishRequests
  split
  · exact .single (.flags q false)
  · split
    · have hpost := @CallStep.post conf q false q.descPend q.doorbells
      exact ((Relation.ReflTransGen.single hpost).trans CallSteps.poll).tail (.flags _ false)
    · exact .single (.aside q false q.descPend q.doorbells)

theorem CallSteps.procRequest {fuel : ℕ} {doorbell : Bool} {r : ℤ × Descq}
    (hr : procRequest conf (passOf conf) fuel doorbell q = some r) : CallSteps conf q r.2 := by
  unfold H2c.procRequest at hr
  split at hr
  · cases hr
    exact CallSteps.look
  · split at hr
    · cases hr
      exact .refl
    · split at hr
      · cases hr
        exact .refl
      · obtain ⟨w, hw, rfl⟩ := Option.map_eq_some_iff.mp hr
        exact (CallSteps.poll.trans (CallSteps.passes hw)).trans (CallSteps.finishRequests _ _)

theorem CallSteps.qepFill {fill : Descq → ReqId → Fill} (hext : conf.ulExt = some fill)
    {fuel n : ℕ} {r : ℕ × Descq} (hr : qepFill conf fill fuel n q = some r) :
    CallSteps conf q r.2 := by
  induction fuel generalizing q n with
  | zero =>
    unfold H2c.qepFill at hr
    split at hr
    · cases hr
      exact .refl
    · split at hr
      · cases hr
        exact .refl
      · cases hr
  | succ fuel ih =>
    unfold H2c.qepFill at hr
    split at hr
    · cases hr
      exact .refl
    · split at hr
      · cases hr
        exact .refl
      · rename_i id rest hwork
        have hfill : CallSteps conf q (fpBypassDescFill conf fill id q).2 :=
          .single (.fill hext hwork)
        dsimp only at hr
        split at hr
        · cases hr
          exact hfill
        · split at hr
          · cases hr
            exact hfill
          · exact hfill.trans (ih hr)

/-- The end of a round sets the PIDX value aside, and may post it. -/
theorem CallSteps.endRound (n : ℕ) : CallSteps conf q
    (qdmaPidxUpdate conf { q with descPend := n, pidxInfoPidx := q.pidx } false).2 := by
  unfold qdmaPidxUpdate queuePidxUpdate
  split
  · dsimp only
    cases q.doorbells with
    | nil => exact .single (.post q q.pendListEmpty 0 [])
    | cons b rest =>
      cases b with
      | false => exact .single (.aside q q.pendListEmpty n rest)
      | true => exact .single (.post q q.pendListEmpty 0 rest)
  · exact .single (.aside q q.pendListEmpty n q.doorbells)

theorem CallSteps.qepRounds {fill : Descq → ReqId → Fill} (hext : conf.ulExt = some fill)
    {fuel : ℕ} {r : Option ℤ × Descq} (hr : qepRounds conf fill fuel q = some r) :
    CallSteps conf q r.2 := by
  induction fuel generalizing q with
  | zero => cases hr
  | succ fuel ih =>
    unfold H2c.qepRounds at hr
    split at hr
    · cases hr
    · rename_i written q₁ hfilled
      have hround : CallSteps conf q q₁ := CallSteps.qepFill hext hfilled
      split at hr
      · cases hr
        exact hround
      · have hend := hround.trans (CallSteps.endRound ((q₁.descPend + written) % 2 ^ 8))
        dsimp only at hr
        split at hr
        · cases hr
          exact hend
        · split at hr
          · exact hend.trans (ih hr)
          · cases hr
            exact hend

theorem CallSteps.descqProcStH2cRequestQep {fill : Descq → ReqId → Fill}
    (hext : conf.ulExt = some fill) {fuel : ℕ} {r : ℤ × Descq}
    (hr : descqProcStH2cRequestQep conf fill fuel q = some r) : CallSteps conf q r.2 := by
  induction fuel generalizing q r with
  | zero => cases hr
  | succ fuel ih =>
    unfold H2c.descqProcStH2cRequestQep at hr
    split at hr
    · cases hr
      exact CallSteps.look
    · split at hr
      · cases hr
        exact .refl
      · split at hr
        · cases hr
        · rename_i hrounds
          cases hr
          exact CallSteps.qepRounds hext hrounds
        · rename_i hrounds
          obtain ⟨w, hw, rfl⟩ := Option.map_eq_some_iff.mp hr
          exact (CallSteps.qepRounds hext hrounds).trans (ih (r := w) hw)

/-- A processing call is a sequence of steps. -/
theorem CallSteps.process {fuel : ℕ} {doorbell : Bool} {r : ℤ × Descq}
    (hr : qdmaDescqProcSgtRequest conf fuel doorbell q = some r) : CallSteps conf q r.2 := by
  unfold qdmaDescqProcSgtRequest at hr
  split at hr
  · rename_i hst
    refine @CallSteps.procRequest _ _ fuel doorbell _ ?_
    unfold passOf
    rw [if_neg (by rw [hst]; exact Bool.false_ne_true)]
    exact hr
  · rename_i hst
    have hproc : ∀ r, H2c.descqProcStH2cRequest conf fuel doorbell q = some r →
        CallSteps conf q r.2 := by
      intro r hr
      refine @CallSteps.procRequest _ _ fuel doorbell _ ?_
      unfold passOf
      rw [if_pos (Bool.eq_true_of_not_eq_false hst)]
      exact hr
    split at hr
    · split at hr
      · rename_i fill hext
        split at hr
        · exact CallSteps.descqProcStH2cRequestQep hext hr
        · exact hproc r hr
      · exact hproc r hr
    · cases hr
      exact .refl

/-- So is the service of a completion. -/
theorem CallSteps.service {fuel : ℕ} {doorbell : Bool} {r : ℤ × Descq}
    (hr : qdmaDescqServiceCmplUpdate conf fuel doorbell q = some r) : CallSteps conf q r.2 := by
  unfold qdmaDescqServiceCmplUpdate at hr
  split at hr
  · split at hr
    · obtain ⟨w, hw, rfl⟩ := Option.map_eq_some_iff.mp hr
      exact CallSteps.process (r := w) hw
    · cases hr
      exact .refl
  · dsimp only at hr
    split at hr
    · exact CallSteps.look.trans (CallSteps.process hr)
    · cases hr
      exact CallSteps.look

/-- A call of a client, which may never return, is a sequence of steps behind its scripts. -/
theorem CallSteps.call {fuel : ℕ} {doorbell : Bool} :
    CallSteps conf q (afterCall q (qdmaDescqProcSgtRequest conf fuel doorbell q)) := by
  cases hcall : qdmaDescqProcSgtRequest conf fuel doorbell q with
  | none => exact .refl
  | some r => exact CallSteps.process hcall

theorem CallSteps.serviceCall {fuel : ℕ} {doorbell : Bool} :
    CallSteps conf q (afterCall q (qdmaDescqServiceCmplUpdate conf fuel doorbell q)) := by
  cases hcall : qdmaDescqServiceCmplUpdate conf fuel doorbell q with
  | none => exact .refl
  | some r => exact CallSteps.service hcall

end

end OnicDriver.H2c
