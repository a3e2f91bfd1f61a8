import Mathlib.Data.List.Basic

/-!
# Runs of a deterministic system

A run is the fold of a step function over a list of events. An invariant that
every admitted step preserves holds after every run whose steps are all
admitted; whether a step is admitted may depend on the state before it.
-/

namespace OnicDriver.Lib

variable {σ ε : Type*} (step : σ → ε → σ)

/-- The state after the events of a list. -/
def run (s : σ) (es : List ε) : σ := es.foldl step s

/-- Every event of the run is admitted in the state before it. -/
def Admitted (ok : σ → ε → Prop) : σ → List ε → Prop
  | _, [] => True
  | s, e :: es => ok s e ∧ Admitted ok (step s e) es

instance Admitted.decidable {ok : σ → ε → Prop} [∀ s e, Decidable (ok s e)] :
    ∀ (s : σ) (es : List ε), Decidable (Admitted step ok s es)
  | _, [] => isTrue trivial
  | s, e :: es =>
    have : Decidable (Admitted step ok (step s e) es) := Admitted.decidable (step s e) es
    inferInstanceAs (Decidable (ok s e ∧ Admitted step ok (step s e) es))

/-- A property holds before the first event of a run and after every event. -/
def Always (P : σ → Prop) : σ → List ε → Prop
  | s, [] => P s
  | s, e :: es => P s ∧ Always P (step s e) es

variable {step}

@[simp] theorem run_nil (s : σ) : run step s [] = s := rfl

@[simp] theorem run_cons (s : σ) (e : ε) (es : List ε) :
    run step s (e :: es) = run step (step s e) es := rfl

@[simp] theorem run_append (s : σ) (es fs : List ε) :
    run step s (es ++ fs) = run step (run step s es) fs := List.foldl_append ..

/-- The run rule: an invariant of the admitted steps holds after an admitted run. -/
theorem Admitted.invariant {ok : σ → ε → Prop} {I : σ → Prop}
    (hstep : ∀ s e, I s → ok s e → I (step s e)) {s : σ} {es : List ε} (hs : I s)
    (h : Admitted step ok s es) : I (run step s es) := by
  induction es generalizing s with
  | nil => exact hs
  | cons e es ih => exact ih (hstep s e hs h.1) h.2

/-- A condition on the events alone admits every run made of them. -/
theorem admitted_of_forall {ok : ε → Prop} {es : List ε} (h : ∀ e ∈ es, ok e) (s : σ) :
    Admitted step (fun _ e => ok e) s es := by
  induction es generalizing s with
  | nil => trivial
  | cons e es ih =>
    exact ⟨h e List.mem_cons_self, ih (fun f hf => h f (List.mem_cons_of_mem _ hf)) _⟩

/-- Weaker admission conditions admit more runs. -/
theorem Admitted.imp {ok ok' : σ → ε → Prop} (himp : ∀ s e, ok s e → ok' s e) {s : σ}
    {es : List ε} (h : Admitted step ok s es) : Admitted step ok' s es := by
  induction es generalizing s with
  | nil => trivial
  | cons e es ih => exact ⟨himp _ _ h.1, ih h.2⟩

/-- Two conditions that admit a run admit it together. -/
theorem Admitted.and {ok ok' : σ → ε → Prop} {s : σ} {es : List ε} (h : Admitted step ok s es)
    (h' : Admitted step ok' s es) : Admitted step (fun s e => ok s e ∧ ok' s e) s es := by
  induction es generalizing s with
  | nil => trivial
  | cons e es ih => exact ⟨⟨h.1, h'.1⟩, ih h.2 h'.2⟩

/-- The rule of good steps: where the admitted steps keep an invariant and are good in the states
that have it, the steps of admitted runs are good. -/
theorem Admitted.steps {ok good : σ → ε → Prop} {I : σ → Prop}
    (hstep : ∀ s e, I s → ok s e → I (step s e)) (hgood : ∀ s e, I s → ok s e → good s e) {s : σ}
    {es : List ε} (hs : I s) (h : Admitted step ok s es) : Admitted step good s es := by
  induction es generalizing s with
  | nil => trivial
  | cons e es ih => exact ⟨hgood s e hs h.1, ih (hstep s e hs h.1) h.2⟩

/-- The rule of equivalent conditions: where two conditions agree in the states that have an
invariant, and steps that meet the second one keep the invariant, the admitted runs whose steps meet
the one are those whose steps meet the other. -/
theorem Admitted.congr {ok good good' : σ → ε → Prop} {I : σ → Prop}
    (hstep : ∀ s e, I s → ok s e → good' s e → I (step s e))
    (hiff : ∀ s e, I s → ok s e → (good s e ↔ good' s e)) {s : σ} {es : List ε} (hs : I s)
    (h : Admitted step ok s es) : Admitted step good s es ↔ Admitted step good' s es := by
  induction es generalizing s with
  | nil => exact Iff.rfl
  | cons e es ih =>
    constructor
    · rintro ⟨hgood, hrest⟩
      have hgood' := (hiff s e hs h.1).mp hgood
      exact ⟨hgood', (ih (hstep s e hs h.1 hgood') h.2).mp hrest⟩
    · rintro ⟨hgood', hrest⟩
      exact ⟨(hiff s e hs h.1).mpr hgood', (ih (hstep s e hs h.1 hgood') h.2).mpr hrest⟩

/-- A property that an invariant gives holds throughout the runs whose steps keep the invariant. -/
theorem Admitted.always {ok good : σ → ε → Prop} {I P : σ → Prop} (hI : ∀ s, I s → P s)
    (hstep : ∀ s e, I s → ok s e → good s e → I (step s e)) {s : σ} {es : List ε} (hs : I s)
    (h : Admitted step ok s es) (hgood : Admitted step good s es) : Always step P s es := by
  induction es generalizing s with
  | nil => exact hI s hs
  | cons e es ih => exact ⟨hI s hs, ih (hstep s e hs h.1 hgood.1) h.2 hgood.2⟩

/-- A run in two parts is admitted when both are. -/
theorem admitted_append {ok : σ → ε → Prop} {s : σ} {es fs : List ε} :
    Admitted step ok s (es ++ fs) ↔
      Admitted step ok s es ∧ Admitted step ok (run step s es) fs := by
  induction es generalizing s with
  | nil => exact ⟨fun h => ⟨trivial, h⟩, fun h => h.2⟩
  | cons e es ih => exact (and_congr_right fun _ => ih).trans and_assoc.symm

/-- Admitted events that follow an admitted run. -/
theorem Admitted.append {ok : σ → ε → Prop} {s : σ} {es fs : List ε}
    (h : Admitted step ok s es) (hrest : Admitted step ok (run step s es) fs) :
    Admitted step ok s (es ++ fs) :=
  admitted_append.mpr ⟨h, hrest⟩

/-- A property that holds throughout a run holds at its start. -/
theorem Always.start {P : σ → Prop} {s : σ} {es : List ε} (h : Always step P s es) : P s := by
  cases es with
  | nil => exact h
  | cons e es => exact h.1

/-- A property that holds throughout a run holds at its end. -/
theorem Always.final {P : σ → Prop} {s : σ} {es : List ε} (h : Always step P s es) :
    P (run step s es) := by
  induction es generalizing s with
  | nil => exact h
  | cons e es ih => exact ih h.2

/-- The rule of the exact condition: where good steps keep the invariant, which gives the property,
and the others lose the property, it holds throughout the runs of good steps. -/
theorem Admitted.always_iff {ok good : σ → ε → Prop} {I P : σ → Prop} (hI : ∀ s, I s → P s)
    (hgood : ∀ s e, I s → ok s e → good s e → I (step s e))
    (hbad : ∀ s e, I s → ok s e → ¬ good s e → ¬ P (step s e)) {s : σ} {es : List ε} (hs : I s)
    (h : Admitted step ok s es) : Always step P s es ↔ Admitted step good s es := by
  induction es generalizing s with
  | nil => exact ⟨fun _ => trivial, fun _ => hI s hs⟩
  | cons e es ih =>
    constructor
    · rintro ⟨-, hrest⟩
      have hstep : good s e := by
        by_contra hnot
        exact hbad s e hs h.1 hnot hrest.start
      exact ⟨hstep, (ih (hgood s e hs h.1 hstep) h.2).mp hrest⟩
    · rintro ⟨hstep, hrest⟩
      exact ⟨hI s hs, (ih (hgood s e hs h.1 hstep) h.2).mpr hrest⟩

/-- The rule of a counted loop: the invariant holds before the first pass, and every pass takes it
from its index to the next. -/
theorem foldl_range_invariant {op : σ → ℕ → σ} {I : ℕ → σ → Prop} {s : σ} (h0 : I 0 s) {n : ℕ}
    (hstep : ∀ i < n, ∀ s, I i s → I (i + 1) (op s i)) : I n ((List.range n).foldl op s) := by
  induction n with
  | zero => exact h0
  | succ n ih =>
    rw [List.range_succ, List.foldl_append]
    exact hstep n (Nat.lt_succ_self n) _ (ih fun i hi => hstep i (Nat.lt_succ_of_lt hi))

/-! ## What the steps of a run yield -/

variable (step) in
/-- What the steps of a run yield, one after the other. -/
def collect {α : Type*} (f : σ → ε → List α) : σ → List ε → List α
  | _, [] => []
  | s, e :: es => f s e ++ collect f (step s e) es

/-- The rule of conservation: where each admitted step puts what it takes in at the end of a list
and takes what it gives out off the list, the list at the end of a run is a part of what was in it
and was taken in, in that order, and the rest is what was given out. -/
theorem Admitted.conserved {α : Type*} {ok : σ → ε → Prop} {I : σ → Prop} {L : σ → List α}
    {f g : σ → ε → List α} (hstep : ∀ s e, I s → ok s e → I (step s e))
    (horder : ∀ s e, I s → ok s e → (L (step s e)).Sublist (L s ++ f s e))
    (hperm : ∀ s e, I s → ok s e → (L (step s e) ++ g s e).Perm (L s ++ f s e)) {s : σ}
    {es : List ε} (hs : I s) (h : Admitted step ok s es) :
    (L (run step s es)).Sublist (L s ++ collect step f s es) ∧
      (L (run step s es) ++ collect step g s es).Perm (L s ++ collect step f s es) := by
  induction es generalizing s with
  | nil => exact ⟨List.sublist_append_left _ _, List.Perm.refl _⟩
  | cons e es ih =>
    obtain ⟨hsub, hrest⟩ := ih (hstep s e hs h.1) h.2
    have hone := horder s e hs h.1
    constructor
    · rw [run_cons, collect, ← List.append_assoc]
      exact hsub.trans (hone.append (List.Sublist.refl _))
    · rw [run_cons, collect, collect]
      set s' := step s e
      set out := collect step g s' es
      set taken := collect step f s' es
      have hswap : (L (run step s' es) ++ (g s e ++ out)).Perm (L s' ++ (taken ++ g s e)) := by
        rw [← List.append_assoc (L s')]
        refine (List.perm_append_comm.append_left _).trans ?_
        rw [← List.append_assoc]
        exact hrest.append_right _
      have hgive : (L s' ++ (g s e ++ taken)).Perm (L s ++ (f s e ++ taken)) := by
        rw [← List.append_assoc, ← List.append_assoc]
        exact (hperm s e hs h.1).append_right _
      exact (hswap.trans (List.perm_append_comm.append_left _)).trans hgive

end OnicDriver.Lib
