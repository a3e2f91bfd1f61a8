import OnicDriver.Lifecycle.SlotRuns

/-!
# Ring sizes over restarts

A queue that is stopped and started again goes through
`qdma_descq_config_complete` again, which takes the next larger completion
ring each time and stores its index in the configuration. The sizes of the
first start are kept only where no further ring is left to move to.
-/

namespace OnicDriver.Lifecycle

open Lib Access Queue Setup

/-! ## The next larger ring -/

section

variable {ringSz : ℕ → ℕ} {v : ℕ}

/-- One step of the pass over the table. -/
def fitStep (ringSz : ℕ → ℕ) (v : ℕ) (best : Option (Fin 16)) (i : Fin 16) : Option (Fin 16) :=
  if v < ringSz i then
    match best with
    | none => some i
    | some b => if ringSz i < ringSz b then some i else best
  else best

/-- `best` is the smallest size above `v` among the entries of `l`. -/
def FitsBest (ringSz : ℕ → ℕ) (v : ℕ) (l : List (Fin 16)) : Option (Fin 16) → Prop
  | none => ∀ i ∈ l, ¬ v < ringSz i
  | some b => v < ringSz b ∧ ∀ i ∈ l, v < ringSz i → ringSz b ≤ ringSz i

theorem FitsBest.step {l : List (Fin 16)} {best : Option (Fin 16)}
    (h : FitsBest ringSz v l best) (i : Fin 16) :
    FitsBest ringSz v (l ++ [i]) (fitStep ringSz v best i) := by
  unfold fitStep
  by_cases hi : v < ringSz i
  · rw [if_pos hi]
    cases best with
    | none =>
      refine ⟨hi, fun j hj hlt => ?_⟩
      rcases List.mem_append.mp hj with hj | hj
      · exact absurd hlt (h j hj)
      · rw [List.mem_singleton.mp hj]
    | some b =>
      obtain ⟨hb, hmin⟩ := h
      dsimp only
      split
      · rename_i hlt
        refine ⟨hi, fun j hj hv => ?_⟩
        rcases List.mem_append.mp hj with hj | hj
        · have hle := hmin j hj hv
          omega
        · rw [List.mem_singleton.mp hj]
      · rename_i hge
        refine ⟨hb, fun j hj hv => ?_⟩
        rcases List.mem_append.mp hj with hj | hj
        · exact hmin j hj hv
        · rw [List.mem_singleton.mp hj]
          omega
  · rw [if_neg hi]
    cases best with
    | none =>
      intro j hj
      rcases List.mem_append.mp hj with hj | hj
      · exact h j hj
      · rw [List.mem_singleton.mp hj]
        exact hi
    | some b =>
      refine ⟨h.1, fun j hj hv => ?_⟩
      rcases List.mem_append.mp hj with hj | hj
      · exact h.2 j hj hv
      · rw [List.mem_singleton.mp hj] at hv
        exact absurd hv hi

theorem FitsBest.foldl {l : List (Fin 16)} {best : Option (Fin 16)}
    (h : FitsBest ringSz v l best) (l' : List (Fin 16)) :
    FitsBest ringSz v (l ++ l') (l'.foldl (fitStep ringSz v) best) := by
  induction l' generalizing l best with
  | nil =>
    rw [List.append_nil]
    exact h
  | cons i l' ih =>
    have hnext := ih (h.step i)
    rw [List.append_assoc] at hnext
    exact hnext

/-- The pass over the table finds the smallest larger ring. -/
theorem fitsBest_bestFitIdx : FitsBest ringSz v (List.finRange 16) (bestFitIdx ringSz v) := by
  have hnone : FitsBest ringSz v [] none := by
    intro i hi
    cases hi
  exact hnone.foldl (List.finRange 16)

/-- The ring that a configuration gets is the smallest larger one, or the one it asks for where
no ring is larger. -/
theorem cmplRngIdx_spec (ringSz : ℕ → ℕ) (conf : QdmaQueueConf) :
    (cmplRngIdx ringSz conf = conf.cmplRngSzIdx ∧
        ∀ i : Fin 16, ringSz i ≤ ringSz conf.cmplRngSzIdx) ∨
      ringSz conf.cmplRngSzIdx < ringSz (cmplRngIdx ringSz conf) ∧
        ∀ i : Fin 16, ringSz conf.cmplRngSzIdx < ringSz i →
          ringSz (cmplRngIdx ringSz conf) ≤ ringSz i := by
  have hspec : FitsBest ringSz (ringSz conf.cmplRngSzIdx) (List.finRange 16)
      (bestFitIdx ringSz (ringSz conf.cmplRngSzIdx)) := fitsBest_bestFitIdx
  unfold cmplRngIdx
  cases hbest : bestFitIdx ringSz (ringSz conf.cmplRngSzIdx) with
  | none =>
    rw [hbest] at hspec
    exact .inl ⟨rfl, fun i => Nat.le_of_not_lt (hspec i (List.mem_finRange i))⟩
  | some b =>
    rw [hbest] at hspec
    exact .inr ⟨hspec.1, fun i => hspec.2 i (List.mem_finRange i)⟩

end

/-! ## What a start changes -/

/-- The sizes of the rings of a queue, and where in the table they come from. -/
structure RingSizes where
  rngsz : ℕ
  rngszCmpt : ℕ
  descRngSzIdx : Fin 16
  cmplRngSzIdx : Fin 16
  deriving DecidableEq, Repr

/-- The ring sizes of a slot. -/
def Slot.sizes (s : Slot) : RingSizes where
  rngsz := s.descq.rngsz
  rngszCmpt := s.descq.rngszCmpt
  descRngSzIdx := s.conf.descRngSzIdx
  cmplRngSzIdx := s.conf.cmplRngSzIdx

/-- The slot with other resources. -/
def Slot.Rehoused (s s' : Slot) : Prop :=
  ∃ bus busCmpt desc descList descCmpt flq, s' =
    { s with
      desc := desc, descList := descList, descCmpt := descCmpt, flq := flq
      descq := { s.descq with descBus := bus, descCmptBus := busCmpt } }

section

variable {x : Xdev} {grant : Grant} {s s' s'' : Slot} {mem : Memory}

theorem Slot.Rehoused.refl (s : Slot) : s.Rehoused s :=
  ⟨s.descq.descBus, s.descq.descCmptBus, s.desc, s.descList, s.descCmpt, s.flq, rfl⟩

theorem Slot.Rehoused.trans (h : s.Rehoused s') (h' : s'.Rehoused s'') : s.Rehoused s'' := by
  obtain ⟨_, _, _, _, _, _, rfl⟩ := h
  obtain ⟨_, _, _, _, _, _, rfl⟩ := h'
  exact ⟨_, _, _, _, _, _, rfl⟩

theorem Slot.Rehoused.sizes (h : s.Rehoused s') : s'.sizes = s.sizes := by
  obtain ⟨_, _, _, _, _, _, rfl⟩ := h
  rfl

theorem Slot.Rehoused.conf (h : s.Rehoused s') : s'.conf = s.conf := by
  obtain ⟨_, _, _, _, _, _, rfl⟩ := h
  rfl

theorem Slot.Rehoused.startCheck (h : s.Rehoused s') : s'.startCheck x = s.startCheck x := by
  obtain ⟨_, _, _, _, _, _, rfl⟩ := h
  rfl

theorem Slot.Rehoused.qState (h : s.Rehoused s') : s'.qState = s.qState := by
  obtain ⟨_, _, _, _, _, _, rfl⟩ := h
  rfl

theorem freeDesc_rehoused (s : Slot) (mem : Memory) : s.Rehoused (freeDesc s mem).1 := by
  unfold freeDesc
  split
  · exact .refl s
  · exact ⟨_, _, _, _, _, _, rfl⟩

theorem freeDescCmpt_rehoused (s : Slot) (mem : Memory) : s.Rehoused (freeDescCmpt s mem).1 := by
  unfold freeDescCmpt
  split
  · exact .refl s
  · exact ⟨_, _, _, _, _, _, rfl⟩

theorem qdmaDescqFreeResource_rehoused (s : Slot) (mem : Memory) :
    s.Rehoused (qdmaDescqFreeResource s mem).1 :=
  (freeDesc_rehoused s mem).trans (freeDescCmpt_rehoused _ _)

theorem allocDesc_rehoused (grant : Grant) (s : Slot) (mem : Memory) :
    s.Rehoused (allocDesc grant s mem).2.1 := by
  unfold allocDesc
  split
  · exact .refl s
  · dsimp only
    split
    · exact ⟨_, _, _, _, _, _, rfl⟩
    · exact ⟨_, _, _, _, _, _, rfl⟩

theorem allocLists_rehoused (grant : Grant) (s : Slot) (mem : Memory) :
    s.Rehoused (allocLists grant s mem).2.1 := by
  unfold allocLists
  split
  · exact ⟨_, _, _, _, _, _, rfl⟩
  · split
    · exact ⟨_, _, _, _, _, _, rfl⟩
    · exact .refl s

theorem allocDescCmpt_rehoused (grant : Grant) (s : Slot) (mem : Memory) :
    s.Rehoused (allocDescCmpt grant s mem).2.1 := by
  unfold allocDescCmpt
  split
  · dsimp only
    split
    · exact ⟨_, _, _, _, _, _, rfl⟩
    · exact ⟨_, _, _, _, _, _, rfl⟩
  · exact .refl s

theorem qdmaDescqAllocResource_rehoused (grant : Grant) (s : Slot) (mem : Memory) :
    s.Rehoused (qdmaDescqAllocResource grant s mem).2.1 := by
  have hdesc := allocDesc_rehoused grant s mem
  unfold qdmaDescqAllocResource
  generalize allocDesc grant s mem = r at hdesc ⊢
  obtain ⟨_ | _, s₁, mem₁⟩ := r
  · exact hdesc.trans (qdmaDescqFreeResource_rehoused s₁ mem₁)
  have hlists := hdesc.trans (allocLists_rehoused grant s₁ mem₁)
  dsimp only
  generalize allocLists grant s₁ mem₁ = r at hlists ⊢
  obtain ⟨_ | _, s₂, mem₂⟩ := r
  · exact hlists.trans (qdmaDescqFreeResource_rehoused s₂ mem₂)
  have hcmpt := hlists.trans (allocDescCmpt_rehoused grant s₂ mem₂)
  dsimp only
  generalize allocDescCmpt grant s₂ mem₂ = r at hcmpt ⊢
  obtain ⟨_ | _, s₃, mem₃⟩ := r
  · exact hcmpt.trans (qdmaDescqFreeResource_rehoused s₃ mem₃)
  · exact hcmpt

/-- A stop leaves the queue as it is configured. -/
theorem Slot.stop_rehoused (s : Slot) (mem : Memory) :
    ∃ qState, Slot.Rehoused { s with qState := qState } (s.stop mem).2.1 := by
  unfold Slot.stop
  split
  · exact ⟨s.qState, .refl s⟩
  · exact ⟨.enabled, qdmaDescqFreeResource_rehoused _ mem⟩

/-- A start that goes through its checks completes the configuration, whatever comes of the start
after that. -/
theorem Slot.start_rehoused (grant : Grant) (ctxt : ℤ) (mem : Memory) (hon : s.qState = .enabled)
    (hcheck : ¬ s.startCheck x < 0) : ∃ qState,
    Slot.Rehoused { s.configComplete x with qState := qState } (s.start x grant ctxt mem).2.1 := by
  have halloc := qdmaDescqAllocResource_rehoused grant (s.configComplete x) mem
  unfold Slot.start
  rw [if_neg (not_not_intro hon), if_neg hcheck]
  generalize qdmaDescqAllocResource grant (s.configComplete x) mem = r at halloc ⊢
  obtain ⟨rv, s₁, mem₁⟩ := r
  dsimp only
  split
  · exact ⟨_, halloc⟩
  · split
    · exact ⟨_, halloc.trans (qdmaDescqFreeResource_rehoused s₁ mem₁)⟩
    · obtain ⟨_, _, _, _, _, _, rfl⟩ := halloc
      exact ⟨.online, _, _, _, _, _, _, rfl⟩

/-- A start that fails at the latest when the contexts are programmed leaves the queue ready for
the next one. -/
theorem Slot.start_rehoused_of_neg (grant : Grant) {ctxt : ℤ} (hctxt : ctxt < 0) (mem : Memory)
    (hon : s.qState = .enabled) (hcheck : ¬ s.startCheck x < 0) :
    (s.configComplete x).Rehoused (s.start x grant ctxt mem).2.1 := by
  have halloc := qdmaDescqAllocResource_rehoused grant (s.configComplete x) mem
  unfold Slot.start
  rw [if_neg (not_not_intro hon), if_neg hcheck]
  generalize qdmaDescqAllocResource grant (s.configComplete x) mem = r at halloc ⊢
  obtain ⟨rv, s₁, mem₁⟩ := r
  dsimp only
  rw [if_pos hctxt]
  split
  · exact halloc
  · exact halloc.trans (qdmaDescqFreeResource_rehoused s₁ mem₁)

/-- Any other start leaves the queue alone. -/
theorem Slot.start_of_refused (grant : Grant) (ctxt : ℤ) (mem : Memory)
    (h : ¬ (s.qState = .enabled ∧ ¬ s.startCheck x < 0)) :
    (s.start x grant ctxt mem).2.1 = s := by
  unfold Slot.start
  by_cases hon : s.qState = .enabled
  · have hcheck : s.startCheck x < 0 := Decidable.not_not.mp fun hc => h ⟨hon, hc⟩
    rw [if_neg (not_not_intro hon), if_pos hcheck]
  · rw [if_pos hon]

/-! ## The sizes of a completed configuration -/

theorem Slot.withCmpt_configComplete (x : Xdev) (s : Slot) :
    (s.configComplete x).conf.withCmpt = s.conf.withCmpt := by
  obtain ⟨i, hconf⟩ := Slot.configComplete_conf x s
  rw [hconf]
  rfl

theorem Slot.startCheck_configComplete (x : Xdev) (s : Slot) :
    (s.configComplete x).startCheck x = s.startCheck x := by
  obtain ⟨i, hconf⟩ := Slot.configComplete_conf x s
  unfold Slot.startCheck
  rw [hconf]
  rfl

theorem Slot.sizes_configComplete (x : Xdev) (s : Slot) : (s.configComplete x).sizes =
    if s.conf.withCmpt then
      { rngsz := u32 (x.csrInfo.ringSz s.conf.descRngSzIdx - 1)
        rngszCmpt := u32 (x.csrInfo.ringSz (cmplRngIdx x.csrInfo.ringSz s.conf) - 1)
        descRngSzIdx := s.conf.descRngSzIdx
        cmplRngSzIdx := cmplRngIdx x.csrInfo.ringSz s.conf }
    else
      { rngsz := u32 (x.csrInfo.ringSz s.conf.descRngSzIdx - 1)
        rngszCmpt := s.descq.rngszCmpt
        descRngSzIdx := s.conf.descRngSzIdx
        cmplRngSzIdx := s.conf.cmplRngSzIdx } := by
  unfold Slot.sizes Slot.configComplete Slot.conf qdmaDescqConfigComplete
  dsimp only
  split <;> rfl

/-- The sizes of a completed configuration depend on the sizes before it. -/
theorem Slot.sizes_configComplete_congr (hsizes : s'.sizes = s.sizes)
    (hcmpt : s'.conf.withCmpt = s.conf.withCmpt) :
    (s'.configComplete x).sizes = (s.configComplete x).sizes := by
  have hdesc : s'.conf.descRngSzIdx = s.conf.descRngSzIdx :=
    congrArg RingSizes.descRngSzIdx hsizes
  have hidx : s'.conf.cmplRngSzIdx = s.conf.cmplRngSzIdx :=
    congrArg RingSizes.cmplRngSzIdx hsizes
  have hsz : s'.descq.rngszCmpt = s.descq.rngszCmpt := congrArg RingSizes.rngszCmpt hsizes
  rw [Slot.sizes_configComplete, Slot.sizes_configComplete, hcmpt]
  unfold cmplRngIdx
  rw [hdesc, hidx, hsz]

/-- No further ring is left after the one that the queue gets at its first start. -/
def Slot.LastRing (x : Xdev) (s : Slot) : Prop :=
  s.conf.withCmpt = true → ∀ i j : Fin 16,
    x.csrInfo.ringSz s.conf.cmplRngSzIdx < x.csrInfo.ringSz i →
      ¬ x.csrInfo.ringSz i < x.csrInfo.ringSz j

instance (x : Xdev) (s : Slot) : Decidable (s.LastRing x) := by
  unfold Slot.LastRing
  infer_instance

/-- Completing a configuration twice is as completing it once, if and only if no further ring is
left. -/
theorem Slot.sizes_configComplete_twice_iff (x : Xdev) (s : Slot) :
    ((s.configComplete x).configComplete x).sizes = (s.configComplete x).sizes ↔
      s.LastRing x := by
  have hcmpt := Slot.withCmpt_configComplete x s
  unfold Slot.LastRing
  by_cases h : s.conf.withCmpt = true
  · have hone := Slot.sizes_configComplete x s
    rw [if_pos h] at hone
    have hdesc : (s.configComplete x).conf.descRngSzIdx = s.conf.descRngSzIdx :=
      congrArg RingSizes.descRngSzIdx hone
    have hidx : (s.configComplete x).conf.cmplRngSzIdx = cmplRngIdx x.csrInfo.ringSz s.conf :=
      congrArg RingSizes.cmplRngSzIdx hone
    have hfirst := cmplRngIdx_spec x.csrInfo.ringSz s.conf
    have hsecond := cmplRngIdx_spec x.csrInfo.ringSz (s.configComplete x).conf
    rw [Slot.sizes_configComplete x (s.configComplete x), if_pos (hcmpt.trans h), hone, hdesc]
    rw [hidx] at hsecond
    constructor
    · intro heq _ i j hi hj
      have hsame : cmplRngIdx x.csrInfo.ringSz (s.configComplete x).conf =
          cmplRngIdx x.csrInfo.ringSz s.conf := congrArg RingSizes.cmplRngSzIdx heq
      rw [hsame] at hsecond
      rcases hsecond with ⟨-, hmax⟩ | ⟨hlt, -⟩
      · have hjmax := hmax j
        rcases hfirst with ⟨-, hmax'⟩ | ⟨-, hmin⟩
        · have himax := hmax' i
          omega
        · have himin := hmin i hi
          omega
      · omega
    · intro hlast
      rcases hsecond with ⟨hsame, -⟩ | ⟨hlt, -⟩
      · rw [hsame]
      · rcases hfirst with ⟨hsame', hmax⟩ | ⟨hlt', -⟩
        · have hle := hmax (cmplRngIdx x.csrInfo.ringSz (s.configComplete x).conf)
          rw [hsame'] at hlt
          omega
        · exact absurd hlt (hlast h _ _ hlt')
  · constructor
    · exact fun _ hcontra => absurd hcontra h
    · intro _
      have hone := Slot.sizes_configComplete x s
      rw [if_neg h] at hone
      rw [Slot.sizes_configComplete x (s.configComplete x), hcmpt, if_neg h, hone]
      congr 1
      · rw [show (s.configComplete x).conf.descRngSzIdx = s.conf.descRngSzIdx from
          congrArg RingSizes.descRngSzIdx hone]
      · exact congrArg RingSizes.rngszCmpt hone
      · exact congrArg RingSizes.descRngSzIdx hone
      · exact congrArg RingSizes.cmplRngSzIdx hone

end

/-! ## Restarts -/

/-- The calls that start and stop a queue. -/
def SlotEvent.IsRestart : SlotEvent → Prop
  | .start _ => True
  | .stop => True
  | _ => False

/-- After the first start and any further stops and starts the ring sizes are those of the
completed configuration. -/
def SizesKept (x : Xdev) (s : Slot) : Prop :=
  ∀ (grant : Grant) (mem : Memory) (ctxt : ℤ) (es : List SlotEvent), (∀ e ∈ es, e.IsRestart) →
    (run (slotStep x grant) { slot := s, mem := mem } (.start ctxt :: es)).slot.sizes =
      (s.configComplete x).sizes

/-- The completion ring is the larger one: its entry in the table is, and so is what is stored of
it where the table holds sizes. -/
structure RingSizes.CmptLarger (ringSz : ℕ → ℕ) (z : RingSizes) : Prop where
  entry : ringSz z.descRngSzIdx < ringSz z.cmplRngSzIdx
  stored : 0 < ringSz z.descRngSzIdx → ringSz z.cmplRngSzIdx < 2 ^ 32 → z.rngsz < z.rngszCmpt

/-- Where a queue asks for completion and descriptor rings of one size, and some ring of the table
is larger, its completion ring is the larger one after any starts and stops. -/
def CmptStaysLarger (x : Xdev) (s : Slot) : Prop :=
  s.conf.withCmpt = true → s.conf.cmplRngSzIdx = s.conf.descRngSzIdx →
    (∃ i : Fin 16, x.csrInfo.ringSz s.conf.descRngSzIdx < x.csrInfo.ringSz i) →
      ∀ (grant : Grant) (mem : Memory) (ctxt : ℤ) (es : List SlotEvent),
        (∀ e ∈ es, e.IsRestart) → RingSizes.CmptLarger x.csrInfo.ringSz
          (run (slotStep x grant) { slot := s, mem := mem } (.start ctxt :: es)).slot.sizes

section

variable {x : Xdev} {grant : Grant} {s s' : Slot} {st : SlotState} {es : List SlotEvent}

/-- A start or a stop completes the configuration or leaves it alone. -/
theorem slotStep_restart {e : SlotEvent} (he : e.IsRestart) : ∃ qState,
    Slot.Rehoused { st.slot with qState := qState } (slotStep x grant st e).slot ∨
      Slot.Rehoused { st.slot.configComplete x with qState := qState }
        (slotStep x grant st e).slot := by
  cases e with
  | start ctxt =>
    by_cases h : st.slot.qState = .enabled ∧ ¬ st.slot.startCheck x < 0
    · obtain ⟨qState, hre⟩ := Slot.start_rehoused grant ctxt st.mem h.1 h.2
      exact ⟨qState, .inr hre⟩
    · have hsame := Slot.start_of_refused (x := x) grant ctxt st.mem h
      refine ⟨st.slot.qState, .inl ?_⟩
      change st.slot.Rehoused (st.slot.start x grant ctxt st.mem).2.1
      rw [hsame]
      exact .refl st.slot
  | stop =>
    obtain ⟨qState, hre⟩ := Slot.stop_rehoused st.slot st.mem
    exact ⟨qState, .inl hre⟩
  | add c e => cases he
  | config c => cases he
  | remove counted => cases he

/-- What a slot has of ring sizes, with the type of its queue. -/
def Slot.HasSizes (z : RingSizes) (withCmpt : Bool) (s : Slot) : Prop :=
  s.sizes = z ∧ s.conf.withCmpt = withCmpt

theorem Slot.HasSizes.of_rehoused {z : RingSizes} {withCmpt : Bool} {qState : QState}
    (h : s.HasSizes z withCmpt) (hre : Slot.Rehoused { s with qState := qState } s') :
    s'.HasSizes z withCmpt :=
  ⟨hre.sizes.trans h.1, (congrArg QdmaQueueConf.withCmpt hre.conf).trans h.2⟩

/-- The rule for restarts: what completing the configuration keeps of the ring sizes holds after
any starts and stops. -/
theorem restarts_invariant {I : RingSizes → Prop} {withCmpt : Bool}
    (hcomplete : ∀ s : Slot, s.conf.withCmpt = withCmpt → I s.sizes →
      I (s.configComplete x).sizes)
    (hcmpt : st.slot.conf.withCmpt = withCmpt) (hs : I st.slot.sizes)
    (hes : ∀ e ∈ es, e.IsRestart) : I (run (slotStep x grant) st es).slot.sizes := by
  have hstep (st : SlotState) (e : SlotEvent)
      (h : st.slot.conf.withCmpt = withCmpt ∧ I st.slot.sizes) (he : e.IsRestart) :
      (slotStep x grant st e).slot.conf.withCmpt = withCmpt ∧
        I (slotStep x grant st e).slot.sizes := by
    obtain ⟨qState, hre | hre⟩ := @slotStep_restart x grant st _ he
    · have hsame := Slot.HasSizes.of_rehoused ⟨rfl, h.1⟩ hre
      exact ⟨hsame.2, hsame.1.symm ▸ h.2⟩
    · have hsame := Slot.HasSizes.of_rehoused
        ⟨rfl, (Slot.withCmpt_configComplete x st.slot).trans h.1⟩ hre
      exact ⟨hsame.2, hsame.1.symm ▸ hcomplete st.slot h.1 h.2⟩
  exact ((admitted_of_forall hes st).invariant
    (I := fun st => st.slot.conf.withCmpt = withCmpt ∧ I st.slot.sizes) hstep ⟨hcmpt, hs⟩).2

/-- The first start completes the configuration. -/
theorem slotStep_first (hon : st.slot.qState = .enabled) (hcheck : ¬ st.slot.startCheck x < 0)
    (ctxt : ℤ) : (slotStep x grant st (.start ctxt)).slot.HasSizes
      (st.slot.configComplete x).sizes st.slot.conf.withCmpt := by
  obtain ⟨qState, hre⟩ := Slot.start_rehoused grant ctxt st.mem hon hcheck
  exact Slot.HasSizes.of_rehoused ⟨rfl, Slot.withCmpt_configComplete x st.slot⟩ hre

theorem Slot.LastRing.sizesKept (h : s.LastRing x) (hon : s.qState = .enabled)
    (hcheck : ¬ s.startCheck x < 0) : SizesKept x s := by
  intro grant mem ctxt es hes
  have hstable := (Slot.sizes_configComplete_twice_iff x s).mpr h
  obtain ⟨hsizes, hcmpt⟩ :=
    @slotStep_first _ grant { slot := s, mem := mem } hon hcheck ctxt
  rw [run_cons]
  refine restarts_invariant (I := fun z => z = (s.configComplete x).sizes) ?_ hcmpt hsizes hes
  intro s₁ hs₁ heq
  exact (Slot.sizes_configComplete_congr heq
    (hs₁.trans (Slot.withCmpt_configComplete x s).symm)).trans hstable

/-- Two starts that fail at the contexts show whether the sizes are kept. -/
theorem Slot.lastRing_of_sizesKept (h : SizesKept x s) (hon : s.qState = .enabled)
    (hcheck : ¬ s.startCheck x < 0) : s.LastRing x := by
  have htwo := h (fun _ => true) {} (-1) [.start (-1)] (by
    intro e he
    rw [List.mem_singleton.mp he]
    trivial)
  rw [run_cons, run_cons, run_nil] at htwo
  have hre := @Slot.start_rehoused_of_neg x _ (fun _ => true) (-1) (by decide) {}
    hon hcheck
  have hon' : (slotStep x (fun _ => true) { slot := s } (.start (-1))).slot.qState = .enabled :=
    hre.qState.trans hon
  have hcheck' :
      ¬ (slotStep x (fun _ => true) { slot := s } (.start (-1))).slot.startCheck x < 0 := by
    have hsame := hre.startCheck (x := x)
    rw [Slot.startCheck_configComplete] at hsame
    exact fun hneg => hcheck (hsame ▸ hneg)
  have hsecond := (@slotStep_first _ (fun _ => true) _ hon' hcheck' (-1)).1
  rw [← Slot.sizes_configComplete_twice_iff, ← htwo, hsecond]
  exact (Slot.sizes_configComplete_congr hre.sizes
    (congrArg QdmaQueueConf.withCmpt hre.conf)).symm

/-- A completed configuration with a larger completion ring has the larger one. -/
theorem cmptLarger_configComplete (hcmpt : s.conf.withCmpt = true)
    (hlt : x.csrInfo.ringSz s.conf.descRngSzIdx <
      x.csrInfo.ringSz (cmplRngIdx x.csrInfo.ringSz s.conf)) :
    RingSizes.CmptLarger x.csrInfo.ringSz (s.configComplete x).sizes := by
  rw [Slot.sizes_configComplete, if_pos hcmpt]
  refine ⟨hlt, fun hpos hfits => ?_⟩
  dsimp only at hpos hfits ⊢
  unfold u32
  omega

/-- The next completion ring is no smaller. -/
theorem ringSz_le_cmplRngIdx (ringSz : ℕ → ℕ) (conf : QdmaQueueConf) :
    ringSz conf.cmplRngSzIdx ≤ ringSz (cmplRngIdx ringSz conf) := by
  rcases cmplRngIdx_spec ringSz conf with ⟨heq, -⟩ | ⟨hlt, -⟩
  · rw [heq]
  · exact hlt.le

theorem cmptStaysLarger (hon : s.qState = .enabled) (hcheck : ¬ s.startCheck x < 0) :
    CmptStaysLarger x s := by
  intro hcmpt hidx hlarger grant mem ctxt es hes
  obtain ⟨hsizes, hcmpt'⟩ :=
    @slotStep_first _ grant { slot := s, mem := mem } hon hcheck ctxt
  have hfirst : RingSizes.CmptLarger x.csrInfo.ringSz (s.configComplete x).sizes := by
    apply cmptLarger_configComplete hcmpt
    rw [← hidx] at hlarger ⊢
    obtain ⟨i, hi⟩ := hlarger
    rcases cmplRngIdx_spec x.csrInfo.ringSz s.conf with ⟨-, hmax⟩ | ⟨hlt, -⟩
    · have hle := hmax i
      omega
    · exact hlt
  rw [run_cons]
  refine restarts_invariant (I := RingSizes.CmptLarger x.csrInfo.ringSz) ?_ (hcmpt'.trans hcmpt)
    (hsizes.symm ▸ hfirst) hes
  intro s₁ hs₁ hlt
  exact cmptLarger_configComplete hs₁
    (lt_of_lt_of_le hlt.entry (ringSz_le_cmplRngIdx x.csrInfo.ringSz s₁.conf))

/-- Restarts keep the ring sizes of a queue if and only if no further ring is left after the one
that it gets first; and a completion ring of the size of the descriptor ring ends up the larger of
the two unless no ring is larger. -/
theorem restarts_keepSizes_iff (hon : s.qState = .enabled) (hcheck : ¬ s.startCheck x < 0) :
    (SizesKept x s ↔ s.LastRing x) ∧ CmptStaysLarger x s :=
  ⟨⟨fun h => s.lastRing_of_sizesKept h hon hcheck, fun h => h.sizesKept hon hcheck⟩,
    cmptStaysLarger hon hcheck⟩

end

/-- The device with a table of the ring sizes 64, 128 and so on. -/
def doublingPf : Xdev :=
  { pollingPf with csrInfo := { pollingPf.csrInfo with ringSz := fun i => 64 * 2 ^ i } }

/-- A streaming C2H queue that asks for ring `idx` of the table. -/
def ringQueue (idx : Fin 16) : Slot :=
  { newSlot with
    qState := .enabled
    descq := { conf := { c2hConf.conf with descRngSzIdx := idx, cmplRngSzIdx := idx } } }

/-- The queue that asks for the last ring but one keeps the last ring. -/
theorem ringQueue_keepsSizes :
    (SizesKept doublingPf (ringQueue 14) ↔ (ringQueue 14).LastRing doublingPf) ∧
      CmptStaysLarger doublingPf (ringQueue 14) :=
  restarts_keepSizes_iff rfl (by decide)

/-- The queue that asks for the first ring has completion rings of 127 entries at its first
start and of 255 at its second. -/
theorem ringQueue_not_keepsSizes : ¬ SizesKept doublingPf (ringQueue 0) := by
  intro h
  have hsizes := h (fun _ => true) {} 0 [.stop, .start 0] (by simp [SlotEvent.IsRestart])
  revert hsizes
  decide +kernel

end OnicDriver.Lifecycle
