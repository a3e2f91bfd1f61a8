import OnicDriver.Access.Hardware
import OnicDriver.Access.Indirect
import OnicDriver.Access.Registers
import OnicDriver.Lib.Runs

/-!
# Control registers

The writeback interval and the legacy interrupt enable are fields of registers that hold other
fields too. Both are written by a read-modify-write that only ever adds bits.
-/

namespace OnicDriver.Access

open Lib

/-! ## Fields of the control registers -/

def QDMA_OFFSET_GLBL_DSC_CFG : ℕ := 0x250
def QDMA_GLBL_DSC_CFG_WB_ACC_INT_MASK : Mask := ⟨2, 0⟩
def QDMA_OFFSET_GLBL_INTERRUPT_CFG : ℕ := 0x2C4
def QDMA_GLBL_INTR_CFG_EN_LGCY_INTR_MASK : Mask := ⟨0, 0⟩

/-- The number of values of `enum qdma_wrb_interval`. -/
def QDMA_NUM_WRB_INTERVALS : ℕ := 8

/-- The error code for features that the device lacks. -/
def QDMA_ERR_HWACC_FEATURE_NOT_SUPPORTED : ℤ := 7

/-- The fields that are written by a read-modify-write. -/
inductive ControlField
  | wbAccInt
  | enLgcyIntr
  deriving DecidableEq, Repr

namespace ControlField

/-- The register of a field. -/
def offset : ControlField → ℕ
  | wbAccInt => QDMA_OFFSET_GLBL_DSC_CFG
  | enLgcyIntr => QDMA_OFFSET_GLBL_INTERRUPT_CFG

/-- The bits of a field. -/
def mask : ControlField → Mask
  | wbAccInt => QDMA_GLBL_DSC_CFG_WB_ACC_INT_MASK
  | enLgcyIntr => QDMA_GLBL_INTR_CFG_EN_LGCY_INTR_MASK

/-- The value of a field. -/
def read (f : ControlField) (regs : Regs) : ℕ := FIELD_GET f.mask.val (regs f.offset)

/-- `reg_val |= FIELD_SET(mask, val)`, between the read and the write of the register. -/
def modify (f : ControlField) (val : ℕ) (regs : Regs) : Regs :=
  qdmaRegWrite regs f.offset (regs f.offset ||| FIELD_SET 32 f.mask.val val)

/-- The registers agree outside of the field. -/
def SameOutside (f : ControlField) (regs regs' : Regs) : Prop :=
  ∀ offset i, ¬ (offset = f.offset ∧ f.mask.lo ≤ i ∧ i ≤ f.mask.hi) →
    (regs' offset).testBit i = (regs offset).testBit i

theorem mask_small (f : ControlField) : f.mask.lo ≤ f.mask.hi ∧ f.mask.hi < 32 := by
  cases f <;> decide

theorem offset_ne {f g : ControlField} (h : f ≠ g) : f.offset ≠ g.offset := by
  revert h
  cases f <;> cases g <;> decide

theorem read_eq (f : ControlField) (regs : Regs) : f.read regs = f.mask.get (regs f.offset) :=
  fieldGet_eq f.mask_small.1 (f.mask_small.2.trans (by decide)) _

/-- A field with the bits of the value added to it. -/
theorem read_modify {f : ControlField} {v : ℕ} (hv : f.mask.Fits v) (regs : Regs) :
    f.read (f.modify v regs) = f.read regs ||| v := by
  obtain ⟨hle, hlt⟩ := f.mask_small
  have hset : FIELD_SET 32 f.mask.val v = f.mask.set 32 v :=
    fieldSet_eq hle (hlt.trans (by decide)) 32 v
  rw [read_eq, read_eq, modify, qdmaRegWrite, Function.update_self, hset, Mask.get_or,
    Mask.get_set hlt hv]

/-- The other field lies in another register. -/
theorem read_modify_of_ne {f g : ControlField} (h : g ≠ f) (v : ℕ) (regs : Regs) :
    g.read (f.modify v regs) = g.read regs := by
  rw [read, modify, qdmaRegWrite, Function.update_of_ne (offset_ne h), ← read]

theorem sameOutside_modify (f : ControlField) (v : ℕ) (regs : Regs) :
    f.SameOutside regs (f.modify v regs) := by
  intro offset i hout
  by_cases hoffset : offset = f.offset
  · subst hoffset
    have hi : ¬ (f.mask.lo ≤ i ∧ i ≤ f.mask.hi) := fun hin => hout ⟨rfl, hin⟩
    have hset : (FIELD_SET 32 f.mask.val v).testBit i = false := by
      rw [FIELD_SET, Nat.testBit_and, Mask.testBit_val, decide_eq_false hi, Bool.and_false]
    rw [modify, qdmaRegWrite, Function.update_self, Nat.testBit_or, hset, Bool.or_false]
  · rw [modify, qdmaRegWrite, Function.update_of_ne hoffset]

theorem SameOutside.refl (f : ControlField) (regs : Regs) : f.SameOutside regs regs :=
  fun _ _ _ => rfl

end ControlField

/-! ## The calls -/

/-- `qdma_global_writeback_interval_write`, the same in the three access layers. -/
def qdmaGlobalWritebackIntervalWrite (devCap : DevAttributes) (wbInt : ℕ) (regs : Regs) :
    ℤ × Regs :=
  if QDMA_NUM_WRB_INTERVALS ≤ wbInt then (-QDMA_ERR_INV_PARAM, regs)
  else if devCap.stEn || devCap.mmCmptEn then (0, ControlField.wbAccInt.modify wbInt regs)
  else (-QDMA_ERR_HWACC_FEATURE_NOT_SUPPORTED, regs)

/-- `qdma_global_writeback_interval_read`, with the value that it stores. -/
def qdmaGlobalWritebackIntervalRead (devCap : DevAttributes) (regs : Regs) : ℤ × Option ℕ :=
  if devCap.stEn || devCap.mmCmptEn then (0, some (ControlField.wbAccInt.read regs))
  else (-QDMA_ERR_HWACC_FEATURE_NOT_SUPPORTED, none)

/-- `qdma_legacy_intr_conf`. -/
def qdmaLegacyIntrConf (enable : Bool) (regs : Regs) : ℤ × Regs :=
  (0, ControlField.enLgcyIntr.modify enable.toNat regs)

/-- A write of a control field. -/
inductive ControlWrite
  | writebackInterval (wbInt : ℕ)
  | legacyIntrConf (enable : Bool)
  deriving DecidableEq, Repr

namespace ControlWrite

/-- The field that a call writes. -/
def field : ControlWrite → ControlField
  | writebackInterval _ => .wbAccInt
  | legacyIntrConf _ => .enLgcyIntr

/-- The value that a call writes. -/
def value : ControlWrite → ℕ
  | writebackInterval wbInt => wbInt
  | legacyIntrConf enable => enable.toNat

/-- The call. -/
def perform (devCap : DevAttributes) (regs : Regs) : ControlWrite → ℤ × Regs
  | writebackInterval wbInt => qdmaGlobalWritebackIntervalWrite devCap wbInt regs
  | legacyIntrConf enable => qdmaLegacyIntrConf enable regs

/-- The call succeeds: the interval is a valid one, and the device has the feature. -/
def Accepted (devCap : DevAttributes) : ControlWrite → Prop
  | writebackInterval wbInt =>
    wbInt < QDMA_NUM_WRB_INTERVALS ∧ (devCap.stEn || devCap.mmCmptEn) = true
  | legacyIntrConf _ => True

instance (devCap : DevAttributes) : DecidablePred (Accepted devCap)
  | writebackInterval _ => inferInstanceAs (Decidable (_ ∧ _))
  | legacyIntrConf _ => inferInstanceAs (Decidable True)

variable {devCap : DevAttributes} {regs : Regs} {w : ControlWrite}

theorem perform_accepted (h : w.Accepted devCap) :
    w.perform devCap regs = (0, w.field.modify w.value regs) := by
  cases w with
  | writebackInterval wbInt =>
    rw [perform, qdmaGlobalWritebackIntervalWrite, if_neg (Nat.not_le.mpr h.1), if_pos h.2]
    rfl
  | legacyIntrConf enable => rfl

theorem perform_refused (h : ¬ w.Accepted devCap) :
    (w.perform devCap regs).1 < 0 ∧ (w.perform devCap regs).2 = regs := by
  cases w with
  | writebackInterval wbInt =>
    rw [perform, qdmaGlobalWritebackIntervalWrite]
    by_cases hval : QDMA_NUM_WRB_INTERVALS ≤ wbInt
    · rw [if_pos hval]
      exact ⟨show -QDMA_ERR_INV_PARAM < 0 by decide, rfl⟩
    · have hcap : ¬ (devCap.stEn || devCap.mmCmptEn) = true :=
        fun hcap => h ⟨Nat.not_le.mp hval, hcap⟩
      rw [if_neg hval, if_neg hcap]
      exact ⟨show -QDMA_ERR_HWACC_FEATURE_NOT_SUPPORTED < 0 by decide, rfl⟩
  | legacyIntrConf enable => exact absurd trivial h

theorem fits_value (h : w.Accepted devCap) : w.field.mask.Fits w.value := by
  cases w with
  | writebackInterval wbInt => exact h.1
  | legacyIntrConf enable => cases enable <;> decide

/-- A call writes nothing outside of its field. -/
theorem perform_sameOutside : w.field.SameOutside regs (w.perform devCap regs).2 := by
  by_cases h : w.Accepted devCap
  · rw [perform_accepted h]
    exact w.field.sameOutside_modify _ _
  · rw [(perform_refused h).2]
    exact .refl _ _

end ControlWrite

/-! ## Sequences of calls -/

section Runs

variable (devCap : DevAttributes)

/-- The registers after a call. -/
def controlStep (regs : Regs) (w : ControlWrite) : Regs := (w.perform devCap regs).2

/-- The value of the last successful write of a field. -/
def lastWritten (f : ControlField) (ws : List ControlWrite) : Option ℕ :=
  ((ws.filter fun w => w.Accepted devCap ∧ w.field = f).getLast?).map ControlWrite.value

/-- Every field that was written reads back as its last write. The writeback interval is read by
`qdma_global_writeback_interval_read`. -/
structure ReadsBack (regs : Regs) (ws : List ControlWrite) : Prop where
  wbAccInt : ∀ v, lastWritten devCap .wbAccInt ws = some v →
    qdmaGlobalWritebackIntervalRead devCap (run (controlStep devCap) regs ws) = (0, some v)
  enLgcyIntr : ∀ v, lastWritten devCap .enLgcyIntr ws = some v →
    ControlField.enLgcyIntr.read (run (controlStep devCap) regs ws) = v

/-- After every call the fields read back as last written, and the call has left the bits outside of
its field alone. -/
def LastWriteWins (regs : Regs) (ws : List ControlWrite) : Prop :=
  ∀ done w, done ++ [w] <+: ws →
    ReadsBack devCap regs (done ++ [w]) ∧
      w.field.SameOutside (run (controlStep devCap) regs done)
        (run (controlStep devCap) regs (done ++ [w]))

/-- The field holds no bit that the value does not have. -/
def Covers (regs : Regs) (w : ControlWrite) : Prop :=
  w.Accepted devCap → w.field.read regs ||| w.value = w.value

variable {devCap} {regs : Regs} {ws : List ControlWrite} {w : ControlWrite} {f : ControlField}

/-- A write that succeeds is the last one of its field. -/
theorem lastWritten_snoc (h : w.Accepted devCap) (ws : List ControlWrite) :
    lastWritten devCap w.field (ws ++ [w]) = some w.value := by
  rw [lastWritten, List.filter_append, List.filter_cons_of_pos (by simpa using h), List.filter_nil,
    List.getLast?_concat]
  rfl

/-- Refused writes and those of other fields do not count. -/
theorem lastWritten_snoc_of_not (h : ¬ (w.Accepted devCap ∧ w.field = f))
    (ws : List ControlWrite) :
    lastWritten devCap f (ws ++ [w]) = lastWritten devCap f ws := by
  rw [lastWritten, List.filter_append, List.filter_cons_of_neg (by simpa using h), List.filter_nil,
    List.append_nil, lastWritten]

/-- The interval can be read where one was written. -/
theorem supported_of_lastWritten {v : ℕ} (h : lastWritten devCap .wbAccInt ws = some v) :
    (devCap.stEn || devCap.mmCmptEn) = true := by
  obtain ⟨w, hlast, -⟩ := Option.map_eq_some_iff.mp h
  have hmem := List.mem_of_getLast? hlast
  obtain ⟨hacc, hfield⟩ := of_decide_eq_true (List.mem_filter.mp hmem).2
  cases w with
  | writebackInterval wbInt => exact hacc.2
  | legacyIntrConf enable => cases hfield

/-- Both fields in one statement. -/
theorem readsBack_iff :
    ReadsBack devCap regs ws ↔
      ∀ f v, lastWritten devCap f ws = some v → f.read (run (controlStep devCap) regs ws) = v := by
  have hread {v : ℕ} (hv : lastWritten devCap .wbAccInt ws = some v) (regs : Regs) :
      qdmaGlobalWritebackIntervalRead devCap regs = (0, some (ControlField.wbAccInt.read regs)) :=
    if_pos (supported_of_lastWritten hv)
  constructor
  · rintro h (_ | _) v hv
    · have heq := (hread hv _).symm.trans (h.wbAccInt v hv)
      exact Option.some.inj (Prod.mk.inj heq).2
    · exact h.enLgcyIntr v hv
  · intro h
    exact ⟨fun v hv => by rw [hread hv, h _ v hv], fun v hv => h _ v hv⟩

/-- What one call does to what was read back before it. -/
theorem readsBack_snoc (h : ReadsBack devCap regs ws) (w : ControlWrite) :
    ReadsBack devCap regs (ws ++ [w]) ↔ Covers devCap (run (controlStep devCap) regs ws) w := by
  rw [readsBack_iff] at h
  rw [readsBack_iff, run_append, run_cons, run_nil]
  by_cases hacc : w.Accepted devCap
  · have hstep : controlStep devCap (run (controlStep devCap) regs ws) w =
        w.field.modify w.value (run (controlStep devCap) regs ws) := by
      rw [controlStep, ControlWrite.perform_accepted hacc]
    have hown : w.field.read (w.field.modify w.value (run (controlStep devCap) regs ws)) =
        w.field.read (run (controlStep devCap) regs ws) ||| w.value :=
      ControlField.read_modify (ControlWrite.fits_value hacc) _
    rw [hstep]
    constructor
    · intro hall _
      rw [← hown]
      exact hall w.field w.value (lastWritten_snoc hacc ws)
    · intro hcovers f v hv
      by_cases hfield : w.field = f
      · subst hfield
        rw [lastWritten_snoc hacc] at hv
        rw [hown, hcovers hacc, Option.some.inj hv]
      · rw [lastWritten_snoc_of_not fun hboth => hfield hboth.2] at hv
        rw [ControlField.read_modify_of_ne (Ne.symm hfield), h f v hv]
  · have hstep : controlStep devCap (run (controlStep devCap) regs ws) w =
        run (controlStep devCap) regs ws := (ControlWrite.perform_refused hacc).2
    rw [hstep]
    refine iff_of_true (fun f v hv => ?_) fun h => absurd h hacc
    rw [lastWritten_snoc_of_not fun hboth => hacc hboth.1] at hv
    exact h f v hv

/-- Nothing has been written before the first call. -/
theorem readsBack_nil : ReadsBack devCap regs [] where
  wbAccInt _ hv := by simp [lastWritten] at hv
  enLgcyIntr _ hv := by simp [lastWritten] at hv

/-- A sequence of calls and one more. -/
theorem lastWriteWins_snoc (ws : List ControlWrite) (w : ControlWrite) :
    LastWriteWins devCap regs (ws ++ [w]) ↔
      LastWriteWins devCap regs ws ∧ ReadsBack devCap regs (ws ++ [w]) := by
  constructor
  · intro h
    exact ⟨fun done x hx => h done x (hx.trans (List.prefix_append ws [w])),
      (h ws w (List.prefix_refl _)).1⟩
  · rintro ⟨h, hread⟩ done x hx
    rcases List.prefix_concat_iff.mp hx with heq | hpre
    · obtain ⟨rfl, hw⟩ := List.append_inj' heq rfl
      obtain rfl := (List.cons.inj hw).1
      refine ⟨hread, ?_⟩
      rw [run_append]
      exact ControlWrite.perform_sameOutside
    · exact h done x hpre

/-- The last write wins before the next call. -/
theorem LastWriteWins.readsBack (h : LastWriteWins devCap regs ws) : ReadsBack devCap regs ws := by
  cases ws using List.reverseRecOn with
  | nil => exact readsBack_nil
  | append_singleton done w => exact (h done w (List.prefix_refl _)).1

/-- The last write of a field wins throughout a sequence of calls exactly if no call leaves bits of
the value before: every value written has all the bits that its field holds. -/
theorem lastWriteWins_iff (devCap : DevAttributes) (regs : Regs) (ws : List ControlWrite) :
    LastWriteWins devCap regs ws ↔ Admitted (controlStep devCap) (Covers devCap) regs ws := by
  induction ws using List.reverseRecOn with
  | nil =>
    refine iff_of_true (fun done w h => ?_) trivial
    exact absurd (List.prefix_nil.mp h) (by simp)
  | append_singleton ws w ih =>
    rw [lastWriteWins_snoc, admitted_append, ← ih]
    constructor
    · rintro ⟨h, hread⟩
      exact ⟨h, (readsBack_snoc h.readsBack w).mp hread, trivial⟩
    · rintro ⟨h, hcovers, -⟩
      exact ⟨h, (readsBack_snoc h.readsBack w).mpr hcovers⟩

/-- The interval 256 (6) written after 128 (5) reads back as 512 (7). -/
theorem interval256_not_read :
    ¬ LastWriteWins {} (fun _ => 0) [.writebackInterval 5, .writebackInterval 6] := by
  intro h
  have hread := (h [.writebackInterval 5] (.writebackInterval 6) (List.prefix_refl _)).1.wbAccInt 6
  exact absurd (hread (by decide)) (by decide)

end Runs

end OnicDriver.Access
