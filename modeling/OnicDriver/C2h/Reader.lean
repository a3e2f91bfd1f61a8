import OnicDriver.C2h.Completion
import OnicDriver.Lib.Runs

/-!
# A reader of the completion ring

What processing completions is for: the entries that the hardware has written
are consumed in order, as many in a call as its budget allows, until an entry
is rejected. Each data entry is a packet in the descriptors that follow those
of the entry before.
-/

namespace OnicDriver.C2h

open Lib

variable (conf : C2hConf) (pgShift : ℕ)

/-- The content of an entry that is neither refused by the parser nor by
`descq_cmpl_err_check`. -/
def C2hConf.accepts (entry : ℕ) : Option UlCmptInfo :=
  match conf.parse entry with
  | .ok cmpl => if descqCmplErrCheck conf cmpl < 0 then none else some cmpl
  | .error _ => none

/-- The number of descriptors of an entry. -/
def C2hConf.uses (entry : ℕ) : ℕ :=
  match conf.accepts entry with
  | some cmpl =>
    if cmpl.descUsed then (getFlNr cmpl.len conf.c2hBufsz pgShift (2 ^ pgShift - 1)).1 else 0
  | none => 0

/-- The number of descriptors of a list of entries. -/
def C2hConf.used (entries : List ℕ) : ℕ := (entries.map (conf.uses pgShift)).sum

/-- The packet callback without the buffers: bytes, descriptors, the first of them, and the
entry if passed on. -/
structure Delivery where
  len : ℕ
  sgcnt : ℕ
  first : ℕ
  udd : Option ℕ
  deriving DecidableEq, Repr

def PacketCall.delivery (call : PacketCall) : Delivery :=
  { len := call.len, sgcnt := call.sgcnt, first := call.first, udd := call.udd }

/-- The delivery for an entry after entries with `u` descriptors. An entry with user data
only is delivered without descriptors. -/
def C2hConf.deliver (u entry : ℕ) : Option Delivery :=
  (conf.accepts entry).map fun cmpl =>
    if cmpl.descUsed then
      { len := cmpl.len, sgcnt := conf.uses pgShift entry, first := u % conf.rngsz
        udd := if conf.cmplUddEn then some cmpl.entry else none }
    else { len := 0, sgcnt := 0, first := 0, udd := some cmpl.entry }

/-- The deliveries for consecutive entries. -/
def C2hConf.deliveries : ℕ → List ℕ → List Delivery
  | _, [] => []
  | u, entry :: entries =>
    (conf.deliver pgShift u entry).toList ++
      C2hConf.deliveries (u + conf.uses pgShift entry) entries

/-- The color of the entries in the lap of entry number `n`. -/
def lapColor (rngszCmpt n : ℕ) : Bool := decide (n / rngszCmpt % 2 = 0)

/-- The entries written so far, and how many of them were consumed. -/
structure Reader where
  written : List ℕ := []
  consumed : ℕ := 0
  deriving DecidableEq, Repr

/-- The hardware writes an entry, or a call processes entries within its budget; budget 0 is
no limit. -/
inductive CmptEvent
  | write (entry : ℕ)
  | process (budget : ℕ) (updCmpl : Bool)
  deriving DecidableEq, Repr

/-- The number of entries before the first rejected one. -/
def C2hConf.acceptedPrefix (entries : List ℕ) : ℕ :=
  (entries.takeWhile fun entry => (conf.accepts entry).isSome).length

/-- The entries that were written and not consumed. -/
def Reader.outstanding (r : Reader) : List ℕ := r.written.drop r.consumed

/-- The entries that a call looks at. -/
def batch (budget : ℕ) (outstanding : List ℕ) : List ℕ :=
  if budget = 0 then outstanding else outstanding.take budget

def readerStep (r : Reader) : CmptEvent → Reader
  | .write entry => { r with written := r.written ++ [entry] }
  | .process budget _ =>
    { r with consumed := r.consumed + conf.acceptedPrefix (batch budget r.outstanding) }

variable {conf pgShift}

@[simp] theorem used_nil : conf.used pgShift [] = 0 := rfl

@[simp] theorem used_cons (entry : ℕ) (entries : List ℕ) :
    conf.used pgShift (entry :: entries) =
      conf.uses pgShift entry + conf.used pgShift entries := List.sum_cons

theorem used_append (conf : C2hConf) (pgShift : ℕ) (es fs : List ℕ) :
    conf.used pgShift (es ++ fs) = conf.used pgShift es + conf.used pgShift fs := by
  simp [C2hConf.used]

/-- The deliveries of a longer list continue at the next descriptor. -/
theorem deliveries_append (u : ℕ) (es fs : List ℕ) :
    conf.deliveries pgShift u (es ++ fs) =
      conf.deliveries pgShift u es ++ conf.deliveries pgShift (u + conf.used pgShift es) fs := by
  induction es generalizing u with
  | nil => rfl
  | cons e es ih =>
    rw [List.cons_append, used_cons, ← Nat.add_assoc]
    simp only [C2hConf.deliveries, ih, List.append_assoc]

/-- A list splits at its first rejected entry. -/
theorem acceptedPrefix_split (conf : C2hConf) (es : List ℕ) :
    (conf.acceptedPrefix es = es.length ∧ ∀ e ∈ es, conf.accepts e ≠ none) ∨
      ∃ good bad rest, es = good ++ bad :: rest ∧ (∀ e ∈ good, conf.accepts e ≠ none) ∧
        conf.accepts bad = none ∧ conf.acceptedPrefix es = good.length := by
  induction es with
  | nil => exact Or.inl ⟨rfl, nofun⟩
  | cons e es ih =>
    by_cases he : conf.accepts e = none
    · exact Or.inr ⟨[], e, es, rfl, nofun, he, by simp [C2hConf.acceptedPrefix, he]⟩
    · have hcons : conf.acceptedPrefix (e :: es) = conf.acceptedPrefix es + 1 := by
        have hsome := Option.isSome_iff_ne_none.mpr he
        simp [C2hConf.acceptedPrefix, List.takeWhile_cons, hsome]
      rw [hcons]
      rcases ih with ⟨hlen, hall⟩ | ⟨good, bad, rest, rfl, hall, hbad, hlen⟩
      · exact Or.inl ⟨by rw [hlen, List.length_cons], List.forall_mem_cons.mpr ⟨he, hall⟩⟩
      · exact Or.inr ⟨e :: good, bad, rest, rfl, List.forall_mem_cons.mpr ⟨he, hall⟩, hbad,
          by rw [hlen, List.length_cons]⟩

/-- The color changes where the ring wraps. -/
theorem lapColor_succ {rngszCmpt : ℕ} (hpos : 0 < rngszCmpt) (n : ℕ) :
    lapColor rngszCmpt (n + 1) =
      if n % rngszCmpt + 1 = rngszCmpt then !lapColor rngszCmpt n else lapColor rngszCmpt n := by
  have hmod := Nat.div_add_mod' n rngszCmpt
  have hlt := Nat.mod_lt n hpos
  unfold lapColor
  split
  · rename_i hwrap
    have hdiv : (n + 1) / rngszCmpt = n / rngszCmpt + 1 :=
      Nat.div_eq_of_lt_le (by rw [Nat.add_mul]; omega) (by rw [Nat.add_mul, Nat.add_mul]; omega)
    rw [hdiv, ← decide_not]
    congr 1
    rw [eq_iff_iff]
    omega
  · have hdiv : (n + 1) / rngszCmpt = n / rngszCmpt :=
      Nat.div_eq_of_lt_le (by omega) (by rw [Nat.add_mul]; omega)
    rw [hdiv]

end OnicDriver.C2h
