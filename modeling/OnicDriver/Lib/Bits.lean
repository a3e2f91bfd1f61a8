import Mathlib.Data.Nat.Bitwise

/-!
# Bit fields

A mask of consecutive bits, the field of a word under a mask, and words packed
from fields. Fields under masks that lie apart do not disturb each other.
-/

namespace OnicDriver.Lib

/-- The bits of a word from `lo` to `hi`. -/
structure Mask where
  hi : ℕ
  lo : ℕ
  deriving DecidableEq, Repr

namespace Mask

/-- The mask as a number. -/
def val (m : Mask) : ℕ := 2 ^ (m.hi + 1) - 2 ^ m.lo

/-- The number of bits of a field. -/
def width (m : Mask) : ℕ := m.hi + 1 - m.lo

/-- The field of a word. -/
def get (m : Mask) (r : ℕ) : ℕ := (r &&& m.val) >>> m.lo

/-- A value moved to its field, where shifts are taken at `w` bits. -/
def set (w : ℕ) (m : Mask) (v : ℕ) : ℕ := (v <<< m.lo) % 2 ^ w &&& m.val

/-- The value fits the field. -/
def Fits (m : Mask) (v : ℕ) : Prop := v < 2 ^ m.width

/-- The masks have no bit in common. -/
def Apart (a b : Mask) : Prop := a.hi < b.lo ∨ b.hi < a.lo

instance (m : Mask) (v : ℕ) : Decidable (m.Fits v) := inferInstanceAs (Decidable (_ < _))

instance (a b : Mask) : Decidable (a.Apart b) := inferInstanceAs (Decidable (_ ∨ _))

/-! ## Bits of fields -/

theorem testBit_val (m : Mask) (i : ℕ) :
    m.val.testBit i = decide (m.lo ≤ i ∧ i ≤ m.hi) := by
  unfold val
  by_cases hle : m.lo ≤ m.hi + 1
  · have hfactor : 2 ^ (m.hi + 1) - 2 ^ m.lo = 2 ^ m.lo * (2 ^ (m.hi + 1 - m.lo) - 1) := by
      rw [Nat.mul_sub, mul_one, ← pow_add, Nat.add_sub_cancel' hle]
    rw [hfactor, Nat.testBit_two_pow_mul, Nat.testBit_two_pow_sub_one, Bool.eq_iff_iff]
    simp only [ge_iff_le, Bool.and_eq_true, decide_eq_true_eq]
    omega
  · have hzero : 2 ^ (m.hi + 1) - 2 ^ m.lo = 0 :=
      Nat.sub_eq_zero_of_le (Nat.pow_le_pow_right Nat.two_pos (by omega))
    rw [hzero, Nat.zero_testBit, eq_comm, decide_eq_false_iff_not]
    omega

theorem testBit_get (m : Mask) (r i : ℕ) :
    (m.get r).testBit i = (decide (i < m.width) && r.testBit (m.lo + i)) := by
  rw [get, Nat.testBit_shiftRight, Nat.testBit_and, testBit_val, Bool.and_comm]
  congr 1
  rw [decide_eq_decide, width]
  omega

theorem testBit_set (w : ℕ) (m : Mask) (v i : ℕ) :
    (m.set w v).testBit i =
      (decide (i < w ∧ m.lo ≤ i ∧ i ≤ m.hi) && v.testBit (i - m.lo)) := by
  rw [set, Nat.testBit_and, Nat.testBit_mod_two_pow, Nat.testBit_shiftLeft, testBit_val,
    Bool.eq_iff_iff]
  simp only [Bool.and_eq_true, decide_eq_true_eq]
  tauto

/-- A field has no more bits than its mask. -/
theorem fits_get (m : Mask) (r : ℕ) : m.Fits (m.get r) := by
  refine Nat.lt_pow_two_of_testBit _ fun i hi => ?_
  rw [testBit_get]
  simp [hi]

/-- The field of a union of bits. -/
theorem get_or (m : Mask) (a b : ℕ) : m.get (a ||| b) = m.get a ||| m.get b := by
  refine Nat.eq_of_testBit_eq fun i => ?_
  simp only [testBit_get, Nat.testBit_or, Bool.and_or_distrib_left]

/-- Bits outside of the mask do not matter. -/
theorem get_and_val (m : Mask) (r : ℕ) : m.get (r &&& m.val) = m.get r := by
  rw [get, get, Nat.and_assoc, Nat.and_self]

theorem get_and_val_of_apart {m m' : Mask} (h : m.Apart m') (r : ℕ) :
    m.get (r &&& m'.val) = 0 := by
  refine Nat.eq_of_testBit_eq fun i => ?_
  rw [testBit_get, Nat.testBit_and, testBit_val, Nat.zero_testBit]
  unfold Apart at h
  by_cases hi : i < m.width
  · have hout : ¬ (m'.lo ≤ m.lo + i ∧ m.lo + i ≤ m'.hi) := by
      unfold width at hi
      omega
    simp [hout]
  · simp [hi]

@[simp] theorem get_zero (m : Mask) : m.get 0 = 0 := by simp [get]

/-- A value that fits its field is found there. -/
theorem get_set {w : ℕ} {m : Mask} {v : ℕ} (hw : m.hi < w) (hv : m.Fits v) :
    m.get (m.set w v) = v := by
  refine Nat.eq_of_testBit_eq fun i => ?_
  rw [testBit_get, testBit_set, Nat.add_sub_cancel_left]
  by_cases hi : i < m.width
  · have hin : m.lo + i < w ∧ m.lo ≤ m.lo + i ∧ m.lo + i ≤ m.hi := by
      unfold width at hi
      omega
    simp [hi, hin]
  · have hout : v.testBit i = false :=
      Nat.testBit_lt_two_pow (hv.trans_le (Nat.pow_le_pow_right Nat.two_pos (not_lt.mp hi)))
    simp [hi, hout]

/-- Nothing is found under a mask that lies apart. -/
theorem get_set_of_apart {w : ℕ} {m m' : Mask} {v : ℕ} (h : m.Apart m') :
    m.get (m'.set w v) = 0 := by
  refine Nat.eq_of_testBit_eq fun i => ?_
  rw [testBit_get, testBit_set, Nat.zero_testBit, Bool.and_eq_false_iff]
  by_cases hi : i < m.width
  · refine Or.inr ?_
    rw [Bool.and_eq_false_iff]
    refine Or.inl ?_
    unfold Apart at h
    unfold width at hi
    rw [decide_eq_false_iff_not]
    omega
  · exact Or.inl (by simpa using hi)


/-- A field moved back to where it was taken from. -/
theorem set_get {w : ℕ} {m : Mask} (hw : m.hi < w) (r : ℕ) :
    m.set w (m.get r) = r &&& m.val := by
  refine Nat.eq_of_testBit_eq fun i => ?_
  rw [testBit_set, testBit_get, Nat.testBit_and, testBit_val, Bool.eq_iff_iff]
  simp only [Bool.and_eq_true, decide_eq_true_eq, width]
  constructor
  · rintro ⟨⟨-, hlo, hhi⟩, -, hbit⟩
    rw [Nat.add_sub_cancel' hlo] at hbit
    exact ⟨hbit, hlo, hhi⟩
  · rintro ⟨hbit, hlo, hhi⟩
    rw [Nat.add_sub_cancel' hlo]
    exact ⟨⟨hhi.trans_lt hw, hlo, hhi⟩, decide_eq_true (by omega), hbit⟩

/-- A value without bits outside of the mask. -/
theorem and_val {m : Mask} {v : ℕ} (hlt : v < 2 ^ (m.hi + 1)) (hdvd : 2 ^ m.lo ∣ v) :
    v &&& m.val = v := by
  refine Nat.eq_of_testBit_eq fun i => ?_
  rw [Nat.testBit_and, testBit_val]
  by_cases hlo : i < m.lo
  · obtain ⟨k, rfl⟩ := hdvd
    simp [Nat.testBit_two_pow_mul, hlo.not_ge]
  · by_cases hhi : m.hi < i
    · simp [Nat.testBit_lt_two_pow (hlt.trans_le (Nat.pow_le_pow_right Nat.two_pos hhi))]
    · simp [not_lt.mp hlo, not_lt.mp hhi]

/-- The field as a number. -/
theorem get_eq (m : Mask) (r : ℕ) : m.get r = r / 2 ^ m.lo % 2 ^ m.width := by
  refine Nat.eq_of_testBit_eq fun i => ?_
  rw [testBit_get, Nat.testBit_mod_two_pow, Nat.testBit_div_two_pow, Nat.add_comm]

/-- A value moved to its field as a number. -/
theorem set_eq {w : ℕ} {m : Mask} {v : ℕ} (hle : m.lo ≤ m.hi) (hw : m.hi < w) (hv : m.Fits v) :
    m.set w v = v * 2 ^ m.lo := by
  have hlt : v * 2 ^ m.lo < 2 ^ (m.hi + 1) := by
    have hsplit : 2 ^ (m.hi + 1) = 2 ^ m.width * 2 ^ m.lo := by
      rw [← pow_add, width]
      congr 1
      omega
    rw [hsplit]
    exact Nat.mul_lt_mul_of_pos_right hv (Nat.two_pow_pos _)
  rw [set, Nat.shiftLeft_eq, Nat.mod_eq_of_lt (hlt.trans_le (Nat.pow_le_pow_right Nat.two_pos hw)),
    and_val hlt (Nat.dvd_mul_left _ _)]

/-- A field is set within its mask only. -/
theorem set_and_val_of_apart {w : ℕ} {m m' : Mask} (h : m.Apart m') (v : ℕ) :
    m.set w v &&& m'.val = 0 := by
  refine Nat.eq_of_testBit_eq fun i => ?_
  rw [Nat.testBit_and, testBit_set, testBit_val, Nat.zero_testBit]
  unfold Apart at h
  by_cases hm : m.lo ≤ i ∧ i ≤ m.hi
  · have hm' : ¬ (m'.lo ≤ i ∧ i ≤ m'.hi) := by omega
    simp [hm']
  · simp [hm]

end Mask

/-! ## Packed words -/

/-- A word of fields, each a mask with its value. -/
def pack (fields : List (Mask × ℕ)) : ℕ :=
  fields.foldr (fun f word => f.1.set 32 f.2 ||| word) 0

/-- No field of the word reaches into another one or out of the word. -/
def LaidOut (fields : List (Mask × ℕ)) : Prop :=
  (fields.map Prod.fst).Pairwise Mask.Apart ∧ ∀ m ∈ fields.map Prod.fst, m.hi < 32

theorem get_pack_of_apart {m : Mask} {fields : List (Mask × ℕ)}
    (h : ∀ f ∈ fields, m.Apart f.1) : m.get (pack fields) = 0 := by
  induction fields with
  | nil => exact m.get_zero
  | cons f fields ih =>
    have hrest := ih fun g hg => h g (List.mem_cons_of_mem _ hg)
    simp only [pack] at hrest
    rw [pack, List.foldr_cons, Mask.get_or, Mask.get_set_of_apart (h f List.mem_cons_self), hrest]
    rfl

/-- A packed word has no bits above its fields. -/
theorem pack_lt {fields : List (Mask × ℕ)} {n : ℕ} (h : ∀ f ∈ fields, f.1.hi < n) :
    pack fields < 2 ^ n := by
  induction fields with
  | nil => exact Nat.two_pow_pos n
  | cons f fields ih =>
    have hrest := ih fun g hg => h g (List.mem_cons_of_mem _ hg)
    have hhi : f.1.hi + 1 ≤ n := h f List.mem_cons_self
    have hfirst : f.1.set 32 f.2 < 2 ^ n := by
      refine Nat.and_lt_two_pow _ ?_
      have hval : f.1.val < 2 ^ (f.1.hi + 1) :=
        Nat.sub_lt (Nat.two_pow_pos _) (Nat.two_pow_pos _)
      exact hval.trans_le (Nat.pow_le_pow_right Nat.two_pos hhi)
    exact Nat.or_lt_two_pow hfirst hrest

/-- Whatever the values, no field of the word touches the bits of another one. -/
def FieldsApart (fields : List (Mask × ℕ)) : Prop :=
  (fields.map Prod.fst).Pairwise fun m m' =>
    ∀ v, m.set 32 v &&& m'.val = 0 ∧ m'.set 32 v &&& m.val = 0

theorem LaidOut.fieldsApart {fields : List (Mask × ℕ)} (h : LaidOut fields) :
    FieldsApart fields :=
  h.1.imp fun hmask v =>
    ⟨Mask.set_and_val_of_apart hmask v, Mask.set_and_val_of_apart hmask.symm v⟩

/-- Every value of the word fits its field. -/
def AllFit (fields : List (Mask × ℕ)) : Prop := ∀ f ∈ fields, f.1.Fits f.2

instance (fields : List (Mask × ℕ)) : Decidable (AllFit fields) :=
  inferInstanceAs (Decidable (∀ f ∈ fields, f.1.Fits f.2))

/-- A field of a packed word holds its value. -/
theorem get_pack {fields : List (Mask × ℕ)} (hlaid : LaidOut fields) {m : Mask} {v : ℕ}
    (hmem : (m, v) ∈ fields) (hfits : m.Fits v) : m.get (pack fields) = v := by
  obtain ⟨hpair, hwidth⟩ := hlaid
  induction fields with
  | nil => simp at hmem
  | cons f fields ih =>
    rw [List.map_cons, List.pairwise_cons] at hpair
    rw [pack, List.foldr_cons, Mask.get_or]
    rcases List.mem_cons.mp hmem with rfl | hmem
    · have hrest : m.get (pack fields) = 0 := get_pack_of_apart fun g hg =>
        hpair.1 g.1 (List.mem_map_of_mem hg)
      simp only [pack] at hrest
      rw [Mask.get_set (hwidth m (by simp)) hfits, hrest, Nat.or_zero]
    · have hrest := ih hmem hpair.2 fun m hm => hwidth m (List.mem_cons_of_mem _ hm)
      simp only [pack] at hrest
      have hfirst : m.Apart f.1 := (hpair.1 m (List.mem_map_of_mem hmem)).symm
      rw [Mask.get_set_of_apart hfirst, hrest, Nat.zero_or]

/-- All fields of a packed word hold their values. -/
theorem gets_pack {fields : List (Mask × ℕ)} (hlaid : LaidOut fields) (hfit : AllFit fields)
    {word : ℕ} (hword : word = pack fields) :
    fields.map (fun f => f.1.get word) = fields.map Prod.snd := by
  subst hword
  exact List.map_congr_left fun f hf => get_pack hlaid hf (hfit f hf)

/-- A word that is one field. -/
theorem pack_word {v : ℕ} (h : v < 2 ^ 32) : pack [(⟨31, 0⟩, v)] = v := by
  have hset : Mask.set 32 ⟨31, 0⟩ v = v * 2 ^ 0 := Mask.set_eq (by decide) (by decide) h
  simp [pack, hset]

/-- The halves of a word of 64 bits. -/
theorem join_halves {v : ℕ} (h : v < 2 ^ 64) :
    ((v >>> 32 &&& 0xffffffff) <<< 32) % 2 ^ 64 ||| (v &&& 0xffffffff) = v := by
  have hhi : v >>> 32 &&& 0xffffffff = v / 2 ^ 32 := by
    rw [show 0xffffffff = 2 ^ 32 - 1 from rfl, Nat.and_two_pow_sub_one_eq_mod,
      Nat.shiftRight_eq_div_pow]
    omega
  have hlo : v &&& 0xffffffff = v % 2 ^ 32 := by
    rw [show 0xffffffff = 2 ^ 32 - 1 from rfl, Nat.and_two_pow_sub_one_eq_mod]
  have hmod : (v / 2 ^ 32) <<< 32 % 2 ^ 64 = (v / 2 ^ 32) <<< 32 := by
    rw [Nat.shiftLeft_eq]
    omega
  rw [hhi, hlo, hmod, ← Nat.shiftLeft_add_eq_or_of_lt (Nat.mod_lt _ (Nat.two_pow_pos 32)),
    Nat.shiftLeft_eq]
  omega

/-- The halves in words of their own. -/
theorem join_packed_halves {v : ℕ} (h : v < 2 ^ 64) :
    (pack [(⟨31, 0⟩, v >>> 32 &&& 0xffffffff)] <<< 32) % 2 ^ 64 |||
      pack [(⟨31, 0⟩, v &&& 0xffffffff)] = v := by
  rw [pack_word (Nat.and_lt_two_pow _ (by decide)), pack_word (Nat.and_lt_two_pow _ (by decide)),
    join_halves h]

/-- Conversion to an unsigned integer of `n` bits. -/
def trunc (n x : ℕ) : ℕ := x % 2 ^ n

theorem trunc_of_lt {n x : ℕ} (h : x < 2 ^ n) : trunc n x = x := Nat.mod_eq_of_lt h

/-- A field no wider than the variable it is read into. -/
theorem trunc_get {n : ℕ} {m : Mask} (hn : m.width ≤ n) (r : ℕ) : trunc n (m.get r) = m.get r :=
  trunc_of_lt ((m.fits_get r).trans_le (Nat.pow_le_pow_right Nat.two_pos hn))

end OnicDriver.Lib
