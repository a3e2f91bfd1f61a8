import Mathlib.Data.List.Forall2
import Mathlib.Data.Nat.Notation
import Mathlib.Tactic.Ring

/-!
# Structures in memory

Little-endian numbers in a memory of bytes, and the layout of C structures:
members follow each other at their natural alignment, and the size of a
structure is a multiple of its alignment. What is stored to the members of a
structure is loaded from them again.
-/

namespace OnicDriver.Lib

/-- A memory of bytes. -/
abbrev ByteMem := ℕ → UInt8

namespace ByteMem

/-- The little-endian number of `n` bytes at `o`. -/
def load (m : ByteMem) (o : ℕ) : ℕ → ℕ
  | 0 => 0
  | n + 1 => (m o).toNat + 256 * load m (o + 1) n

/-- The memory after a number was stored to the `n` bytes at `o`. -/
def store (m : ByteMem) (o n v : ℕ) : ByteMem := fun a =>
  if o ≤ a ∧ a < o + n then UInt8.ofNat (v / 256 ^ (a - o)) else m a

variable {m m' : ByteMem} {o n v : ℕ}

theorem store_of_outside {a : ℕ} (h : a < o ∨ o + n ≤ a) : m.store o n v a = m a :=
  if_neg (by omega)

/-- A load depends on the loaded bytes only. -/
theorem load_congr (h : ∀ a, o ≤ a → a < o + n → m a = m' a) : m.load o n = m'.load o n := by
  induction n generalizing o with
  | zero => rfl
  | succ n ih =>
    have hrest : m.load (o + 1) n = m'.load (o + 1) n :=
      ih fun a ha hlt => h a (by omega) (by omega)
    rw [load, load, h o le_rfl (by omega), hrest]

theorem load_lt (m : ByteMem) (o n : ℕ) : m.load o n < 256 ^ n := by
  induction n generalizing o with
  | zero => exact Nat.one_pos
  | succ n ih =>
    have hbyte := (m o).toNat_lt
    have hrest := ih (o + 1)
    rw [load, pow_succ]
    omega

/-- A load of adjacent bytes in two parts. -/
theorem load_add (m : ByteMem) (o n k : ℕ) :
    m.load o (n + k) = m.load o n + 256 ^ n * m.load (o + n) k := by
  induction n generalizing o with
  | zero => simp [load]
  | succ n ih =>
    have hrest := ih (o + 1)
    rw [Nat.succ_add, load, load, hrest, show o + 1 + n = o + (n + 1) by omega, pow_succ]
    ring

/-- One byte of a stored number. -/
theorem toNat_store {k : ℕ} (hk : k < n) :
    (m.store o n v (o + k)).toNat = v / 256 ^ k % 256 := by
  rw [store, if_pos (by omega), Nat.add_sub_cancel_left]
  exact UInt8.toNat_ofNat'

/-- The bytes of a number make up the number. -/
theorem load_eq_mod {v : ℕ} (h : ∀ k < n, (m (o + k)).toNat = v / 256 ^ k % 256) :
    m.load o n = v % 256 ^ n := by
  induction n generalizing o v with
  | zero => simp [load, Nat.mod_one]
  | succ n ih =>
    have hfirst := h 0 (by omega)
    have hrest : m.load (o + 1) n = v / 256 % 256 ^ n := by
      refine ih fun k hk => ?_
      rw [Nat.div_div_eq_div_mul, ← pow_succ', ← h (k + 1) (by omega), Nat.add_right_comm,
        Nat.add_assoc]
    rw [load, hrest, pow_succ', Nat.mod_mul]
    simpa using hfirst

/-- What is loaded after a store is what fits of the stored number. -/
theorem load_store (m : ByteMem) (o n v : ℕ) : (m.store o n v).load o n = v % 256 ^ n :=
  load_eq_mod fun _ hk => toNat_store hk

/-- One byte of a loaded number. -/
theorem load_byte {k : ℕ} (hk : k < n) : m.load o n / 256 ^ k % 256 = (m (o + k)).toNat := by
  induction n generalizing o k with
  | zero => omega
  | succ n ih =>
    have hbyte : (m o).toNat < 256 := (m o).toNat_lt
    rw [load]
    cases k with
    | zero =>
      rw [pow_zero, Nat.div_one]
      change _ = (m o).toNat
      omega
    | succ k =>
      have hrest := ih (o := o + 1) (k := k) (by omega)
      rw [pow_succ', ← Nat.div_div_eq_div_mul, Nat.add_mul_div_left _ _ (by decide),
        Nat.div_eq_of_lt hbyte, Nat.zero_add, hrest, Nat.add_assoc, Nat.add_comm 1 k]

/-- A store elsewhere does not disturb a load. -/
theorem load_store_of_disjoint {o' n' : ℕ} (h : o + n ≤ o' ∨ o' + n' ≤ o) :
    (m.store o' n' v).load o n = m.load o n :=
  load_congr fun a ha hlt => store_of_outside (by omega)

end ByteMem

/-! ## Layout -/

/-- Size and alignment of a type. -/
structure CType where
  size : ℕ
  align : ℕ
  align_pos : 0 < align

/-- An offset rounded up to an alignment. -/
def alignUp (a n : ℕ) : ℕ := (n + a - 1) / a * a

theorem le_alignUp {a : ℕ} (ha : 0 < a) (n : ℕ) : n ≤ alignUp a n := by
  have hrem : (n + a - 1) % a < a := Nat.mod_lt _ ha
  have hdiv := Nat.div_add_mod' (n + a - 1) a
  unfold alignUp
  omega

namespace CType

def u8 : CType := ⟨1, 1, by decide⟩
def u16 : CType := ⟨2, 2, by decide⟩
def u32 : CType := ⟨4, 4, by decide⟩
def u64 : CType := ⟨8, 8, by decide⟩

def array (t : CType) (n : ℕ) : CType := ⟨n * t.size, t.align, t.align_pos⟩

/-- The offset behind members placed from an offset on. -/
def endOf : ℕ → List CType → ℕ
  | o, [] => o
  | o, t :: ts => endOf (alignUp t.align o + t.size) ts

/-- The largest of the alignments. -/
def maxAlign (ts : List CType) : ℕ := (ts.map align).foldr max 1

theorem maxAlign_pos (ts : List CType) : 0 < maxAlign ts := by
  unfold maxAlign
  induction ts with
  | nil => exact Nat.one_pos
  | cons t ts ih => exact lt_max_of_lt_left t.align_pos

/-- The type of a structure with the given members. -/
def struct (ts : List CType) : CType :=
  ⟨alignUp (maxAlign ts) (endOf 0 ts), maxAlign ts, maxAlign_pos ts⟩

/-- The type of a union of the given members. -/
def union (ts : List CType) : CType :=
  ⟨alignUp (maxAlign ts) ((ts.map size).foldr max 0), maxAlign ts, maxAlign_pos ts⟩

end CType

/-- Where a member lies. -/
structure Field where
  offset : ℕ
  size : ℕ
  deriving DecidableEq, Repr

namespace Field

/-- The first member ends before the second one starts. -/
def Before (f g : Field) : Prop := f.offset + f.size ≤ g.offset

instance (f g : Field) : Decidable (f.Before g) := inferInstanceAs (Decidable (_ ≤ _))

end Field

/-- Members placed one after the other from an offset on. -/
def place : ℕ → List CType → List Field
  | _, [] => []
  | o, t :: ts => ⟨alignUp t.align o, t.size⟩ :: place (alignUp t.align o + t.size) ts

theorem endOf_ge (o : ℕ) (ts : List CType) : o ≤ CType.endOf o ts := by
  induction ts generalizing o with
  | nil => exact le_rfl
  | cons t ts ih =>
    have hstart := le_alignUp t.align_pos o
    have hrest := ih (alignUp t.align o + t.size)
    rw [CType.endOf]
    omega

/-- Members lie between the first and the last offset. -/
theorem place_bounds {o : ℕ} {ts : List CType} {f : Field} (hf : f ∈ place o ts) :
    o ≤ f.offset ∧ f.offset + f.size ≤ CType.endOf o ts := by
  induction ts generalizing o with
  | nil => simp [place] at hf
  | cons t ts ih =>
    have hstart := le_alignUp t.align_pos o
    rw [place, List.mem_cons] at hf
    rw [CType.endOf]
    obtain rfl | hf := hf
    · exact ⟨hstart, endOf_ge _ _⟩
    · have hrest := ih hf
      omega

/-- Members follow each other. -/
theorem place_pairwise (o : ℕ) (ts : List CType) : (place o ts).Pairwise Field.Before := by
  induction ts generalizing o with
  | nil => exact List.Pairwise.nil
  | cons t ts ih => exact List.Pairwise.cons (fun f hf => (place_bounds hf).1) (ih _)

/-- Members of a structure lie inside of it. -/
theorem place_le_size {ts : List CType} {f : Field} (hf : f ∈ place 0 ts) :
    f.offset + f.size ≤ (CType.struct ts).size :=
  (place_bounds hf).2.trans (le_alignUp (CType.maxAlign_pos ts) _)

/-! ## Structures in memory -/

/-- The values fit their members. -/
def ValuesFit (fs : List Field) (vs : List ℕ) : Prop :=
  List.Forall₂ (fun f v => v < 256 ^ f.size) fs vs

/-- Each member of the structure at `base` is stored. -/
def storeAll (base : ℕ) : List Field → List ℕ → ByteMem → ByteMem
  | f :: fs, v :: vs, m => storeAll base fs vs (m.store (base + f.offset) f.size v)
  | _, _, m => m

/-- Each member of the structure at `base` is loaded. -/
def loadAll (base : ℕ) (fs : List Field) (m : ByteMem) : List ℕ :=
  fs.map fun f => m.load (base + f.offset) f.size

variable {base : ℕ} {fs : List Field} {vs : List ℕ} {m m' : ByteMem}

/-- Storing a structure changes only the bytes of its members. -/
theorem storeAll_of_outside {a : ℕ}
    (h : ∀ f ∈ fs, a < base + f.offset ∨ base + f.offset + f.size ≤ a) :
    storeAll base fs vs m a = m a := by
  induction fs generalizing vs m with
  | nil => rfl
  | cons f fs ih =>
    cases vs with
    | nil => rfl
    | cons v vs =>
      rw [storeAll, ih fun g hg => h g (List.mem_cons_of_mem _ hg)]
      exact ByteMem.store_of_outside (h f List.mem_cons_self)

/-- What is stored to the members of a structure is loaded from them. -/
theorem loadAll_storeAll (hfs : fs.Pairwise Field.Before) (hfit : ValuesFit fs vs) :
    loadAll base fs (storeAll base fs vs m) = vs := by
  induction hfit generalizing m with
  | nil => rfl
  | @cons f v fs vs hv _ ih =>
    have hfirst : ∀ g ∈ fs, f.offset + f.size ≤ g.offset := fun g hg =>
      List.rel_of_pairwise_cons hfs hg
    have hkeep : (storeAll base fs vs (m.store (base + f.offset) f.size v)).load
        (base + f.offset) f.size = v := by
      have hframe : ∀ a, base + f.offset ≤ a → a < base + f.offset + f.size →
          storeAll base fs vs (m.store (base + f.offset) f.size v) a =
            m.store (base + f.offset) f.size v a := by
        intro a ha hlt
        refine storeAll_of_outside fun g hg => ?_
        have hg := hfirst g hg
        omega
      rw [ByteMem.load_congr hframe, ByteMem.load_store, Nat.mod_eq_of_lt hv]
    rw [loadAll, storeAll, List.map_cons, hkeep]
    exact congrArg (v :: ·) (ih hfs.of_cons)

/-- A copied structure: its members are those of the source. -/
theorem storeAll_loadAll (hfs : fs.Pairwise Field.Before) {f : Field} (hf : f ∈ fs) {a : ℕ}
    (hle : base + f.offset ≤ a) (hlt : a < base + f.offset + f.size) :
    storeAll base fs (loadAll base fs m') m a = m' a := by
  induction fs generalizing m with
  | nil => simp at hf
  | cons g fs ih =>
    rw [loadAll, List.map_cons, storeAll]
    rcases List.mem_cons.mp hf with rfl | hf
    · rw [storeAll_of_outside fun h hh => ?_]
      · refine UInt8.toNat_inj.mp ?_
        obtain ⟨k, rfl⟩ := Nat.exists_eq_add_of_le hle
        rw [ByteMem.toNat_store (by omega)]
        exact ByteMem.load_byte (by omega)
      · have hbehind : f.offset + f.size ≤ h.offset := List.rel_of_pairwise_cons hfs hh
        omega
    · exact ih hfs.of_cons hf

/-- What is stored to a byte does not depend on what was there. -/
theorem storeAll_congr {a : ℕ} (h : m a = m' a) :
    storeAll base fs vs m a = storeAll base fs vs m' a := by
  induction fs generalizing vs m m' with
  | nil => exact h
  | cons f fs ih =>
    cases vs with
    | nil => exact h
    | cons v vs =>
      refine ih ?_
      unfold ByteMem.store
      split
      · rfl
      · exact h

/-- What is stored to a byte of a member does not depend on what was there. -/
theorem storeAll_inside (hlength : vs.length = fs.length) {f : Field} (hf : f ∈ fs) {a : ℕ}
    (hle : base + f.offset ≤ a) (hlt : a < base + f.offset + f.size) :
    storeAll base fs vs m a = storeAll base fs vs m' a := by
  induction fs generalizing vs m m' with
  | nil => simp at hf
  | cons g fs ih =>
    cases vs with
    | nil => simp at hlength
    | cons v vs =>
      rw [storeAll, storeAll]
      rcases List.mem_cons.mp hf with rfl | hf
      · refine storeAll_congr ?_
        unfold ByteMem.store
        rw [if_pos ⟨hle, hlt⟩, if_pos ⟨hle, hlt⟩]
      · exact ih (by simpa using hlength) hf

/-- A structure type: its members, and its values as lists of numbers. -/
class CStruct (α : Type) where
  members : List CType
  values : α → List ℕ
  ofValues : (ℕ → ℕ) → α
  values_ofValues : ∀ v, values (ofValues v) = (List.range members.length).map v
  ofValues_values : ∀ a, ofValues (fun i => (values a).getD i 0) = a

namespace CStruct

variable {α : Type} [CStruct α]

def fields (α : Type) [CStruct α] : List Field := place 0 (members α)

def size (α : Type) [CStruct α] : ℕ := (CType.struct (members α)).size

/-- Every number fits its member. -/
def Fits (a : α) : Prop := ValuesFit (fields α) (values a)

instance (a : α) : Decidable (Fits a) :=
  inferInstanceAs (Decidable (List.Forall₂ (fun f v => v < 256 ^ f.size) (fields α) (values a)))

/-- A structure stored at `base`. -/
def store (base : ℕ) (a : α) (m : ByteMem) : ByteMem := storeAll base (fields α) (values a) m

/-- The structure found at `base`. -/
def load (α : Type) [CStruct α] (base : ℕ) (m : ByteMem) : α :=
  ofValues fun i => (loadAll base (fields α) m).getD i 0

theorem length_fields : (fields α).length = (members α).length := by
  have hplace : ∀ (o : ℕ) (ts : List CType), (place o ts).length = ts.length := by
    intro o ts
    induction ts generalizing o with
    | nil => rfl
    | cons t ts ih => rw [place, List.length_cons, List.length_cons, ih]
  exact hplace 0 _

theorem values_load (base : ℕ) (m : ByteMem) :
    values (load α base m) = loadAll base (fields α) m := by
  have hlength : (loadAll base (fields α) m).length = (members α).length := by
    rw [loadAll, List.length_map, length_fields]
  rw [load, values_ofValues, ← hlength]
  refine List.ext_getElem (by simp) fun i hi hi' => ?_
  simp [List.getD_eq_getElem?_getD, hi']

theorem values_injective {a b : α} (h : values a = values b) : a = b := by
  rw [← ofValues_values a, ← ofValues_values b, h]

/-- A structure is found if each of its numbers is. -/
theorem load_eq_iff {a : α} : load α base m = a ↔ loadAll base (fields α) m = values a := by
  rw [← values_load]
  exact ⟨congrArg values, values_injective⟩

/-- What is stored is found. -/
@[simp] theorem load_store {a : α} (ha : Fits a) : load α base (store base a m) = a :=
  load_eq_iff.mpr (loadAll_storeAll (place_pairwise 0 _) ha)

/-- Storing a structure changes bytes inside of it only. -/
theorem store_of_outside {a : α} {i : ℕ} (h : i < base ∨ base + size α ≤ i) :
    store base a m i = m i := by
  refine storeAll_of_outside fun f hf => ?_
  have hin : f.offset + f.size ≤ size α := place_le_size hf
  omega

theorem store_congr {a : α} {i : ℕ} (h : m i = m' i) : store base a m i = store base a m' i :=
  storeAll_congr h

/-- What is found depends on the bytes of the structure only. -/
theorem load_congr (h : ∀ i, base ≤ i → i < base + size α → m i = m' i) :
    load α base m = load α base m' := by
  refine load_eq_iff.mpr ?_
  rw [values_load]
  refine List.map_congr_left fun f hf => ByteMem.load_congr fun i hi hlt => ?_
  have hin : f.offset + f.size ≤ size α := place_le_size hf
  exact h i (by omega) (by omega)

/-- In an empty memory every number is 0. -/
theorem load_zero (base : ℕ) : load α base (fun _ => 0) = ofValues fun _ => 0 := by
  have hbyte : ∀ o n, ByteMem.load (fun _ => 0) o n = 0 := by
    intro o n
    induction n generalizing o with
    | zero => rfl
    | succ n ih => rw [ByteMem.load, ih]; rfl
  unfold load loadAll
  simp only [hbyte]
  refine congrArg ofValues (funext fun i => ?_)
  rw [List.getD_eq_getElem?_getD, List.getElem?_map]
  cases (fields α)[i]? <;> rfl

/-- Storing a structure elsewhere does not matter. -/
theorem load_store_of_disjoint {β : Type} [CStruct β] {base' : ℕ} {b : β}
    (h : base' + size β ≤ base ∨ base + size α ≤ base') :
    load α base (store base' b m) = load α base m :=
  load_congr fun i hi hlt => store_of_outside (by omega)

/-- A structure of which only the bytes below `limit` were copied is found where the members
that reach beyond happen to be there. -/
theorem load_eq_iff_of_agree {a : α} (ha : load α base m' = a) {limit : ℕ}
    (h : ∀ i < limit, m i = m' i) :
    load α base m = a ↔ ∀ p ∈ (fields α).zip (values a),
      limit < base + p.1.offset + p.1.size → m.load (base + p.1.offset) p.1.size = p.2 := by
  have hfound : loadAll base (fields α) m' = values a := load_eq_iff.mp ha
  have hzip : (fields α).zip (values a) =
      (fields α).map fun f => (f, m'.load (base + f.offset) f.size) := by
    rw [← hfound, loadAll]
    conv_lhs => arg 1; rw [← List.map_id (fields α)]
    exact List.zip_map'
  rw [hzip, List.forall_mem_map, load_eq_iff, ← hfound, loadAll, loadAll, List.map_inj_left]
  refine forall₂_congr fun f _ => ⟨fun hf _ => hf, fun hf => ?_⟩
  by_cases hlimit : limit < base + f.offset + f.size
  · exact hf hlimit
  · exact ByteMem.load_congr fun i hi hlt => h i (by omega)

/-- A byte of a member is overwritten. -/
theorem store_inside {a : α} {f : Field} (hf : f ∈ fields α) {i : ℕ} (hle : base + f.offset ≤ i)
    (hlt : i < base + f.offset + f.size) : store base a m i = store base a m' i := by
  have hlength : (values a).length = (fields α).length := by
    rw [← ofValues_values a, values_ofValues, length_fields, List.length_map, List.length_range]
  exact storeAll_inside hlength hf hle hlt

end CStruct

end OnicDriver.Lib
