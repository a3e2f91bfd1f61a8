import OnicDriver.Access.Context
import OnicDriver.Lib.Bits
import Mathlib.Data.Fintype.Basic

/-!
# Fields and indirect context registers

The field macros of `qdma_access_common.h`, and the memory of contexts behind the
indirect registers of a device that stores the data words unchanged.
-/

namespace OnicDriver.Access

open Lib

/-! ## Field macros -/

/-- `get_trailing_zeros`. -/
def getTrailingZeros (value : ℕ) : ℕ :=
  let (pos, value) := if value &&& 0xffffffff = 0 then (32, value >>> 32) else (0, value)
  let (pos, value) := if value &&& 0xffff = 0 then (pos + 16, value >>> 16) else (pos, value)
  let (pos, value) := if value &&& 0xff = 0 then (pos + 8, value >>> 8) else (pos, value)
  let (pos, value) := if value &&& 0xf = 0 then (pos + 4, value >>> 4) else (pos, value)
  let (pos, value) := if value &&& 0x3 = 0 then (pos + 2, value >>> 2) else (pos, value)
  if value &&& 0x1 = 0 then pos + 1 else pos

/-- `GENMASK`. -/
def GENMASK (h l : ℕ) : ℕ := (0xFFFFFFFF <<< l) % 2 ^ 32 &&& (0xFFFFFFFF >>> (31 - h))

/-- `GENMASK_ULL`. -/
def GENMASK_ULL (h l : ℕ) : ℕ :=
  (0xFFFFFFFFFFFFFFFF <<< l) % 2 ^ 64 &&& (0xFFFFFFFFFFFFFFFF >>> (63 - h))

/-- `BIT`. -/
def BIT (n : ℕ) : ℕ := (1 <<< n) % 2 ^ 32

/-- `FIELD_SET`, with the shift at `w` bits. -/
def FIELD_SET (w mask val : ℕ) : ℕ := (val <<< getTrailingZeros mask) % 2 ^ w &&& mask

/-- `FIELD_GET`. -/
def FIELD_GET (mask reg : ℕ) : ℕ := (reg &&& mask) >>> getTrailingZeros mask

theorem getTrailingZeros_val {m : Mask} (hle : m.lo ≤ m.hi) (hlt : m.hi < 64) :
    getTrailingZeros m.val = m.lo := by
  have hall : ∀ h < 64, ∀ l ≤ h, getTrailingZeros (Mask.val ⟨h, l⟩) = l := by decide +kernel
  exact hall m.hi hlt m.lo hle

theorem genmask_eq {h l : ℕ} (hle : l ≤ h) (hlt : h < 32) : GENMASK h l = Mask.val ⟨h, l⟩ := by
  have hall : ∀ h < 32, ∀ l ≤ h, GENMASK h l = Mask.val ⟨h, l⟩ := by decide +kernel
  exact hall h hlt l hle

theorem genmaskUll_eq {h l : ℕ} (hle : l ≤ h) (hlt : h < 64) :
    GENMASK_ULL h l = Mask.val ⟨h, l⟩ := by
  have hall : ∀ h < 64, ∀ l ≤ h, GENMASK_ULL h l = Mask.val ⟨h, l⟩ := by decide +kernel
  exact hall h hlt l hle

theorem bit_eq {n : ℕ} (hlt : n < 32) : BIT n = Mask.val ⟨n, n⟩ := by
  have hall : ∀ n < 32, BIT n = Mask.val ⟨n, n⟩ := by decide +kernel
  exact hall n hlt

/-- The macros with the masks of the register headers are the operations on fields. -/
theorem fieldSet_eq {m : Mask} (hle : m.lo ≤ m.hi) (hlt : m.hi < 64) (w v : ℕ) :
    FIELD_SET w m.val v = m.set w v := by
  rw [FIELD_SET, getTrailingZeros_val hle hlt, Mask.set]

theorem fieldGet_eq {m : Mask} (hle : m.lo ≤ m.hi) (hlt : m.hi < 64) (r : ℕ) :
    FIELD_GET m.val r = m.get r := by
  rw [FIELD_GET, getTrailingZeros_val hle hlt, Mask.get]

/-! ## Indirect registers -/

/-- `enum ind_ctxt_cmd_sel`. -/
inductive IndCtxtCmdSel
  | swC2h
  | swH2c
  | hwC2h
  | hwH2c
  | crC2h
  | crH2c
  | cmpt
  | pftch
  | intCoal
  | pasidRamLow
  | pasidRamHigh
  | timer
  | fmap
  deriving DecidableEq, Repr

/-- The stored words: context, hardware queue, word. -/
abbrev IndCtxtMem := IndCtxtCmdSel → ℕ → ℕ → ℕ

/-- The queue number in the command register. -/
def cmdQid (hwQid : ℕ) : ℕ := hwQid % 2 ^ 11

/-- The write through `numRegs` data registers. Those without a word of data are zero. -/
def indirectRegWrite (numRegs : ℕ) (sel : IndCtxtCmdSel) (hwQid : ℕ) (data : List ℕ)
    (mem : IndCtxtMem) : IndCtxtMem :=
  fun sel' qid i =>
    if sel' = sel ∧ qid = cmdQid hwQid then if i < numRegs then data.getD i 0 else 0
    else mem sel' qid i

/-- The read of the first `cnt` words. -/
def indirectRegRead (sel : IndCtxtCmdSel) (hwQid cnt : ℕ) (mem : IndCtxtMem) (i : ℕ) : ℕ :=
  if i < cnt then mem sel (cmdQid hwQid) i else 0

/-- The error code for invalid arguments. -/
def QDMA_ERR_INV_PARAM : ℤ := 1

/-- The last trigger mode of `enum qdma_cmpt_update_trig_mode`. -/
def QDMA_CMPT_UPDATE_TRIG_MODE_TMR_CNTR : ℕ := 5

/-- The number of data registers of the soft cores. -/
def QDMA_IND_CTXT_DATA_NUM_REGS : ℕ := 8

/-- The selector of the software context. -/
def swSel (c2h : Bool) : IndCtxtCmdSel := if c2h then .swC2h else .swH2c

/-! ## Masks shared by the access layers -/

def QDMA_PFTCH_CTXT_SW_CRDT_GET_H_MASK : Mask := ⟨15, 3⟩
def QDMA_PFTCH_CTXT_SW_CRDT_GET_L_MASK : Mask := ⟨2, 0⟩

def QDMA_COMPL_CTXT_BADDR_GET_H_MASK : Mask := ⟨63, 38⟩
def QDMA_COMPL_CTXT_BADDR_GET_L_MASK : Mask := ⟨37, 12⟩
def QDMA_COMPL_CTXT_PIDX_GET_H_MASK : Mask := ⟨15, 4⟩
def QDMA_COMPL_CTXT_PIDX_GET_L_MASK : Mask := ⟨3, 0⟩

def QDMA_INTR_CTXT_BADDR_GET_H_MASK : Mask := ⟨63, 61⟩
def QDMA_INTR_CTXT_BADDR_GET_M_MASK : Mask := ⟨60, 29⟩
def QDMA_INTR_CTXT_BADDR_GET_L_MASK : Mask := ⟨28, 12⟩

/-! ## Values in parts -/

theorem swCrdt_join {v : ℕ} (h : v < 2 ^ 16) :
    QDMA_PFTCH_CTXT_SW_CRDT_GET_L_MASK.set 32 (QDMA_PFTCH_CTXT_SW_CRDT_GET_L_MASK.get v) |||
      QDMA_PFTCH_CTXT_SW_CRDT_GET_H_MASK.set 32 (QDMA_PFTCH_CTXT_SW_CRDT_GET_H_MASK.get v) = v := by
  rw [Mask.set_get (by decide), Mask.set_get (by decide), ← Nat.and_or_distrib_left]
  exact Mask.and_val (m := ⟨15, 0⟩) h (one_dvd _)

theorem cmptPidx_join {v : ℕ} (h : v < 2 ^ 16) :
    QDMA_COMPL_CTXT_PIDX_GET_L_MASK.set 32 (QDMA_COMPL_CTXT_PIDX_GET_L_MASK.get v) |||
      QDMA_COMPL_CTXT_PIDX_GET_H_MASK.set 32 (QDMA_COMPL_CTXT_PIDX_GET_H_MASK.get v) = v := by
  rw [Mask.set_get (by decide), Mask.set_get (by decide), ← Nat.and_or_distrib_left]
  exact Mask.and_val (m := ⟨15, 0⟩) h (one_dvd _)

theorem intrBaddr_join {v : ℕ} (h : v < 2 ^ 64) (haligned : 2 ^ 12 ∣ v) :
    QDMA_INTR_CTXT_BADDR_GET_L_MASK.set 64 (QDMA_INTR_CTXT_BADDR_GET_L_MASK.get v) |||
      QDMA_INTR_CTXT_BADDR_GET_M_MASK.set 64 (QDMA_INTR_CTXT_BADDR_GET_M_MASK.get v) |||
      QDMA_INTR_CTXT_BADDR_GET_H_MASK.set 64 (QDMA_INTR_CTXT_BADDR_GET_H_MASK.get v) = v := by
  rw [Mask.set_get (by decide), Mask.set_get (by decide), Mask.set_get (by decide),
    ← Nat.and_or_distrib_left, ← Nat.and_or_distrib_left]
  exact Mask.and_val (m := ⟨63, 12⟩) h haligned

variable {n hwQid hwQid' cnt : ℕ} {sel sel' : IndCtxtCmdSel} {data : List ℕ} {mem : IndCtxtMem}

/-- What was written is read back. -/
theorem indirectRegRead_write (hcnt : cnt ≤ n) :
    indirectRegRead sel hwQid cnt (indirectRegWrite n sel hwQid data mem) =
      fun i => if i < cnt then data.getD i 0 else 0 := by
  funext i
  unfold indirectRegRead indirectRegWrite
  by_cases hi : i < cnt
  · simp [hi, hi.trans_le hcnt]
  · simp [hi]

/-- The words are those of the fields, and every field is found. -/
def Holds (w : ℕ → ℕ) (words : List (List (Mask × ℕ))) : Prop :=
  ∀ i fields, words[i]? = some fields →
    w i = pack fields ∧ fields.map (fun f => f.1.get (w i)) = fields.map Prod.snd

/-- The words of a context that was written hold its fields. -/
theorem holds_of_pack {words : List (List (Mask × ℕ))} (hlaid : ∀ word ∈ words, LaidOut word)
    (hfit : ∀ word ∈ words, AllFit word) {w : ℕ → ℕ}
    (hw : ∀ i fields, words[i]? = some fields → w i = pack fields) : Holds w words := by
  intro i fields hfields
  have hmem := List.mem_of_getElem? hfields
  exact ⟨hw i fields hfields,
    gets_pack (hlaid fields hmem) (hfit fields hmem) (hw i fields hfields)⟩

/-- What is read after a write holds the fields. -/
theorem holds_read {words : List (List (Mask × ℕ))} (hlaid : ∀ word ∈ words, LaidOut word)
    (hfit : ∀ word ∈ words, AllFit word) (hlen : words.length ≤ cnt) (hcnt : cnt ≤ n) :
    Holds (indirectRegRead sel hwQid cnt
      (indirectRegWrite n sel hwQid (words.map pack) mem)) words := by
  refine holds_of_pack hlaid hfit fun i fields hfields => ?_
  have hi : i < cnt := (List.getElem?_eq_some_iff.mp hfields).1.trans_le hlen
  rw [indirectRegRead_write hcnt]
  simp [hi, hfields]

/-- Other contexts stay as they were. -/
theorem indirectRegRead_write_of_ne (h : ¬ (sel = sel' ∧ cmdQid hwQid = cmdQid hwQid')) :
    indirectRegRead sel hwQid cnt (indirectRegWrite n sel' hwQid' data mem) =
      indirectRegRead sel hwQid cnt mem := by
  funext i
  unfold indirectRegRead indirectRegWrite
  rw [if_neg h]

end OnicDriver.Access
