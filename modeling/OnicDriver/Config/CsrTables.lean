import OnicDriver.Access.GlobalCsr
import OnicDriver.Config.Setters
import OnicDriver.Lifecycle.SlotRuns

/-!
# Parts of the global tables

The callers of the table accesses index their arrays by the number of the register, while the
accesses take the first entries. The sizes of the rings are one more in hardware, for the status
descriptor, which the callers add and take off by the number of the register.
-/

namespace OnicDriver.Config

open Lib Resource Setup
open Access (Regs csrReg qdmaGlobalCsrConfWrite qdmaGlobalCsrConfRead
  qdmaGlobalWritebackIntervalWrite qdmaGlobalWritebackIntervalRead csrSupported csrConfWrite_self
  csrConfWrite_other csrConfWrite_refused csrConfWrite_supported csrConfRead_supported
  csrConfRead_unsupported csrReg_ne_dscCfg QDMA_NUM_WRB_INTERVALS)

/-! ## The calls -/

section

variable {R : Type*} (hw : HwAccess R)

/-- `qdma_set_ring_sizes`: the return value, the array as it is left, and the registers. -/
def qdmaSetRingSizes (hndl index count : ℕ) (glblRngSz : ℕ → ℕ) (regs : R) : ℤ × (ℕ → ℕ) × R :=
  let glblRngSz := fun i =>
    if index ≤ i ∧ i < index + count then u32 (glblRngSz i + 1) else glblRngSz i
  let (rv, regs) := hw.globalCsrWrite hndl index count glblRngSz .ringSz regs
  (if rv ≠ 0 then -EINVAL else 0, glblRngSz, regs)

/-- `qdma_get_ring_sizes`. -/
def qdmaGetRingSizes (hndl index count : ℕ) (glblRngSz : ℕ → ℕ) (regs : R) : ℤ × (ℕ → ℕ) :=
  let (rv, glblRngSz) := hw.globalCsrRead hndl index count .ringSz glblRngSz regs
  if rv ≠ 0 then (-EINVAL, glblRngSz)
  else
    (0, fun i => if index ≤ i ∧ i < index + count then u32 (glblRngSz i - 1) else glblRngSz i)

/-- `struct global_csr_conf` with its writeback interval. -/
structure CsrConf where
  tables : GlobalCsrConf
  wbIntvl : ℕ

/-- `qdma_csr_read` into a structure of the caller. The order of the counters is made from the
thresholds that the device has kept. -/
def qdmaCsrReadTo (csr : CsrConf) (dev : PfDev) (regs : R) : CsrConf × PfDev :=
  let (rv, tmp) := qdmaCsrRead hw
    { dev with x := { dev.x with csrInfo := csr.tables }, wbIntvl := csr.wbIntvl } regs
  (⟨tmp.x.csrInfo, tmp.wbIntvl⟩,
    if rv < 0 then dev
    else
      { dev with sortedC2hCntrIdx :=
        qdmaSortC2hCntrThValues dev.x.csrInfo.c2hCntTh dev.sortedC2hCntrIdx })

/-- `qdma_global_csr_get`. -/
def qdmaGlobalCsrGet (rm : ResourceState) (index count : ℕ) (csr : CsrConf) (dev : PfDev)
    (regs : R) : ℤ × CsrConf × PfDev :=
  if QDMA_GLOBAL_CSR_ARRAY_SZ < index + count then (-EINVAL, csr, dev)
  else
    let (csr, dev) :=
      if qdmaGetActiveQueueCount rm dev.x.dmaDeviceIndex ≠ 0 then
        ((⟨dev.x.csrInfo, dev.wbIntvl⟩ : CsrConf), dev)
      else qdmaCsrReadTo hw csr dev regs
    let ringSz := fun i =>
      if index ≤ i ∧ i < index + count then u32 (csr.tables.ringSz i - 1) else csr.tables.ringSz i
    (0, { csr with tables := { csr.tables with ringSz := ringSz } }, dev)

/-- The registers after `qdma_global_csr_get` and `qdma_global_csr_set` of what it returned. -/
def csrWriteBack (rm : ResourceState) (index count : ℕ) (csr : CsrConf) (dev : PfDev) (regs : R) :
    R :=
  let (_, csr, dev) := qdmaGlobalCsrGet hw rm index count csr dev regs
  (qdmaGlobalCsrSet hw rm index count csr.tables csr.wbIntvl dev regs).2.2

end

/-! ## On the registers -/

/-- The table of a type in the access library. -/
def CsrType.table : CsrType → Access.CsrType
  | .ringSz => .ringSz
  | .timerCnt => .timerCnt
  | .cntTh => .cntTh
  | .bufSz => .bufSz

/-- The accesses of the soft core. `wbAt` is what a write of the writeback interval finds at the
address it gets; the accesses to interrupt rings and errors are any. -/
def softAccess (devCap : Access.DevAttributes) (wbAt : ℕ → ℕ) (others : HwAccess Regs) :
    HwAccess Regs :=
  { others with
    globalCsrWrite := fun _ index count vals kind =>
      qdmaGlobalCsrConfWrite devCap index count vals kind.table
    globalCsrRead := fun _ index count kind old =>
      qdmaGlobalCsrConfRead devCap index count old kind.table
    globalWritebackIntervalWrite := fun _ wbInt =>
      qdmaGlobalWritebackIntervalWrite devCap (wbAt wbInt)
    globalWritebackIntervalRead := fun _ old regs =>
      let (rv, wbInt) := qdmaGlobalWritebackIntervalRead devCap regs
      (rv, wbInt.getD old) }

section

variable {devCap : Access.DevAttributes} {wbAt : ℕ → ℕ} {others : HwAccess Regs}
  {index count hndl : ℕ} {regs : Regs}

/-- The sizes of the caller are stored, each one more, in the registers of the same number, and the
other registers stay. -/
def StoresSizes (index count : ℕ) (a : ℕ → ℕ) (regs regs' : Regs) : Prop :=
  (∀ r, index ≤ r → r < index + count → regs' (csrReg .ringSz r) = a r + 1) ∧
    ∀ o, (∀ r, index ≤ r → r < index + count → o ≠ csrReg .ringSz r) → regs' o = regs o

/-- The sizes of one array are found in another one, whose other entries stay. -/
def ReturnsSizes (index count : ℕ) (a b b' : ℕ → ℕ) : Prop :=
  ∀ i, b' i = if index ≤ i ∧ i < index + count then a i else b i

/-- `qdma_set_ring_sizes` and a following `qdma_get_ring_sizes` keep the sizes at their registers
and return them. -/
def RingSizesKept (hw : HwAccess Regs) (hndl index count : ℕ) (a b : ℕ → ℕ) (regs : Regs) : Prop :=
  let (_, _, regs') := qdmaSetRingSizes hw hndl index count a regs
  let (_, b') := qdmaGetRingSizes hw hndl index count b regs'
  StoresSizes index count a regs regs' ∧ ReturnsSizes index count a b b'

/-- No register of the four tables is changed. -/
def TablesKept (regs regs' : Regs) : Prop :=
  ∀ type, ∀ r < 16, regs' (csrReg type r) = regs (csrReg type r)

@[simp] theorem softAccess_write (vals : ℕ → ℕ) (kind : CsrType) :
    (softAccess devCap wbAt others).globalCsrWrite hndl index count vals kind regs =
      qdmaGlobalCsrConfWrite devCap index count vals kind.table regs := rfl

@[simp] theorem softAccess_read (old : ℕ → ℕ) (kind : CsrType) :
    (softAccess devCap wbAt others).globalCsrRead hndl index count kind old regs =
      qdmaGlobalCsrConfRead devCap index count old kind.table regs := rfl

/-! ## Ring sizes -/

/-- The array as `qdma_set_ring_sizes` leaves it. -/
def incremented (index count : ℕ) (a : ℕ → ℕ) (i : ℕ) : ℕ :=
  if index ≤ i ∧ i < index + count then u32 (a i + 1) else a i

theorem setRingSizes_regs (a : ℕ → ℕ) :
    (qdmaSetRingSizes (softAccess devCap wbAt others) hndl index count a regs).2.2 =
      (qdmaGlobalCsrConfWrite devCap index count (incremented index count a) .ringSz regs).2 := rfl

/-- What is read back into the array. -/
theorem getRingSizes_array (b : ℕ → ℕ) (hrange : index + count ≤ 16) (i : ℕ) :
    (qdmaGetRingSizes (softAccess devCap wbAt others) hndl index count b regs).2 i =
      if index ≤ i ∧ i < index + count then
        u32 (((if i < count then regs (csrReg .ringSz (index + i)) else b i : ℕ) : ℤ) - 1)
      else if i < count then regs (csrReg .ringSz (index + i)) else b i := by
  by_cases hcount : count = 0
  · subst hcount
    rw [if_neg (by omega), if_neg (by omega)]
    rfl
  · have hread : qdmaGlobalCsrConfRead devCap index count b CsrType.ringSz.table regs =
        (0, fun i => if i < count then regs (csrReg .ringSz (index + i)) else b i) :=
      @csrConfRead_supported devCap index count b .ringSz regs hcount hrange rfl
    rw [qdmaGetRingSizes, softAccess_read, hread]
    rfl

/-- The entry that goes to a register is one more than the entry of the same number. -/
def SizesFit (index count : ℕ) (a : ℕ → ℕ) : Prop :=
  ∀ k < count, incremented index count a k = a (index + k) + 1

/-- What is read over the entries below the range is already there, and so are the sizes, each one
more, of the entries in the range that are not read. -/
def ReturnsFit (index count : ℕ) (a b : ℕ → ℕ) : Prop :=
  (∀ i, i < index → i < count → b i = a i) ∧
    ∀ r, index ≤ r → count ≤ r → r < index + count → b r = u32 (a r + 1)

theorem storesSizes_iff (a : ℕ → ℕ) (hrange : index + count ≤ 16) :
    StoresSizes index count a regs
        (qdmaSetRingSizes (softAccess devCap wbAt others) hndl index count a regs).2.2 ↔
      SizesFit index count a := by
  have hself (r : ℕ) : (qdmaGlobalCsrConfWrite devCap index count (incremented index count a)
      .ringSz regs).2 (csrReg .ringSz r) = if index ≤ r ∧ r < index + count then
        incremented index count a (r - index) else regs (csrReg .ringSz r) :=
    csrConfWrite_self rfl hrange r
  rw [setRingSizes_regs]
  constructor
  · rintro ⟨hstored, -⟩ k hk
    have hk' := hstored (index + k) (by omega) (by omega)
    rw [hself, if_pos (by omega), Nat.add_sub_cancel_left] at hk'
    exact hk'
  · intro hfit
    refine ⟨fun r hle hlt => ?_, fun o ho => ?_⟩
    · rw [hself, if_pos ⟨hle, hlt⟩, hfit (r - index) (by omega), Nat.add_sub_cancel' hle]
    · by_cases hcount : count = 0
      · rw [(csrConfWrite_refused (Or.inl hcount)).2]
      · rw [csrConfWrite_supported hcount hrange rfl]
        exact Access.qdmaWriteCsrValues_of_ne ho

theorem u32_sub_one_iff {x y : ℕ} (hx : x < 2 ^ 32) (hy : y < 2 ^ 32) :
    u32 ((x : ℤ) - 1) = y ↔ x = u32 (y + 1) := by
  unfold u32
  omega

theorem returnsSizes_iff {a b : ℕ → ℕ} (ha : ∀ i, a i < 2 ^ 32) (hb : ∀ i, b i < 2 ^ 32)
    (hrange : index + count ≤ 16) :
    ReturnsSizes index count a b
        (qdmaGetRingSizes (softAccess devCap wbAt others) hndl index count b
          (qdmaSetRingSizes (softAccess devCap wbAt others) hndl index count a regs).2.2).2 ↔
      ReturnsFit index count a b := by
  have hself (r : ℕ) : (qdmaGlobalCsrConfWrite devCap index count (incremented index count a)
      .ringSz regs).2 (csrReg .ringSz r) = if index ≤ r ∧ r < index + count then
        incremented index count a (r - index) else regs (csrReg .ringSz r) :=
    csrConfWrite_self rfl hrange r
  have hread {i : ℕ} (hi : i < count) :
      (qdmaSetRingSizes (softAccess devCap wbAt others) hndl index count a regs).2.2
        (csrReg .ringSz (index + i)) = incremented index count a i := by
    rw [setRingSizes_regs, hself, if_pos (by omega), Nat.add_sub_cancel_left]
  constructor
  · intro h
    refine ⟨fun i hi hcount => ?_, fun r hle hcount hlt => ?_⟩
    · have hnot : ¬ (index ≤ i ∧ i < index + count) := by omega
      have hi' := h i
      rw [getRingSizes_array b hrange, if_neg hnot, if_neg hnot, if_pos hcount,
        hread hcount, incremented, if_neg hnot] at hi'
      exact hi'.symm
    · have hin : index ≤ r ∧ r < index + count := ⟨hle, hlt⟩
      have hr := h r
      rw [getRingSizes_array b hrange, if_pos hin, if_pos hin, if_neg hcount.not_gt] at hr
      exact (u32_sub_one_iff (hb r) (ha r)).mp hr
  · rintro ⟨hbelow, hbeyond⟩ i
    rw [getRingSizes_array b hrange]
    by_cases hin : index ≤ i ∧ i < index + count
    · rw [if_pos hin, if_pos hin]
      by_cases hcount : i < count
      · rw [if_pos hcount, hread hcount, incremented, if_pos hin]
        exact (u32_sub_one_iff (u32_lt _) (ha i)).mpr rfl
      · rw [if_neg hcount]
        exact (u32_sub_one_iff (hb i) (ha i)).mpr (hbeyond i hin.1 (by omega) hin.2)
    · rw [if_neg hin, if_neg hin]
      by_cases hcount : i < count
      · rw [if_pos hcount, hread hcount, incremented, if_neg hin]
        exact (hbelow i (by omega) hcount).symm
      · rw [if_neg hcount]

/-! ## Writing back what was read -/

/-- A table as it is read whole. -/
def readTable (devCap : Access.DevAttributes) (type : Access.CsrType) (regs : Regs)
    (old : ℕ → ℕ) : ℕ → ℕ :=
  if csrSupported devCap type then fun i => if i < 16 then regs (csrReg type i) else old i else old

/-- A read of a whole table does not fail, though the device may lack the table. -/
theorem csrConfRead_whole (type : Access.CsrType) (old : ℕ → ℕ) :
    ∃ rv, qdmaGlobalCsrConfRead devCap 0 QDMA_GLOBAL_CSR_ARRAY_SZ old type regs =
        (rv, readTable devCap type regs old) ∧
      ¬ readFails rv ∧ (csrSupported devCap type = true → rv = 0) := by
  cases hcap : csrSupported devCap type with
  | true =>
    refine ⟨0, ?_, by decide, fun _ => rfl⟩
    rw [csrConfRead_supported (by decide) (by decide) hcap, readTable, if_pos hcap]
    refine congrArg (Prod.mk 0) (funext fun i => ?_)
    rw [Nat.zero_add]
    rfl
  | false =>
    refine ⟨-7, ?_, by decide, fun h => absurd h (by simp)⟩
    rw [Access.csrConfRead_eq, Access.readGlobalTable, hcap, readTable, hcap]
    rfl

/-- The interval that a read leaves. -/
def readInterval (devCap : Access.DevAttributes) (regs : Regs) (old : ℕ) : ℕ :=
  ((qdmaGlobalWritebackIntervalRead devCap regs).2).getD old

theorem intervalRead_whole (old : ℕ) :
    ∃ rv, (softAccess devCap wbAt others).globalWritebackIntervalRead hndl old regs =
        (rv, readInterval devCap regs old) ∧ ¬ readFails rv := by
  refine ⟨_, rfl, ?_⟩
  change ¬ readFails (qdmaGlobalWritebackIntervalRead devCap regs).1
  unfold qdmaGlobalWritebackIntervalRead
  split
  · exact (by decide : ¬ readFails 0)
  · exact (by decide : ¬ readFails (-7))

/-- What `qdma_csr_read` leaves in the structure it reads into. -/
theorem qdmaCsrReadTo_soft (csr : CsrConf) (dev : PfDev) :
    (qdmaCsrReadTo (softAccess devCap wbAt others) csr dev regs).1 =
      { tables :=
          { ringSz := readTable devCap .ringSz regs csr.tables.ringSz
            c2hTimerCnt := readTable devCap .timerCnt regs csr.tables.c2hTimerCnt
            c2hCntTh := readTable devCap .cntTh regs csr.tables.c2hCntTh
            c2hBufSz := readTable devCap .bufSz regs csr.tables.c2hBufSz }
        wbIntvl := readInterval devCap regs csr.wbIntvl } := by
  obtain ⟨_, hring, -, hring0⟩ := @csrConfRead_whole devCap regs .ringSz csr.tables.ringSz
  obtain ⟨_, hbuf, hbufok, -⟩ := @csrConfRead_whole devCap regs .bufSz csr.tables.c2hBufSz
  obtain ⟨_, htimer, htimerok, -⟩ := @csrConfRead_whole devCap regs .timerCnt csr.tables.c2hTimerCnt
  obtain ⟨_, hcnt, hcntok, -⟩ := @csrConfRead_whole devCap regs .cntTh csr.tables.c2hCntTh
  obtain ⟨_, hwb, hwbok⟩ := @intervalRead_whole devCap wbAt others dev.hndl regs csr.wbIntvl
  rw [hring0 rfl] at hring
  simp only [qdmaCsrReadTo, qdmaCsrRead, softAccess_read, CsrType.table, hring, hbuf, htimer, hcnt,
    hwb, hbufok, htimerok, hcntok, hwbok, lt_self_iff_false, if_false]

theorem writeAll_of_zero {write : Regs → ℤ × Regs} {rest : List (Regs → ℤ × Regs)} {regs' : Regs}
    (h : write regs = (0, regs')) : writeAll (write :: rest) regs = writeAll rest regs' := by
  rw [writeAll, h]
  rfl

theorem writeAll_of_refused {write : Regs → ℤ × Regs} {rest : List (Regs → ℤ × Regs)}
    (h : (write regs).1 < 0) : (writeAll (write :: rest) regs).2 = (write regs).2 := by
  rw [writeAll]
  exact congrArg Prod.snd (if_pos h.ne)

theorem qdmaGlobalCsrSet_regs {R : Type*} (hw : HwAccess R) {rm : ResourceState}
    {csr : GlobalCsrConf} {wb : ℕ} {dev : PfDev} {regs : R}
    (hactive : qdmaGetActiveQueueCount rm dev.x.dmaDeviceIndex = 0) :
    (qdmaGlobalCsrSet hw rm index count csr wb dev regs).2.2 =
      (writeAll [hw.globalWritebackIntervalWrite dev.hndl wb,
        hw.globalCsrWrite dev.hndl index count csr.ringSz .ringSz,
        hw.globalCsrWrite dev.hndl index count csr.c2hTimerCnt .timerCnt,
        hw.globalCsrWrite dev.hndl index count csr.c2hCntTh .cntTh,
        hw.globalCsrWrite dev.hndl index count csr.c2hBufSz .bufSz] regs).2 := by
  rw [qdmaGlobalCsrSet, if_neg (not_not.mpr hactive)]
  dsimp only
  split <;> rfl

/-- The tables that `qdma_global_csr_get` returns when no queue is active. -/
def gotTables (devCap : Access.DevAttributes) (index count : ℕ) (old : GlobalCsrConf)
    (regs : Regs) : GlobalCsrConf where
  ringSz := fun i =>
    if index ≤ i ∧ i < index + count then
      u32 ((readTable devCap .ringSz regs old.ringSz i : ℕ) - 1)
    else readTable devCap .ringSz regs old.ringSz i
  c2hTimerCnt := readTable devCap .timerCnt regs old.c2hTimerCnt
  c2hCntTh := readTable devCap .cntTh regs old.c2hCntTh
  c2hBufSz := readTable devCap .bufSz regs old.c2hBufSz

theorem qdmaGlobalCsrGet_idle {rm : ResourceState} {csr : CsrConf} {dev : PfDev}
    (hrange : index + count ≤ 16)
    (hactive : qdmaGetActiveQueueCount rm dev.x.dmaDeviceIndex = 0) :
    ∃ dev', dev'.x = dev.x ∧
      qdmaGlobalCsrGet (softAccess devCap wbAt others) rm index count csr dev regs =
        (0, { tables := gotTables devCap index count csr.tables regs
              wbIntvl := readInterval devCap regs csr.wbIntvl }, dev') := by
  refine ⟨(qdmaCsrReadTo (softAccess devCap wbAt others) csr dev regs).2, ?_, ?_⟩
  · rw [qdmaCsrReadTo]
    dsimp only
    split <;> rfl
  · have hrange' : ¬ QDMA_GLOBAL_CSR_ARRAY_SZ < index + count := by
      simp only [QDMA_GLOBAL_CSR_ARRAY_SZ]
      omega
    rw [qdmaGlobalCsrGet, if_neg hrange', if_neg (not_not.mpr hactive)]
    dsimp only
    rw [qdmaCsrReadTo_soft]
    rfl

/-- Every register of the range already holds what is written back to it. -/
def EntriesFit (devCap : Access.DevAttributes) (index count : ℕ) (regs : Regs) : Prop :=
  ∀ k < count,
    regs (csrReg .ringSz (index + k)) =
        (if index ≤ k then u32 ((regs (csrReg .ringSz k) : ℤ) - 1) else regs (csrReg .ringSz k)) ∧
      regs (csrReg .timerCnt (index + k)) = regs (csrReg .timerCnt k) ∧
      regs (csrReg .cntTh (index + k)) = regs (csrReg .cntTh k) ∧
      (devCap.stEn = true → regs (csrReg .bufSz (index + k)) = regs (csrReg .bufSz k))

/-- Nothing is written (queues are active, the device has no completions, or there is no valid
interval at the address that is passed), or everything written is there already. -/
def WriteBackFits (devCap : Access.DevAttributes) (wbAt : ℕ → ℕ) (rm : ResourceState)
    (index count dmaDeviceIndex : ℕ) (regs : Regs) : Prop :=
  qdmaGetActiveQueueCount rm dmaDeviceIndex ≠ 0 ∨ (devCap.stEn || devCap.mmCmptEn) = false ∨
    QDMA_NUM_WRB_INTERVALS ≤ wbAt (Access.ControlField.wbAccInt.read regs) ∨
    EntriesFit devCap index count regs

/-- The write of the interval changes none of the tables. -/
theorem intervalWrite_tables (wbInt : ℕ) (type : Access.CsrType) {r : ℕ} (hr : r < 16) :
    (qdmaGlobalWritebackIntervalWrite devCap wbInt regs).2 (csrReg type r) =
      regs (csrReg type r) := by
  rw [qdmaGlobalWritebackIntervalWrite]
  split
  · rfl
  · split
    · exact Function.update_of_ne (csrReg_ne_dscCfg type hr) _ _
    · rfl

/-- The tables of a structure. -/
def tableOf (csr : GlobalCsrConf) : Access.CsrType → ℕ → ℕ
  | .ringSz => csr.ringSz
  | .timerCnt => csr.c2hTimerCnt
  | .cntTh => csr.c2hCntTh
  | .bufSz => csr.c2hBufSz

/-- The registers after the writes of the four tables. -/
theorem writeTables_regs (hcount : count ≠ 0) (hrange : index + count ≤ 16)
    (hcap : (devCap.stEn || devCap.mmCmptEn) = true) (csr : GlobalCsrConf) (type : Access.CsrType)
    {r : ℕ} (hr : r < 16) :
    (writeAll
        [(softAccess devCap wbAt others).globalCsrWrite hndl index count csr.ringSz .ringSz,
          (softAccess devCap wbAt others).globalCsrWrite hndl index count csr.c2hTimerCnt .timerCnt,
          (softAccess devCap wbAt others).globalCsrWrite hndl index count csr.c2hCntTh .cntTh,
          (softAccess devCap wbAt others).globalCsrWrite hndl index count csr.c2hBufSz .bufSz]
        regs).2 (csrReg type r) =
      if (index ≤ r ∧ r < index + count) ∧ csrSupported devCap type = true then
        tableOf csr type (r - index)
      else regs (csrReg type r) := by
  obtain ⟨regs₁, hregs₁⟩ : ∃ regs₁, regs₁ =
      (qdmaGlobalCsrConfWrite devCap index count csr.ringSz .ringSz regs).2 := ⟨_, rfl⟩
  obtain ⟨regs₂, hregs₂⟩ : ∃ regs₂, regs₂ =
      (qdmaGlobalCsrConfWrite devCap index count csr.c2hTimerCnt .timerCnt regs₁).2 := ⟨_, rfl⟩
  obtain ⟨regs₃, hregs₃⟩ : ∃ regs₃, regs₃ =
      (qdmaGlobalCsrConfWrite devCap index count csr.c2hCntTh .cntTh regs₂).2 := ⟨_, rfl⟩
  have htimercap : csrSupported devCap .timerCnt = true := hcap
  have hcntcap : csrSupported devCap .cntTh = true := hcap
  have hok (kind : CsrType) {vals : ℕ → ℕ} {regs regs' : Regs}
      (hsup : csrSupported devCap kind.table = true)
      (h : regs' = (qdmaGlobalCsrConfWrite devCap index count vals kind.table regs).2) :
      (softAccess devCap wbAt others).globalCsrWrite hndl index count vals kind regs =
        (0, regs') := by
    rw [softAccess_write, h, csrConfWrite_supported hcount hrange hsup]
  have hlast : (writeAll
      [(softAccess devCap wbAt others).globalCsrWrite hndl index count csr.c2hBufSz .bufSz]
      regs₃).2 = (qdmaGlobalCsrConfWrite devCap index count csr.c2hBufSz .bufSz regs₃).2 := by
    cases hst : csrSupported devCap .bufSz with
    | true =>
      rw [writeAll_of_zero (hok .bufSz hst rfl)]
      rfl
    | false => exact writeAll_of_refused (csrConfWrite_refused (Or.inr hst)).1
  rw [writeAll_of_zero (hok .ringSz rfl hregs₁), writeAll_of_zero (hok .timerCnt htimercap hregs₂),
    writeAll_of_zero (hok .cntTh hcntcap hregs₃), hlast]
  have hbuf {type' : Access.CsrType} (h : type' ≠ .bufSz) :
      (qdmaGlobalCsrConfWrite devCap index count csr.c2hBufSz .bufSz regs₃).2 (csrReg type' r) =
        regs₃ (csrReg type' r) := csrConfWrite_other h hrange hr
  have hcnt {type' : Access.CsrType} (h : type' ≠ .cntTh) :
      regs₃ (csrReg type' r) = regs₂ (csrReg type' r) := hregs₃ ▸ csrConfWrite_other h hrange hr
  have htimer {type' : Access.CsrType} (h : type' ≠ .timerCnt) :
      regs₂ (csrReg type' r) = regs₁ (csrReg type' r) := hregs₂ ▸ csrConfWrite_other h hrange hr
  have hring {type' : Access.CsrType} (h : type' ≠ .ringSz) :
      regs₁ (csrReg type' r) = regs (csrReg type' r) := hregs₁ ▸ csrConfWrite_other h hrange hr
  cases type with
  | ringSz =>
    rw [hbuf (by decide), hcnt (by decide), htimer (by decide), hregs₁,
      csrConfWrite_self rfl hrange]
    exact if_congr (and_iff_left rfl).symm rfl rfl
  | timerCnt =>
    rw [hbuf (by decide), hcnt (by decide), hregs₂, csrConfWrite_self htimercap hrange,
      hring (by decide)]
    exact if_congr (and_iff_left htimercap).symm rfl rfl
  | cntTh =>
    rw [hbuf (by decide), hregs₃, csrConfWrite_self hcntcap hrange, htimer (by decide),
      hring (by decide)]
    exact if_congr (and_iff_left hcntcap).symm rfl rfl
  | bufSz =>
    have hbefore : regs₃ (csrReg .bufSz r) = regs (csrReg .bufSz r) := by
      rw [hcnt (by decide), htimer (by decide), hring (by decide)]
    cases hst : csrSupported devCap .bufSz with
    | true =>
      rw [csrConfWrite_self hst hrange, hbefore]
      exact if_congr (and_iff_left rfl).symm rfl rfl
    | false =>
      rw [(csrConfWrite_refused (Or.inr hst)).2, hbefore, if_neg (by simp)]

/-- A write of an interval that is refused. -/
theorem intervalWrite_refused {wbInt : ℕ} (h : ¬ ((devCap.stEn || devCap.mmCmptEn) = true ∧
    wbInt < QDMA_NUM_WRB_INTERVALS)) :
    (qdmaGlobalWritebackIntervalWrite devCap wbInt regs).1 < 0 ∧
      (qdmaGlobalWritebackIntervalWrite devCap wbInt regs).2 = regs :=
  Access.ControlWrite.perform_refused (w := .writebackInterval wbInt) fun hacc => h hacc.symm

theorem readTable_eq {type : Access.CsrType} (hcap : csrSupported devCap type = true)
    (old : ℕ → ℕ) {i : ℕ} (hi : i < 16) :
    readTable devCap type regs old i = regs (csrReg type i) := by
  rw [readTable, if_pos hcap, if_pos hi]

/-- What is written back to a register of the range. -/
theorem tableOf_gotTables {type : Access.CsrType} (hcap : csrSupported devCap type = true)
    (old : GlobalCsrConf) {k : ℕ} (hk : k < count) (hk16 : k < 16) :
    tableOf (gotTables devCap index count old regs) type k =
      if type = .ringSz ∧ index ≤ k then u32 ((regs (csrReg type k) : ℤ) - 1)
      else regs (csrReg type k) := by
  cases type with
  | ringSz =>
    rw [tableOf, gotTables]
    dsimp only
    rw [readTable_eq hcap _ hk16]
    exact if_congr (by simp; omega) rfl rfl
  | timerCnt => exact readTable_eq hcap _ hk16
  | cntTh => exact readTable_eq hcap _ hk16
  | bufSz => exact readTable_eq hcap _ hk16

theorem entriesFit_iff (hcap : (devCap.stEn || devCap.mmCmptEn) = true) (old : GlobalCsrConf)
    (hrange : index + count ≤ 16) :
    EntriesFit devCap index count regs ↔ ∀ k < count, ∀ type, csrSupported devCap type = true →
      tableOf (gotTables devCap index count old regs) type k =
        regs (csrReg type (index + k)) := by
  refine forall₂_congr fun k hk => ?_
  have hentry {type : Access.CsrType} (hsup : csrSupported devCap type = true) :=
    @tableOf_gotTables devCap index count regs type hsup old k hk (by omega)
  constructor
  · rintro ⟨hring, htimer, hcnt, hbuf⟩ type hsup
    rw [hentry hsup]
    cases type with
    | ringSz =>
      rw [hring]
      exact if_congr (and_iff_right rfl) rfl rfl
    | timerCnt => exact htimer.symm
    | cntTh => exact hcnt.symm
    | bufSz => exact (hbuf hsup).symm
  · intro h
    refine ⟨?_, ?_, ?_, fun hst => ?_⟩
    · rw [← h .ringSz rfl, hentry rfl]
      exact if_congr (and_iff_right rfl) rfl rfl
    · exact (h .timerCnt hcap).symm.trans (hentry hcap)
    · exact (h .cntTh hcap).symm.trans (hentry hcap)
    · exact (h .bufSz hst).symm.trans (hentry hst)

/-- The tables are kept by the writes exactly if everything written is there already. -/
theorem writeTables_kept_iff (hcap : (devCap.stEn || devCap.mmCmptEn) = true)
    (hrange : index + count ≤ 16) (old : GlobalCsrConf) {regs₁ : Regs}
    (hsame : ∀ type, ∀ r < 16, regs₁ (csrReg type r) = regs (csrReg type r)) :
    TablesKept regs (writeAll
        [(softAccess devCap wbAt others).globalCsrWrite hndl index count
            (gotTables devCap index count old regs).ringSz .ringSz,
          (softAccess devCap wbAt others).globalCsrWrite hndl index count
            (gotTables devCap index count old regs).c2hTimerCnt .timerCnt,
          (softAccess devCap wbAt others).globalCsrWrite hndl index count
            (gotTables devCap index count old regs).c2hCntTh .cntTh,
          (softAccess devCap wbAt others).globalCsrWrite hndl index count
            (gotTables devCap index count old regs).c2hBufSz .bufSz]
        regs₁).2 ↔ EntriesFit devCap index count regs := by
  by_cases hcount : count = 0
  · have hrefused : ((softAccess devCap wbAt others).globalCsrWrite hndl index count
        (gotTables devCap index count old regs).ringSz .ringSz regs₁).1 < 0 ∧
        ((softAccess devCap wbAt others).globalCsrWrite hndl index count
          (gotTables devCap index count old regs).ringSz .ringSz regs₁).2 = regs₁ :=
      csrConfWrite_refused (Or.inl hcount)
    rw [writeAll_of_refused hrefused.1, hrefused.2]
    exact iff_of_true hsame fun k hk => by omega
  · rw [entriesFit_iff hcap old hrange]
    constructor
    · intro hkept k hk type hsup
      rw [← hkept type (index + k) (by omega),
        writeTables_regs hcount hrange hcap _ type (by omega),
        if_pos ⟨⟨by omega, by omega⟩, hsup⟩, Nat.add_sub_cancel_left]
    · intro hfit type r hr
      rw [writeTables_regs hcount hrange hcap _ type hr]
      split
      next hin =>
        rw [hfit (r - index) (by omega) type hin.2, Nat.add_sub_cancel' hin.1.1]
      next => exact hsame type r hr

/-- The registers are as before after they are written back exactly if the write-back writes
nothing, or only what is there. -/
theorem csrWriteBack_iff (rm : ResourceState) (csr : CsrConf) (dev : PfDev)
    (hrange : index + count ≤ 16) :
    TablesKept regs (csrWriteBack (softAccess devCap wbAt others) rm index count csr dev regs) ↔
      WriteBackFits devCap wbAt rm index count dev.x.dmaDeviceIndex regs := by
  by_cases hactive : qdmaGetActiveQueueCount rm dev.x.dmaDeviceIndex = 0
  · obtain ⟨dev', hx, hget⟩ := @qdmaGlobalCsrGet_idle devCap wbAt others index count regs rm csr dev
      hrange hactive
    rw [csrWriteBack, hget]
    dsimp only
    rw [qdmaGlobalCsrSet_regs _ (by rw [hx]; exact hactive)]
    by_cases hwb : (devCap.stEn || devCap.mmCmptEn) = true ∧
        wbAt (Access.ControlField.wbAccInt.read regs) < QDMA_NUM_WRB_INTERVALS
    · have hinterval : readInterval devCap regs csr.wbIntvl =
          Access.ControlField.wbAccInt.read regs := by
        rw [readInterval, qdmaGlobalWritebackIntervalRead, if_pos hwb.1]
        rfl
      have hwrite : (softAccess devCap wbAt others).globalWritebackIntervalWrite dev'.hndl
          (Access.ControlField.wbAccInt.read regs) regs =
          (0, (qdmaGlobalWritebackIntervalWrite devCap
            (wbAt (Access.ControlField.wbAccInt.read regs)) regs).2) := by
        change qdmaGlobalWritebackIntervalWrite devCap _ regs = _
        rw [qdmaGlobalWritebackIntervalWrite, if_neg hwb.2.not_ge, if_pos hwb.1]
      rw [hinterval, writeAll_of_zero hwrite]
      have hiff : WriteBackFits devCap wbAt rm index count dev.x.dmaDeviceIndex regs ↔
          EntriesFit devCap index count regs := by
        rw [WriteBackFits]
        simp [hactive, hwb.1, hwb.2.not_ge]
      rw [hiff]
      exact writeTables_kept_iff hwb.1 hrange _ fun type r hr => intervalWrite_tables _ type hr
    · have hnot : ¬ ((devCap.stEn || devCap.mmCmptEn) = true ∧
          wbAt (readInterval devCap regs csr.wbIntvl) < QDMA_NUM_WRB_INTERVALS) := by
        rintro ⟨hcap, hlt⟩
        rw [readInterval, qdmaGlobalWritebackIntervalRead, if_pos hcap] at hlt
        exact hwb ⟨hcap, hlt⟩
      have hrefused : ((softAccess devCap wbAt others).globalWritebackIntervalWrite dev'.hndl
          (readInterval devCap regs csr.wbIntvl) regs).1 < 0 ∧
          ((softAccess devCap wbAt others).globalWritebackIntervalWrite dev'.hndl
            (readInterval devCap regs csr.wbIntvl) regs).2 = regs := intervalWrite_refused hnot
      rw [writeAll_of_refused hrefused.1, hrefused.2]
      refine iff_of_true (fun _ _ _ => rfl) (Or.inr ?_)
      rw [not_and, not_lt] at hwb
      cases hcap : devCap.stEn || devCap.mmCmptEn with
      | false => exact Or.inl rfl
      | true => exact Or.inr (Or.inl (hwb hcap))
  · have hget : (qdmaGlobalCsrGet (softAccess devCap wbAt others) rm index count csr dev regs).2.2 =
        dev := by
      rw [qdmaGlobalCsrGet]
      split
      · rfl
      · rfl
    have hsame :
        csrWriteBack (softAccess devCap wbAt others) rm index count csr dev regs = regs := by
      rw [csrWriteBack]
      dsimp only
      rw [hget, qdmaGlobalCsrSet, if_pos hactive]
    rw [hsame]
    exact iff_of_true (fun _ _ _ => rfl) (Or.inl hactive)

/-- Whether the sizes of a part of the table are stored and returned, and whether the tables stay
when a part of them is written back, for a range within the tables. -/
theorem csrTables_iff {a b : ℕ → ℕ} (ha : ∀ i, a i < 2 ^ 32) (hb : ∀ i, b i < 2 ^ 32)
    (hrange : index + count ≤ 16) (rm : ResourceState) (csr : CsrConf) (dev : PfDev) :
    (RingSizesKept (softAccess devCap wbAt others) hndl index count a b regs ↔
        SizesFit index count a ∧ ReturnsFit index count a b) ∧
      (TablesKept regs (csrWriteBack (softAccess devCap wbAt others) rm index count csr dev regs) ↔
        WriteBackFits devCap wbAt rm index count dev.x.dmaDeviceIndex regs) := by
  have hstores := @storesSizes_iff devCap wbAt others index count hndl regs a hrange
  have hreturns := @returnsSizes_iff devCap wbAt others index count hndl regs a b ha hb hrange
  exact ⟨and_congr hstores hreturns, csrWriteBack_iff rm csr dev hrange⟩

/-- Accesses that do nothing. -/
def noAccess : HwAccess Regs where
  globalCsrWrite _ _ _ _ _ regs := (0, regs)
  globalCsrRead _ _ _ _ old _ := (0, old)
  globalWritebackIntervalWrite _ _ regs := (0, regs)
  globalWritebackIntervalRead _ old _ := (0, old)
  indirectIntrCtxInvalidate _ _ regs := (0, regs)
  intrContextSetup _ _ regs := (0, regs)
  hwErrorIntrSetup _ regs := (0, regs)
  hwErrorEnable _ regs := (0, regs)
  hwErrorIntrRearm _ regs := (0, regs)

/-- The first two ring sizes, of 64 descriptors each, are kept. -/
theorem firstSizes_kept :
    RingSizesKept (softAccess {} id noAccess) 0 0 2 (fun _ => 64) (fun _ => 0) fun _ => 0 := by
  refine (csrTables_iff (fun _ => by decide) (fun _ => by decide) (by decide) {}
    ⟨Lifecycle.pollingPf.csrInfo, 0⟩
    { hndl := 0, busNumber := 0, x := Lifecycle.pollingPf,
      slots := fun _ => Lifecycle.newSlot }).1.mpr
    ⟨?_, fun i hi => by omega, fun r _ hr hlt => by omega⟩
  unfold SizesFit
  decide

/-- The size for the second register is given as 200, and the first entry, 100, is stored there. -/
theorem secondSize_not_kept :
    ¬ RingSizesKept (softAccess {} id noAccess) 0 1 1 (fun i => 100 * (i + 1)) (fun _ => 0)
      fun _ => 0 := by
  intro h
  have hstored := h.1.1 1 (by decide) (by decide)
  exact absurd hstored (by decide)

end

end OnicDriver.Config
