import OnicDriver.Access.Context
import OnicDriver.Lib.CInt

/-!
# Hardware accesses

The functions of `struct qdma_hw_access` as accesses to the device. Their
results are given by an environment that may depend on everything accessed
before; what was accessed is kept in a log.
-/

namespace OnicDriver.Access

/-- `enum qdma_hw_access_type` with the context that is written. -/
inductive CtxtOp (α : Type)
  | read
  | write (ctxt : α)
  | clear
  | invalidate
  deriving DecidableEq, Repr

/-- `enum qdma_global_csr_type`. -/
inductive CsrType
  | ringSz
  | timerCnt
  | cntTh
  | bufSz
  deriving DecidableEq, Repr

/-- An access through `struct qdma_hw_access`. Function map entries are only written, the
global registers only read. -/
inductive HwAccess
  | swCtx (c2h : Bool) (qid : ℕ) (op : CtxtOp DescqSwCtxt)
  | hwCtx (c2h : Bool) (qid : ℕ) (op : CtxtOp DescqHwCtxt)
  | creditCtx (c2h : Bool) (qid : ℕ) (op : CtxtOp DescqCreditCtxt)
  | pfetchCtx (qid : ℕ) (op : CtxtOp DescqPrefetchCtxt)
  | cmptCtx (qid : ℕ) (op : CtxtOp DescqCmptCtxt)
  | qid2vec (c2h : Bool) (qid : ℕ) (op : CtxtOp Qid2vec)
  | fmap (funcId : ℕ) (cfg : FmapCfg)
  | intrCtx (ring : ℕ) (op : CtxtOp IndirectIntrCtxt)
  | globalCsr (type : CsrType)
  | regList (group : ℕ)
  deriving DecidableEq, Repr

/-- The accesses made so far with their results. -/
abbrev HwLog := List (HwAccess × ℤ)

/-- `struct qdma_dev_attributes`, as far as the driver asks for it. -/
structure DevAttributes where
  stEn : Bool := true
  mmEn : Bool := true
  mmCmptEn : Bool := true
  qid2vecCtx : Bool := false
  deriving DecidableEq, Repr

/-- The largest error code of the access library. -/
def QDMA_ERR_MBOX_ALL_ZERO_MSG : ℤ := 25

/-- The device: the result of an access, and what a successful one reads. A result is 0 or
a negated error code. -/
structure HwEnv where
  rv : HwLog → HwAccess → ℤ
  rv_le : ∀ log a, rv log a ≤ 0
  le_rv : ∀ log a, -QDMA_ERR_MBOX_ALL_ZERO_MSG ≤ rv log a
  swCtxt : HwLog → DescqSwCtxt
  hwCtxt : HwLog → DescqHwCtxt
  crCtxt : HwLog → DescqCreditCtxt
  pfetchCtxt : HwLog → DescqPrefetchCtxt
  cmptCtxt : HwLog → DescqCmptCtxt
  intrCtxt : HwLog → IndirectIntrCtxt
  csr : CsrType → ℕ → ℕ
  regs : HwLog → List (ℕ × ℕ)
  attributes : DevAttributes

/-- A device on which every access succeeds and finds zeros. -/
def HwEnv.zero : HwEnv where
  rv _ _ := 0
  rv_le _ _ := le_rfl
  le_rv _ _ := by decide
  swCtxt _ := {}
  hwCtxt _ := {}
  crCtxt _ := {}
  pfetchCtxt _ := {}
  cmptCtxt _ := {}
  intrCtxt _ := {}
  csr _ _ := 0
  regs _ := []
  attributes := {}

variable (env : HwEnv)

/-- One access. -/
def perform (a : HwAccess) (log : HwLog) : ℤ × HwLog := (env.rv log a, log ++ [(a, env.rv log a)])

/-- Accesses one after the other until one fails. -/
def performAll : List HwAccess → HwLog → ℤ × HwLog
  | [], log => (0, log)
  | a :: as, log =>
    if env.rv log a < 0 then perform env a log else performAll as (perform env a log).2

/-- Accesses one after the other whether or not they fail: the last result. -/
def performEach : ℤ → List HwAccess → HwLog → ℤ × HwLog
  | rv, [], log => (rv, log)
  | _, a :: as, log => performEach (perform env a log).1 as (perform env a log).2

/-- The test `if (rv < 0) return rv;` between two steps. -/
def unlessFailed (r : ℤ × HwLog) (next : HwLog → ℤ × HwLog) : ℤ × HwLog :=
  if r.1 < 0 then r else next r.2

/-- The results of accesses made one after the other whether or not they fail. -/
def outcomes : List HwAccess → HwLog → List ℤ
  | [], _ => []
  | a :: as, log => env.rv log a :: outcomes as (perform env a log).2

variable {env}

/-- An access that does not fail succeeds. -/
theorem rv_eq_zero {log : HwLog} {a : HwAccess} (h : ¬ env.rv log a < 0) : env.rv log a = 0 :=
  le_antisymm (env.rv_le log a) (not_lt.mp h)

/-- `performAll` makes the accesses up to the first failure, and returns that. -/
theorem performAll_cases (env : HwEnv) (as : List HwAccess) (log : HwLog) :
    performAll env as log = (0, log ++ as.map (·, 0)) ∨
      ∃ before a after, as = before ++ a :: after ∧
        env.rv (log ++ before.map (·, 0)) a < 0 ∧
        performAll env as log = (env.rv (log ++ before.map (·, 0)) a,
          log ++ before.map (·, 0) ++ [(a, env.rv (log ++ before.map (·, 0)) a)]) := by
  induction as generalizing log with
  | nil => exact Or.inl (by simp [performAll])
  | cons a as ih =>
    simp only [performAll, perform]
    by_cases hfail : env.rv log a < 0
    · rw [if_pos hfail]
      exact Or.inr ⟨[], a, as, rfl, by simpa using hfail, by simp⟩
    · rw [if_neg hfail, rv_eq_zero hfail]
      rcases ih (log ++ [(a, 0)]) with hall | ⟨before, b, after, rfl, hb, heq⟩
      · exact Or.inl (by rw [hall]; simp)
      · refine Or.inr ⟨a :: before, b, after, rfl, ?_, ?_⟩
        · simpa using hb
        · rw [heq]
          simp

/-- `performAll` fails if one of the accesses in turn fails. -/
theorem performAll_neg_iff (as : List HwAccess) (log : HwLog) :
    (performAll env as log).1 < 0 ↔ ∃ r ∈ outcomes env as log, r < 0 := by
  induction as generalizing log with
  | nil => simp [performAll, outcomes]
  | cons a as ih =>
    unfold performAll outcomes
    split
    · rename_i hfail
      simp [perform, hfail]
    · rename_i hok
      rw [ih]
      simp [hok]

/-- `performEach` logs the result of every access, and returns the last one. -/
theorem performEach_eq (env : HwEnv) (rv : ℤ) (as : List HwAccess) (log : HwLog) :
    performEach env rv as log =
      ((outcomes env as log).getLast?.getD rv, log ++ as.zip (outcomes env as log)) := by
  induction as generalizing rv log with
  | nil => simp [performEach, outcomes]
  | cons a as ih =>
    unfold performEach outcomes
    rw [ih]
    simp [perform, List.getLast?_cons]

/-- The log goes on with accesses that satisfy `P`. -/
def Continues (P : HwAccess → Prop) (log log' : HwLog) : Prop :=
  ∃ new, log' = log ++ new ∧ ∀ x ∈ new, P x.1

variable {P : HwAccess → Prop} {log log₁ log₂ : HwLog}

theorem Continues.refl : Continues P log log := ⟨[], by simp, by simp⟩

theorem Continues.trans (h : Continues P log log₁) (h' : Continues P log₁ log₂) :
    Continues P log log₂ := by
  obtain ⟨new, rfl, hnew⟩ := h
  obtain ⟨new', rfl, hnew'⟩ := h'
  refine ⟨new ++ new', by simp, fun x hx => ?_⟩
  rcases List.mem_append.mp hx with hx | hx
  · exact hnew x hx
  · exact hnew' x hx

theorem Continues.imp {Q : HwAccess → Prop} (h : Continues P log log₁) (hPQ : ∀ a, P a → Q a) :
    Continues Q log log₁ := by
  obtain ⟨new, hlog, hnew⟩ := h
  exact ⟨new, hlog, fun x hx => hPQ _ (hnew x hx)⟩

theorem perform_continues {a : HwAccess} (ha : P a) : Continues P log (perform env a log).2 :=
  ⟨_, rfl, by simpa using ha⟩

theorem performAll_continues {as : List HwAccess} (h : ∀ a ∈ as, P a) :
    Continues P log (performAll env as log).2 := by
  induction as generalizing log with
  | nil => exact Continues.refl
  | cons a as ih =>
    have hfirst : Continues P log (perform env a log).2 :=
      perform_continues (h a List.mem_cons_self)
    unfold performAll
    split
    · exact hfirst
    · exact hfirst.trans (ih fun b hb => h b (List.mem_cons_of_mem _ hb))

end OnicDriver.Access
