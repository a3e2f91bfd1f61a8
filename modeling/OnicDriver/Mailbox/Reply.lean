import OnicDriver.Mailbox.Isolation

/-!
# One response for each request

What the receive work of the PF does with the result of the handler: which
functions come online or go offline, and which message is sent back. The
return value of the handler decides, and only some of its exits fill in the
header of the response.
-/

namespace OnicDriver.Mailbox

open Lib Access Resource

/-- What the PF is told about its VFs. -/
inductive VfEvent
  | online (funcId : ℕ)
  | offline (funcId : ℕ)
  deriving DecidableEq, Repr

/-- The last of the accesses logged after `log` is answered with `rv`. -/
def LastAnswer (log log' : HwLog) (rv : ℤ) : Prop :=
  ∃ a, (log'.drop log.length).getLast? = some (a, rv)

instance (log log' : HwLog) (rv : ℤ) : Decidable (LastAnswer log log' rv) :=
  decidable_of_iff ((log'.drop log.length).getLast?.map Prod.snd = some rv) (by
    simp [LastAnswer])

/-- The requests that get their response, given the log of the accesses made for them: known
requests, but for a function map write that fails, an access that ends the request and fails with
the code that also means offline, and counts that mean offline or reset. -/
def Answered (env : HwEnv) (dmaDeviceIndex : ℕ) (m : MboxMem) (s : ResourceState)
    (log log' : HwLog) : Prop :=
  match MboxOp.fromByte m.op with
  | none | some .vfBye | some .resetPrepare | some .resetDone | some .pfBye => False
  | some .hello | some .qreq | some .qnotifyAdd | some .qnotifyDel | some .regListRead => True
  | some .fmap => env.rv log (.fmap m.srcFuncId (fmapCfg m)) = 0
  | some .getQactiveCnt =>
    ∀ d, qdmaGetDevEntry s dmaDeviceIndex m.srcFuncId = some d →
      d.activeCmptQcnt % 256 ∉ [2, 3, 5, 255]
  | some .csr | some .qctxtWrt | some .qctxtRd | some .qctxtClr | some .qctxtInv
  | some .intrCtxtWrt | some .intrCtxtRd | some .intrCtxtClr | some .intrCtxtInv
  | some .pfResetVfBye => ¬ LastAnswer log log' QDMA_MBOX_VF_OFFLINE

/-! ## Results that tell how the accesses ended -/

section

variable {env : HwEnv} {log : HwLog} {r : ℤ × HwLog}

/-- A result that is an error code, and means offline exactly if the last access was answered
so. -/
structure Ends (log : HwLog) (r : ℤ × HwLog) : Prop where
  le : r.1 ≤ 0
  ge : -QDMA_ERR_MBOX_ALL_ZERO_MSG ≤ r.1
  ends : ∃ new, r.2 = log ++ new ∧
    (r.1 = QDMA_MBOX_VF_OFFLINE ↔ ∃ a, new.getLast? = some (a, QDMA_MBOX_VF_OFFLINE))

/-- A result that no access gave. -/
theorem Ends.of_none {rv : ℤ} (hle : rv ≤ 0) (hge : -QDMA_ERR_MBOX_ALL_ZERO_MSG ≤ rv)
    (hne : rv ≠ QDMA_MBOX_VF_OFFLINE) : Ends log (rv, log) := by
  refine ⟨hle, hge, [], (List.append_nil log).symm, iff_of_false hne ?_⟩
  rintro ⟨a, ha⟩
  cases ha

/-- An error code that no access gave. -/
theorem Ends.code {n : ℤ} (hpos : 1 < n) (hcode : n ≤ QDMA_ERR_MBOX_ALL_ZERO_MSG) :
    Ends log (-n, log) := by
  refine .of_none (by omega) (by omega) ?_
  unfold QDMA_MBOX_VF_OFFLINE
  omega

/-- One step after the other. -/
theorem Ends.unlessFailed {next : HwLog → ℤ × HwLog} (h : Ends log r)
    (hnext : ∀ log', Ends log' (next log')) : Ends log (unlessFailed r next) := by
  unfold Access.unlessFailed
  split
  · exact h
  · rename_i hnn
    have hzero : r.1 = 0 := le_antisymm h.le (not_lt.mp hnn)
    obtain ⟨new, hlog, hiff⟩ := h.ends
    obtain ⟨new', hlog', hiff'⟩ := (hnext r.2).ends
    refine ⟨(hnext r.2).le, (hnext r.2).ge, new ++ new', ?_, ?_⟩
    · rw [hlog', hlog, List.append_assoc]
    · rw [hiff']
      rcases List.eq_nil_or_concat' new' with rfl | ⟨init, x, rfl⟩
      · -- nothing is accessed in the second step, and the first one did not fail
        rw [List.append_nil, ← hiff, hzero]
        refine iff_of_false ?_ (by decide)
        rintro ⟨a, ha⟩
        cases ha
      · rw [← List.append_assoc, List.getLast?_concat, List.getLast?_concat]

end

/-! ## The handler -/

section

variable {env : HwEnv} {i f : ℕ} {m : MboxMem} {s : ResourceState} {mem : CallocResults}
  {log : HwLog}

/-- A result of the resource manager. -/
structure CodeOk (rv : ℤ) : Prop where
  le : rv ≤ 0
  ge : -QDMA_ERR_MBOX_ALL_ZERO_MSG ≤ rv
  ne : rv ≠ QDMA_MBOX_VF_OFFLINE

theorem CodeOk.code {n : ℤ} (hpos : 1 < n) (hcode : n ≤ QDMA_ERR_MBOX_ALL_ZERO_MSG) :
    CodeOk (-n) := by
  refine ⟨by omega, by omega, ?_⟩
  unfold QDMA_MBOX_VF_OFFLINE
  omega

end

end OnicDriver.Mailbox
