import OnicDriver.Access.S80Hard
import OnicDriver.Lib.Runs

/-!
# Runs of writes on the S80 hard IP

What is read of a context after any sequence of writes to any queues: the fields of
the last write of that context that was not refused.
-/

namespace OnicDriver.Access.S80Hard

open Lib

/-! ## Contexts -/

/-- A context of a queue. -/
inductive Kind
  | sw (c2h : Bool)
  | pfetch
  | cmpt
  | intr
  | qid2vec (c2h : Bool)
  deriving DecidableEq, Repr

/-- A context to write. -/
inductive Ctxt
  | sw (c2h : Bool) (ctxt : DescqSwCtxt)
  | pfetch (ctxt : DescqPrefetchCtxt)
  | cmpt (ctxt : DescqCmptCtxt)
  | intr (ctxt : IndirectIntrCtxt)
  | qid2vec (c2h : Bool) (ctxt : Qid2vec)
  deriving DecidableEq

/-- Where the context is kept. The vectors of both directions are in one place. -/
def Kind.sel : Kind → IndCtxtCmdSel
  | sw c2h => swSel c2h
  | pfetch => .pftch
  | cmpt => .cmpt
  | intr => .intCoal
  | qid2vec _ => .fmap

namespace Ctxt

/-- The context that is written. -/
def kind : Ctxt → Kind
  | sw c2h _ => .sw c2h
  | pfetch _ => .pfetch
  | cmpt _ => .cmpt
  | intr _ => .intr
  | qid2vec c2h _ => .qid2vec c2h

/-- Every field fits its register field. -/
def Fits : Ctxt → Prop
  | sw _ ctxt => SwFits ctxt
  | pfetch ctxt => PfetchFits ctxt
  | cmpt ctxt => CmptFits ctxt
  | intr ctxt => IntrFits ctxt
  | qid2vec c2h ctxt => AllFit (qid2vecFields c2h ctxt)

/-- The write does not refuse the context. -/
def Ok : Ctxt → Prop
  | sw _ ctxt => SwOk ctxt
  | cmpt ctxt => CmptOk ctxt
  | intr ctxt => IntrOk ctxt
  | pfetch _ | qid2vec _ _ => True

instance (k : Ctxt) : Decidable k.Ok :=
  match k with
  | sw _ ctxt => inferInstanceAs (Decidable (SwOk ctxt))
  | cmpt ctxt => inferInstanceAs (Decidable (CmptOk ctxt))
  | intr ctxt => inferInstanceAs (Decidable (IntrOk ctxt))
  | pfetch _ | qid2vec _ _ => isTrue trivial

/-- The matching write. -/
def write (hwQid : ℕ) (mem : IndCtxtMem) : Ctxt → ℤ × IndCtxtMem
  | sw c2h ctxt => qdmaS80HardSwContextWrite c2h hwQid ctxt mem
  | pfetch ctxt => qdmaS80HardPfetchContextWrite hwQid ctxt mem
  | cmpt ctxt => qdmaS80HardCmptContextWrite hwQid ctxt mem
  | intr ctxt => qdmaS80HardIndirectIntrContextWrite hwQid ctxt mem
  | qid2vec c2h ctxt => qdmaS80HardQid2vecWrite c2h hwQid ctxt mem

/-- The matching read finds the fields of the context. The vector of a software context is that
of its direction. -/
def ReadsBack (hwQid : ℕ) (mem : IndCtxtMem) : Ctxt → Prop
  | sw c2h ctxt => ∀ out, qdmaS80HardSwContextRead c2h hwQid mem out =
      withVector c2h (qdmaS80HardQid2vecRead c2h hwQid mem {}) (swStored ctxt out)
  | pfetch ctxt => ∀ out, qdmaS80HardPfetchContextRead hwQid mem out = pfetchStored ctxt out
  | cmpt ctxt => ∀ out, qdmaS80HardCmptContextRead hwQid mem out = cmptStored ctxt out
  | intr ctxt => ∀ out, qdmaS80HardIndirectIntrContextRead hwQid mem out = intrStored ctxt out
  | qid2vec c2h ctxt => ∀ out, qdmaS80HardQid2vecRead c2h hwQid mem out =
      qid2vecStored c2h ctxt out

end Ctxt

/-- The read of the context finds the same in `mem'` as in `mem`. The vector of a software
context is that of its direction. -/
def Unchanged (hwQid : ℕ) (mem mem' : IndCtxtMem) : Kind → Prop
  | .sw c2h => ∀ out, qdmaS80HardSwContextRead c2h hwQid mem' out =
      withVector c2h (qdmaS80HardQid2vecRead c2h hwQid mem' {})
        (qdmaS80HardSwContextRead c2h hwQid mem out)
  | .pfetch => ∀ out, qdmaS80HardPfetchContextRead hwQid mem' out =
      qdmaS80HardPfetchContextRead hwQid mem out
  | .cmpt => ∀ out, qdmaS80HardCmptContextRead hwQid mem' out =
      qdmaS80HardCmptContextRead hwQid mem out
  | .intr => ∀ out, qdmaS80HardIndirectIntrContextRead hwQid mem' out =
      qdmaS80HardIndirectIntrContextRead hwQid mem out
  | .qid2vec c2h => ∀ out, qdmaS80HardQid2vecRead c2h hwQid mem' out =
      qdmaS80HardQid2vecRead c2h hwQid mem out

/-! ## One write -/

variable {hwQid q : ℕ} {mem mem' mem'' : IndCtxtMem} {kind : Kind} {k : Ctxt}

@[simp] theorem withVector_withVector (c2h : Bool) (v v' : Qid2vec) (ctxt : DescqSwCtxt) :
    withVector c2h v (withVector c2h v' ctxt) = withVector c2h v ctxt := by
  cases c2h <;> rfl

/-- A place that was not written is unchanged. -/
theorem Unchanged.of_reads (h : ∀ cnt, indirectRegRead kind.sel hwQid cnt mem' =
    indirectRegRead kind.sel hwQid cnt mem) : Unchanged hwQid mem mem' kind := by
  cases kind with
  | sw c2h =>
    intro out
    have hread : indirectRegRead (swSel c2h) hwQid QDMA_S80_HARD_SW_CONTEXT_NUM_WORDS mem' =
        indirectRegRead (swSel c2h) hwQid QDMA_S80_HARD_SW_CONTEXT_NUM_WORDS mem := h _
    simp only [qdmaS80HardSwContextRead, withVector_withVector, hread]
  | pfetch => exact fun out => congrArg (pfetchOfWords · out) (h _)
  | cmpt => exact fun out => congrArg (cmptOfWords · out) (h _)
  | intr => exact fun out => congrArg (intrOfWords · out) (h _)
  | qid2vec c2h =>
    intro out
    have hread : indirectRegRead .fmap hwQid QDMA_S80_HARD_QID2VEC_CONTEXT_NUM_WORDS mem' =
        indirectRegRead .fmap hwQid QDMA_S80_HARD_QID2VEC_CONTEXT_NUM_WORDS mem := h _
    simp only [qdmaS80HardQid2vecRead, hread]

theorem Unchanged.refl (kind : Kind) : Unchanged hwQid mem mem kind :=
  .of_reads fun _ => rfl

theorem Unchanged.trans (h : Unchanged hwQid mem mem' kind)
    (h' : Unchanged hwQid mem' mem'' kind) : Unchanged hwQid mem mem'' kind := by
  cases kind with
  | sw c2h =>
    intro out
    rw [h' out, h out, withVector_withVector]
  | pfetch | cmpt | intr | qid2vec c2h => exact fun out => (h' out).trans (h out)

/-- What is read back stays so while the context is unchanged. -/
theorem Ctxt.ReadsBack.unchanged (h : k.ReadsBack hwQid mem)
    (h' : Unchanged hwQid mem mem' k.kind) : k.ReadsBack hwQid mem' := by
  cases k with
  | sw c2h ctxt =>
    intro out
    rw [h' out, h out, withVector_withVector]
  | pfetch ctxt | cmpt ctxt | intr ctxt | qid2vec c2h ctxt =>
    exact fun out => (h' out).trans (h out)

/-- A write that is refused stores nothing. -/
theorem Ctxt.write_of_not_ok (h : ¬ k.Ok) (q : ℕ) (mem : IndCtxtMem) :
    (k.write q mem).2 = mem := by
  cases k with
  | sw c2h ctxt => simp only [write, qdmaS80HardSwContextWrite, if_neg (show ¬ SwOk ctxt from h)]
  | cmpt ctxt => simp only [write, qdmaS80HardCmptContextWrite, if_neg (show ¬ CmptOk ctxt from h)]
  | intr ctxt =>
    simp only [write, qdmaS80HardIndirectIntrContextWrite, if_neg (show ¬ IntrOk ctxt from h)]
  | pfetch ctxt | qid2vec c2h ctxt => exact absurd trivial h

/-- Another one changes the place of its context. -/
theorem Ctxt.write_of_ok (h : k.Ok) (q : ℕ) (mem : IndCtxtMem) : ∃ data, (k.write q mem).2 =
    indirectRegWrite QDMA_S80_HARD_IND_CTXT_DATA_NUM_REGS k.kind.sel q data mem := by
  cases k with
  | sw c2h ctxt =>
    simp only [write, qdmaS80HardSwContextWrite, if_pos (show SwOk ctxt from h)]
    exact ⟨_, rfl⟩
  | cmpt ctxt =>
    simp only [write, qdmaS80HardCmptContextWrite, if_pos (show CmptOk ctxt from h)]
    exact ⟨_, rfl⟩
  | intr ctxt =>
    simp only [write, qdmaS80HardIndirectIntrContextWrite, if_pos (show IntrOk ctxt from h)]
    exact ⟨_, rfl⟩
  | pfetch ctxt | qid2vec c2h ctxt => exact ⟨_, rfl⟩

/-- Different contexts in one place are the vectors of the two directions. -/
theorem Kind.eq_of_sel {kind kind' : Kind} (h : kind.sel = kind'.sel) :
    kind = kind' ∨ ∃ c2h c2h', kind = .qid2vec c2h ∧ kind' = .qid2vec c2h' ∧ c2h' ≠ c2h := by
  cases kind <;> cases kind' <;> grind [Kind.sel, swSel]

/-- The word of the vectors after a write. -/
theorem qid2vec_word {c2h : Bool} {ctxt : Qid2vec} (hq : cmdQid q = cmdQid hwQid) :
    indirectRegRead .fmap hwQid QDMA_S80_HARD_QID2VEC_CONTEXT_NUM_WORDS
      (qdmaS80HardQid2vecWrite c2h q ctxt mem).2 0 =
      indirectRegRead .fmap hwQid QDMA_S80_HARD_QID2VEC_CONTEXT_NUM_WORDS mem 0 &&&
        qid2vecKept c2h ||| pack (qid2vecFields c2h ctxt) := by
  simp [qdmaS80HardQid2vecWrite, indirectRegRead, indirectRegWrite, hq,
    QDMA_S80_HARD_QID2VEC_CONTEXT_NUM_WORDS, QDMA_S80_HARD_IND_CTXT_DATA_NUM_REGS]

/-- The fields of the direction that was written have their values. -/
theorem qid2vec_get {c2h : Bool} {ctxt : Qid2vec} (h : AllFit (qid2vecFields c2h ctxt))
    (word : ℕ) :
    (qid2vecFields c2h ctxt).map
        (fun f => f.1.get (word &&& qid2vecKept c2h ||| pack (qid2vecFields c2h ctxt))) =
      (qid2vecFields c2h ctxt).map Prod.snd := by
  have hget := gets_pack (qid2vecFields_laidOut c2h ctxt) h rfl
  refine Eq.trans ?_ hget
  refine List.map_congr_left fun f hf => ?_
  rw [Mask.get_or]
  cases c2h <;>
    simp only [qid2vecFields, reduceIte, Bool.false_eq_true, List.mem_cons, List.not_mem_nil,
      or_false] at hf <;>
    rcases hf with rfl | rfl <;>
    simp (disch := decide) only [qid2vecKept, reduceIte, Bool.false_eq_true,
      Nat.and_or_distrib_left, Mask.get_or, Mask.get_and_val_of_apart, Nat.zero_or]

/-- The fields of the other direction are as they were. -/
theorem qid2vec_get_other {c2h c2h' : Bool} {ctxt ctxt' : Qid2vec} (hne : c2h' ≠ c2h)
    (word : ℕ) :
    (qid2vecFields c2h' ctxt').map
        (fun f => f.1.get (word &&& qid2vecKept c2h ||| pack (qid2vecFields c2h ctxt))) =
      (qid2vecFields c2h' ctxt').map (fun f => f.1.get word) := by
  obtain rfl : c2h' = !c2h := Bool.eq_not_of_ne hne
  refine List.map_congr_left fun f hf => ?_
  have hapart : f.1.get (pack (qid2vecFields c2h ctxt)) = 0 := by
    refine get_pack_of_apart fun g hg => ?_
    cases c2h <;>
      simp only [qid2vecFields, reduceIte, Bool.not_true, Bool.not_false, Bool.false_eq_true,
        List.mem_cons, List.not_mem_nil, or_false] at hf hg <;>
      rcases hf with rfl | rfl <;> rcases hg with rfl | rfl <;> dsimp only <;> decide
  rw [Mask.get_or, hapart, Nat.or_zero]
  cases c2h <;>
    simp only [qid2vecFields, reduceIte, Bool.not_true, Bool.not_false, Bool.false_eq_true,
      List.mem_cons, List.not_mem_nil, or_false] at hf <;>
    rcases hf with rfl | rfl <;>
    simp (disch := decide) only [qid2vecKept, reduceIte, Bool.false_eq_true,
      Nat.and_or_distrib_left, Mask.get_or, Mask.get_and_val, Mask.get_and_val_of_apart,
      Nat.or_zero, Nat.zero_or]

/-- The vector of the direction that was written. -/
theorem qid2vecRead_write {c2h : Bool} {ctxt : Qid2vec} (h : AllFit (qid2vecFields c2h ctxt))
    (hq : cmdQid q = cmdQid hwQid) (out : Qid2vec) :
    qdmaS80HardQid2vecRead c2h hwQid (qdmaS80HardQid2vecWrite c2h q ctxt mem).2 out =
      qid2vecStored c2h ctxt out := by
  have hget := qid2vec_get h
    (indirectRegRead .fmap hwQid QDMA_S80_HARD_QID2VEC_CONTEXT_NUM_WORDS mem 0)
  rw [← qid2vec_word hq] at hget
  unfold qdmaS80HardQid2vecRead qid2vecStored
  simp (disch := decide) only [trunc_get]
  generalize indirectRegRead .fmap hwQid QDMA_S80_HARD_QID2VEC_CONTEXT_NUM_WORDS
    (qdmaS80HardQid2vecWrite c2h q ctxt mem).2 0 = word at hget ⊢
  cases c2h <;>
    simp only [qid2vecFields, reduceIte, Bool.false_eq_true, List.map_cons, List.map_nil,
      List.cons.injEq, and_true] at hget ⊢ <;>
    rw [hget.1, hget.2]

/-- The vector of the other direction is as it was. -/
theorem qid2vecRead_write_other {c2h c2h' : Bool} {ctxt : Qid2vec} (hne : c2h' ≠ c2h)
    (hq : cmdQid q = cmdQid hwQid) (out : Qid2vec) :
    qdmaS80HardQid2vecRead c2h' hwQid (qdmaS80HardQid2vecWrite c2h q ctxt mem).2 out =
      qdmaS80HardQid2vecRead c2h' hwQid mem out := by
  have hget := @qid2vec_get_other c2h c2h' ctxt ctxt hne
    (indirectRegRead .fmap hwQid QDMA_S80_HARD_QID2VEC_CONTEXT_NUM_WORDS mem 0)
  rw [← qid2vec_word hq] at hget
  simp only [qdmaS80HardQid2vecRead]
  generalize indirectRegRead .fmap hwQid QDMA_S80_HARD_QID2VEC_CONTEXT_NUM_WORDS
    (qdmaS80HardQid2vecWrite c2h q ctxt mem).2 0 = word at hget ⊢
  cases c2h' <;>
    simp only [qid2vecFields, reduceIte, Bool.false_eq_true, List.map_cons, List.map_nil,
      List.cons.injEq, and_true] at hget ⊢ <;>
    rw [hget.1, hget.2]

/-- A context that was written is read back. -/
theorem readsBack_write (h : k.Fits) (hok : k.Ok) (hq : cmdQid q = cmdQid hwQid)
    (mem : IndCtxtMem) : k.ReadsBack hwQid (k.write q mem).2 := by
  have hread : ∀ sel cnt mem', indirectRegRead sel hwQid cnt mem' =
      indirectRegRead sel q cnt mem' := by
    intro sel cnt mem'
    funext i
    rw [indirectRegRead, indirectRegRead, hq]
  cases k with
  | sw c2h ctxt =>
    intro out
    simp only [Ctxt.write, qdmaS80HardSwContextWrite, if_pos (show SwOk ctxt from hok)]
    refine congrArg (withVector c2h _) ?_
    rw [hread]
    exact swOfWords_eq h (holds_read (swWords_laidOut ctxt) h.fields le_rfl le_rfl) out
  | pfetch ctxt =>
    intro out
    simp only [Ctxt.write, qdmaS80HardPfetchContextWrite, qdmaS80HardPfetchContextRead, hread]
    refine pfetchOfWords_eq h ?_ out
    exact holds_read (pfetchWords_laidOut ctxt) h.fields le_rfl (by decide)
  | cmpt ctxt =>
    intro out
    simp only [Ctxt.write, qdmaS80HardCmptContextWrite, if_pos (show CmptOk ctxt from hok),
      qdmaS80HardCmptContextRead, hread]
    exact cmptOfWords_eq h (holds_read (cmptWords_laidOut ctxt) h.fields le_rfl le_rfl) out
  | intr ctxt =>
    intro out
    simp only [Ctxt.write, qdmaS80HardIndirectIntrContextWrite,
      if_pos (show IntrOk ctxt from hok), qdmaS80HardIndirectIntrContextRead, hread]
    refine intrOfWords_eq h ?_ out
    exact holds_read (intrWords_laidOut ctxt) h.fields le_rfl (by decide)
  | qid2vec c2h ctxt => exact qid2vecRead_write h hq

/-- Every other context is unchanged. -/
theorem unchanged_write (hne : ¬ (k.kind = kind ∧ cmdQid q = cmdQid hwQid ∧ k.Ok))
    (mem : IndCtxtMem) : Unchanged hwQid mem (k.write q mem).2 kind := by
  by_cases hok : k.Ok
  · by_cases hplace : kind.sel = k.kind.sel ∧ cmdQid hwQid = cmdQid q
    · obtain ⟨hsel, hq⟩ := hplace
      rcases Kind.eq_of_sel hsel with hkind | ⟨c2h', c2h, rfl, hkind, hdir⟩
      · exact absurd ⟨hkind.symm, hq.symm, hok⟩ hne
      · cases k with
        | qid2vec c2h ctxt =>
          obtain rfl := Kind.qid2vec.inj hkind
          exact qid2vecRead_write_other hdir.symm hq.symm
        | sw c2h ctxt | pfetch ctxt | cmpt ctxt | intr ctxt => simp [Ctxt.kind] at hkind
    · obtain ⟨data, hmem⟩ := Ctxt.write_of_ok hok q mem
      rw [hmem]
      exact .of_reads fun cnt => indirectRegRead_write_of_ne hplace
  · rw [Ctxt.write_of_not_ok hok]
    exact .refl kind

/-! ## Runs -/

/-- A sequence of writes, each to a hardware queue. -/
def runWrites (writes : List (ℕ × Ctxt)) (mem : IndCtxtMem) : IndCtxtMem :=
  run (fun mem x => (x.2.write x.1 mem).2) mem writes

/-- The last write of a context of a queue that was not refused. -/
def lastWrite (kind : Kind) (hwQid : ℕ) (writes : List (ℕ × Ctxt)) : Option Ctxt :=
  ((writes.filter fun x => x.2.kind = kind ∧ cmdQid x.1 = cmdQid hwQid ∧ x.2.Ok).getLast?).map
    Prod.snd

/-- What the read of a context finds after the writes: the fields of the last write of the
context, or what was there before. -/
def ReadsLast (kind : Kind) (hwQid : ℕ) (writes : List (ℕ × Ctxt)) (mem : IndCtxtMem) : Prop :=
  match lastWrite kind hwQid writes with
  | some k => k.ReadsBack hwQid (runWrites writes mem)
  | none => Unchanged hwQid mem (runWrites writes mem) kind

theorem lastWrite_kind {writes : List (ℕ × Ctxt)} (h : lastWrite kind hwQid writes = some k) :
    k.kind = kind := by
  obtain ⟨x, hx, rfl⟩ := Option.map_eq_some_iff.mp h
  have hmem := List.mem_of_getLast? hx
  simp only [List.mem_filter, decide_eq_true_eq] at hmem
  exact hmem.2.1

/-- The fields of a context are those of the last write of it, whatever was written to other
contexts and queues, and to the other direction of the vectors. -/
theorem readsLast (writes : List (ℕ × Ctxt)) (mem : IndCtxtMem)
    (h : ∀ x ∈ writes, x.2.Fits) (kind : Kind) (hwQid : ℕ) :
    ReadsLast kind hwQid writes mem := by
  induction writes using List.reverseRecOn with
  | nil => exact .refl kind
  | append_singleton writes x ih =>
    have hrest := ih fun y hy => h y (List.mem_append_left _ hy)
    have hrun : runWrites (writes ++ [x]) mem = (x.2.write x.1 (runWrites writes mem)).2 :=
      run_append mem writes [x]
    unfold ReadsLast at hrest ⊢
    rw [hrun]
    by_cases hmatch : x.2.kind = kind ∧ cmdQid x.1 = cmdQid hwQid ∧ x.2.Ok
    · have hlast : lastWrite kind hwQid (writes ++ [x]) = some x.2 := by
        simp [lastWrite, List.filter_append, hmatch]
      rw [hlast]
      exact readsBack_write (h x (by simp)) hmatch.2.2 hmatch.2.1 _
    · have hlast : lastWrite kind hwQid (writes ++ [x]) = lastWrite kind hwQid writes := by
        simp [lastWrite, List.filter_append, hmatch]
      have hsame := unchanged_write hmatch (runWrites writes mem)
      rw [hlast]
      cases hk : lastWrite kind hwQid writes with
      | none =>
        rw [hk] at hrest
        exact hrest.trans hsame
      | some k =>
        rw [hk] at hrest
        rw [← lastWrite_kind hk] at hsame
        exact hrest.unchanged hsame

/-- The vector of one direction, then the other: the first one is still found. -/
theorem readsLast_vectors :
    ReadsLast (.qid2vec true) 3 [(3, .qid2vec true { c2hVector := 200, c2hEnCoal := 1 }),
      (3, .qid2vec false { h2cVector := 255 })] fun _ _ _ => 0 := by
  refine readsLast _ _ ?_ _ _
  simp only [List.forall_mem_cons, Ctxt.Fits]
  exact ⟨by decide, by decide, by simp⟩

end OnicDriver.Access.S80Hard
