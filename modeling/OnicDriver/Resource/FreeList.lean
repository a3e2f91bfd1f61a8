import OnicDriver.Lib.Spans
import OnicDriver.Resource.Basic

/-!
# What the free-list functions do

One specification for each function of the free list, for allocations that
succeed: submitting a range keeps the list ascending and merges neighbours,
and a request cuts its range out of a single node.
-/

namespace OnicDriver.Resource

open Lib

/-- The first queue after a range. -/
def ResourceEntry.qend (e : ResourceEntry) : ℤ := e.qbase + e.totalQ

/-- The queue ids of a range. -/
abbrev ResourceEntry.ids : ResourceEntry → Set ℤ := interval ResourceEntry.qbase ResourceEntry.qend

/-- The range lies in `[lo, hi)`. -/
def Inside (lo hi : ℤ) (e : ResourceEntry) : Prop := lo ≤ e.qbase ∧ e.qend ≤ hi

theorem ResourceEntry.ids_eq_empty {e : ResourceEntry} (h : e.totalQ = 0) : e.ids = ∅ := by
  simp [ResourceEntry.ids, interval, ResourceEntry.qend, h]

/-- A free list of a master that owns `[lo, hi)`. The free list of a master without
queues holds an empty node. -/
structure FreeOk (lo hi : ℤ) (free : List ResourceEntry) : Prop where
  ascending : Ascending ResourceEntry.qbase ResourceEntry.qend free
  inside : ∀ e ∈ free, Inside lo hi e
  pos : lo < hi → ∀ e ∈ free, 0 < e.totalQ

section Bounds

variable {lo hi : ℤ}

theorem insertFree_perm (new : ResourceEntry) (free : List ResourceEntry) :
    (insertFree new free).Perm (new :: free) := by
  induction free with
  | nil => exact List.Perm.refl _
  | cons node rest ih =>
    unfold insertFree
    split
    · exact List.Perm.refl _
    · exact (List.Perm.cons node ih).trans (List.Perm.swap new node rest)

/-- Inserting a nonempty range that is disjoint from the nodes keeps the list ascending. -/
theorem insertFree_ascending {new : ResourceEntry} {free : List ResourceEntry}
    (hfree : Ascending ResourceEntry.qbase ResourceEntry.qend free)
    (hpos : ∀ e ∈ free, 0 < e.totalQ) (hnew : 0 < new.totalQ)
    (hdisjoint : ∀ e ∈ free, Disjoint new.ids e.ids) :
    Ascending ResourceEntry.qbase ResourceEntry.qend (insertFree new free) := by
  induction free with
  | nil => simp [insertFree, Ascending]
  | cons node rest ih =>
    obtain ⟨hnode, hrest⟩ := List.pairwise_cons.mp hfree
    have hapart := Set.disjoint_left.mp (hdisjoint node List.mem_cons_self)
    have hnodepos := hpos node List.mem_cons_self
    unfold insertFree
    split
    · rename_i hgt
      -- the first queue of `node` is not in the new range
      have hend : new.qend ≤ node.qbase := by
        by_contra hlt
        refine hapart (a := node.qbase) ⟨hgt.le, not_le.mp hlt⟩ ⟨le_rfl, ?_⟩
        simp only [ResourceEntry.qend]
        omega
      refine List.pairwise_cons.mpr ⟨?_, hfree⟩
      intro e he
      rcases List.mem_cons.mp he with rfl | he
      · exact hend
      · have := hnode e he
        simp only [ResourceEntry.qend] at this hend ⊢
        omega
    · rename_i hle
      have hend : node.qend ≤ new.qbase := by
        by_contra hlt
        refine hapart (a := new.qbase) ⟨le_rfl, ?_⟩ ⟨not_lt.mp hle, not_le.mp hlt⟩
        simp only [ResourceEntry.qend]
        omega
      refine List.pairwise_cons.mpr ⟨?_, ih hrest ?_ ?_⟩
      · intro e he
        rcases List.mem_cons.mp ((insertFree_perm new rest).mem_iff.mp he) with rfl | he
        · exact hend
        · exact hnode e he
      · exact fun e he => hpos e (List.mem_cons_of_mem _ he)
      · exact fun e he => hdisjoint e (List.mem_cons_of_mem _ he)

/-- The merged node is the sum of the two, and the test for merging is exact. -/
theorem merge_test (hlo : 0 ≤ lo) (hhi : hi < 2 ^ 31) {a b : ResourceEntry} (ha : Inside lo hi a)
    (hb : Inside lo hi b) :
    (u32 (a.qbase + a.totalQ) = u32 b.qbase ↔ a.qend = b.qbase) ∧
      (a.qend = b.qbase → u32 (a.totalQ + b.totalQ) = a.totalQ + b.totalQ) := by
  simp only [Inside, ResourceEntry.qend] at ha hb ⊢
  have h1 := u32_of_lt (x := a.qbase + a.totalQ) (by omega) (by omega)
  have h2 := u32_of_lt (x := b.qbase) (by omega) (by omega)
  refine ⟨by omega, fun hab => ?_⟩
  have h3 := u32_natCast (n := a.totalQ + b.totalQ) (by omega)
  exact_mod_cast h3

/-- The merge loop leaves a coalesced list inside the same bounds that starts no earlier
than `streach`, and that tiles the same set together with any other ranges. -/
theorem defragmentFrom_spec (hlo : 0 ≤ lo) (hhi : hi < 2 ^ 31) {streach : ResourceEntry}
    {rest : List ResourceEntry}
    (hasc : Ascending ResourceEntry.qbase ResourceEntry.qend (streach :: rest))
    (hin : ∀ e ∈ streach :: rest, Inside lo hi e) (hpos : ∀ e ∈ streach :: rest, 0 < e.totalQ) :
    Coalesced ResourceEntry.qbase ResourceEntry.qend (defragmentFrom streach rest) ∧
      (∀ e ∈ defragmentFrom streach rest, Inside streach.qbase hi e) ∧
      ∀ others S, Tiles ResourceEntry.ids (streach :: rest ++ others) S →
        Tiles ResourceEntry.ids (defragmentFrom streach rest ++ others) S := by
  induction rest generalizing streach with
  | nil =>
    have hs := hpos streach List.mem_cons_self
    have hend := (hin streach List.mem_cons_self).2
    refine ⟨⟨?_, by simp [defragmentFrom]⟩, ?_, fun others S h => h⟩
    · simp only [defragmentFrom, List.mem_singleton, forall_eq, ResourceEntry.qend]
      omega
    · simp only [defragmentFrom, List.mem_singleton, forall_eq]
      exact ⟨le_rfl, hend⟩
  | cons node rest ih =>
    obtain ⟨hstreach, hrest⟩ := List.pairwise_cons.mp hasc
    have hsin := hin streach List.mem_cons_self
    have hnin := hin node (by simp)
    have hsn := hstreach node List.mem_cons_self
    have hspos := hpos streach List.mem_cons_self
    have hnpos := hpos node (by simp)
    obtain ⟨htest, hsum⟩ := merge_test hlo hhi hsin hnin
    unfold defragmentFrom
    split
    · rename_i heq
      have hadj := htest.mp heq
      rw [hsum hadj]
      have hend : (⟨streach.qbase, streach.totalQ + node.totalQ⟩ : ResourceEntry).qend =
          node.qend := by
        simp only [ResourceEntry.qend] at hadj ⊢
        omega
      have hmerged : Ascending ResourceEntry.qbase ResourceEntry.qend
          (⟨streach.qbase, streach.totalQ + node.totalQ⟩ :: rest) := by
        refine List.pairwise_cons.mpr ⟨?_, (List.pairwise_cons.mp hrest).2⟩
        intro e he
        rw [hend]
        exact (List.pairwise_cons.mp hrest).1 e he
      obtain ⟨hcoal, hinside, htiles⟩ := ih hmerged
        (by
          intro e he
          rcases List.mem_cons.mp he with rfl | he
          · exact ⟨hsin.1, by rw [hend]; exact hnin.2⟩
          · exact hin e (by simp [he]))
        (by
          intro e he
          rcases List.mem_cons.mp he with rfl | he
          · exact Nat.add_pos_left hspos _
          · exact hpos e (by simp [he]))
      refine ⟨hcoal, hinside, fun others S h => htiles others S ?_⟩
      refine Tiles.merge (m := [streach, node]) h ⟨?_, ?_⟩
      · simp only [List.pairwise_cons, List.mem_singleton, forall_eq, List.not_mem_nil,
          false_imp_iff, implies_true, List.Pairwise.nil, and_true]
        refine Set.disjoint_left.mpr fun x hx hy => ?_
        exact absurd (hx.2.trans_le hsn) hy.1.not_gt
      · ext x
        simp only [cover_cons, cover_nil, Set.union_empty, Set.mem_union, interval, Set.mem_Ico,
          ResourceEntry.qend] at hadj ⊢
        omega
    · rename_i hne
      have hgap : streach.qend < node.qbase :=
        lt_of_le_of_ne hsn fun h => hne (htest.mpr h)
      obtain ⟨hcoal, hinside, htiles⟩ := ih hrest
        (fun e he => hin e (List.mem_cons_of_mem _ he))
        (fun e he => hpos e (List.mem_cons_of_mem _ he))
      refine ⟨⟨?_, List.pairwise_cons.mpr ⟨?_, hcoal.2⟩⟩, ?_, fun others S h => ?_⟩
      · intro e he
        rcases List.mem_cons.mp he with rfl | he
        · simp only [ResourceEntry.qend]
          omega
        · exact hcoal.1 e he
      · intro e he
        exact hgap.trans_le (hinside e he).1
      · intro e he
        rcases List.mem_cons.mp he with rfl | he
        · exact ⟨le_rfl, hsin.2⟩
        · refine ⟨?_, (hinside e he).2⟩
          have := (hinside e he).1
          simp only [ResourceEntry.qend] at hgap
          omega
      · have hmoved := htiles (streach :: others) S (h.perm List.perm_middle.symm)
        exact hmoved.perm List.perm_middle

/-- The merge loop on a whole free list. -/
theorem defragment_spec (hlo : 0 ≤ lo) (hhi : hi < 2 ^ 31) {free : List ResourceEntry}
    (hasc : Ascending ResourceEntry.qbase ResourceEntry.qend free)
    (hin : ∀ e ∈ free, Inside lo hi e) (hpos : ∀ e ∈ free, 0 < e.totalQ) :
    Coalesced ResourceEntry.qbase ResourceEntry.qend (defragment free) ∧
      (∀ e ∈ defragment free, Inside lo hi e) ∧
      ∀ others S, Tiles ResourceEntry.ids (free ++ others) S →
        Tiles ResourceEntry.ids (defragment free ++ others) S := by
  cases free with
  | nil => exact ⟨⟨by simp [defragment], by simp [defragment]⟩, by simp [defragment],
      fun others S h => h⟩
  | cons node rest =>
    obtain ⟨hcoal, hinside, htiles⟩ := defragmentFrom_spec hlo hhi hasc hin hpos
    refine ⟨hcoal, fun e he => ⟨?_, (hinside e he).2⟩, htiles⟩
    exact (hin node List.mem_cons_self).1.trans (hinside e he).1

/-- Coalesced nodes are nonempty. -/
theorem pos_of_coalesced {free : List ResourceEntry}
    (h : Coalesced ResourceEntry.qbase ResourceEntry.qend free) : ∀ e ∈ free, 0 < e.totalQ := by
  intro e he
  have := h.1 e he
  simp only [ResourceEntry.qend] at this
  omega

end Bounds

/-! ## Cutting a range out of a node -/

/-- What is left of `n` before `m`. -/
def leftPart (n m : ResourceEntry) : List ResourceEntry :=
  if n.qbase < m.qbase then [⟨n.qbase, (m.qbase - n.qbase).toNat⟩] else []

/-- What is left of `n` after `m`. -/
def rightPart (n m : ResourceEntry) : List ResourceEntry :=
  if m.qend < n.qend then [⟨m.qend, (n.qend - m.qend).toNat⟩] else []

/-- A range inside a node and the rest of the node tile it. -/
theorem carve_tiles {n m : ResourceEntry} (hl : n.qbase ≤ m.qbase) (hr : m.qend ≤ n.qend) :
    Tiles ResourceEntry.ids (m :: (leftPart n m ++ rightPart n m)) n.ids := by
  simp only [ResourceEntry.qend] at hr
  unfold leftPart rightPart ResourceEntry.qend
  refine ⟨?_, ?_⟩
  · split <;> split <;>
      simp only [List.pairwise_cons, List.mem_cons, List.not_mem_nil, or_false, false_imp_iff,
        implies_true, List.Pairwise.nil, and_true, List.cons_append, List.nil_append,
        List.append_nil, forall_eq_or_imp, forall_eq] <;>
      simp only [Set.disjoint_left, interval, Set.mem_Ico, ResourceEntry.qend] <;>
      and_intros <;> intro x <;> omega
  · ext x
    simp only [mem_cover, interval, Set.mem_Ico, ResourceEntry.qend]
    split <;> split <;>
      simp only [List.mem_cons, List.not_mem_nil, or_false, List.cons_append, List.nil_append,
        List.append_nil, exists_eq_or_imp, exists_eq_left] <;> omega

/-- The rest of a node is inside the node, nonempty and, around a nonempty range, coalesced. -/
theorem carve_rest {n m : ResourceEntry} (hl : n.qbase ≤ m.qbase) (hr : m.qend ≤ n.qend) :
    (∀ e ∈ leftPart n m ++ rightPart n m,
      n.qbase ≤ e.qbase ∧ e.qend ≤ n.qend ∧ 0 < e.totalQ) ∧
    Ascending ResourceEntry.qbase ResourceEntry.qend (leftPart n m ++ rightPart n m) ∧
    ((m.totalQ = 0 → m.qbase = n.qbase ∨ m.qbase = n.qend) →
      Coalesced ResourceEntry.qbase ResourceEntry.qend (leftPart n m ++ rightPart n m)) := by
  simp only [ResourceEntry.qend] at hr
  unfold leftPart rightPart Ascending Coalesced ResourceEntry.qend
  refine ⟨?_, ?_, fun hedge => ?_⟩ <;> split <;> split <;>
    simp only [List.pairwise_cons, List.mem_cons, List.not_mem_nil, or_false, false_imp_iff,
      implies_true, List.Pairwise.nil, and_true, List.cons_append, List.nil_append,
      List.append_nil, forall_eq_or_imp, forall_eq] <;> omega

/-- `fragment_free_list` cuts the request out of a node that holds it. -/
theorem fragmentFreeList_eq {lo hi qbase : ℤ} {qmax : ℕ} {s t : List ResourceEntry}
    {n : ResourceEntry} (hlo : 0 ≤ lo) (hhi : hi < 2 ^ 31) (hn : Inside lo hi n)
    (hl : n.qbase ≤ qbase) (hr : qbase + qmax ≤ n.qend) :
    (fragmentFreeList qmax qbase ⟨s, n, t⟩ []).1 =
        some ⟨s ++ leftPart n ⟨qbase, qmax⟩, ⟨qbase, qmax⟩, rightPart n ⟨qbase, qmax⟩ ++ t⟩ ∧
      (fragmentFreeList qmax qbase ⟨s, n, t⟩ []).2.2 = [] := by
  obtain ⟨b, c⟩ := n
  simp only [Inside, ResourceEntry.qend] at hn hr hl
  have hbound : (qmax : ℤ) ≤ c := by omega
  have hend : (u32 (b + c) : ℤ) = b + c := u32_of_lt (by omega) (by omega)
  have hreq : (u32 (qbase + qmax) : ℤ) = qbase + qmax := u32_of_lt (by omega) (by omega)
  have hleft : (u32 (qbase - b) : ℤ) = qbase - b := u32_of_lt (by omega) (by omega)
  have hbase : s32 (qbase + qmax) = qbase + qmax := s32_of_lt (by omega) (by omega)
  have hrest : (u32 ((c : ℤ) - qmax) : ℤ) = c - qmax := u32_of_lt (by omega) (by omega)
  unfold fragmentFreeList leftPart rightPart ResourceEntry.qend
  simp only [qdmaFreeEntryCreate, qdmaCalloc]
  by_cases hb : qbase = b
  · subst hb
    by_cases hc : qmax = c
    · subst hc
      simp
    · have hlt : qbase + (qmax : ℤ) < qbase + c := by omega
      have hsize : u32 ((c : ℤ) - qmax) = (qbase + c - (qbase + qmax)).toNat := by omega
      have htotal : u32 ((c : ℤ) - ((qbase + c - (qbase + qmax)).toNat : ℤ)) = qmax := by
        have := u32_of_lt (x := (c : ℤ) - ((qbase + c - (qbase + qmax)).toNat : ℤ))
          (by omega) (by omega)
        omega
      rw [if_neg (by simp [hc]), if_pos ⟨rfl, hc⟩, if_neg (lt_irrefl _), if_pos hlt]
      simp only [hsize, htotal, hbase, List.append_nil, List.singleton_append, and_self]
  · have hlt : b < qbase := by omega
    have hsize : u32 (qbase - b) = (qbase - b).toNat := by omega
    rw [if_neg (by simp [hb]), if_neg (by simp [hb])]
    by_cases he : qbase + qmax = b + c
    · rw [if_pos ⟨hlt, by rw [he]⟩]
      simp [hsize, hlt, he]
    · have hne : ¬ (qbase > b ∧ u32 (qbase + qmax) = u32 (b + c)) := by
        rintro ⟨-, h⟩
        omega
      have htotal : (u32 ((c : ℤ) - ((qbase - b).toNat : ℤ)) : ℤ) = c - (qbase - b) := by
        have := u32_of_lt (x := (c : ℤ) - ((qbase - b).toNat : ℤ)) (by omega) (by omega)
        omega
      have hright : u32 ((c : ℤ) - (qbase - b) - qmax) = (b + c - (qbase + qmax)).toNat := by
        have := u32_of_lt (x := (c : ℤ) - (qbase - b) - qmax) (by omega) (by omega)
        omega
      have hin : qbase + (qmax : ℤ) < b + c := by omega
      rw [if_neg hne, if_pos hlt, if_pos hin]
      simp only [hsize, htotal, hright, hbase, List.singleton_append, and_self]

/-- The first loop returns a node of the list that passes the test. -/
theorem findRequested_some {qmax : ℕ} {qbase : ℤ} {before l : List ResourceEntry} {z : FreeNode}
    (h : findRequested qmax qbase before l = some z) :
    z.list = before ++ l ∧ holdsRequest qmax qbase z.node = true := by
  induction l generalizing before with
  | nil => simp [findRequested] at h
  | cons node rest ih =>
    unfold findRequested at h
    split at h
    · rename_i hholds
      cases h
      exact ⟨rfl, hholds⟩
    · obtain ⟨hlist, hholds⟩ := ih h
      exact ⟨by simp [hlist], hholds⟩

/-- The first loop fails only if no node passes the test. -/
theorem findRequested_none {qmax : ℕ} {qbase : ℤ} {before l : List ResourceEntry}
    (h : findRequested qmax qbase before l = none) :
    ∀ e ∈ l, holdsRequest qmax qbase e = false := by
  induction l generalizing before with
  | nil => simp
  | cons node rest ih =>
    unfold findRequested at h
    split at h
    · cases h
    · rename_i hholds
      intro e he
      rcases List.mem_cons.mp he with rfl | he
      · simpa using hholds
      · exact ih h e he

/-- `best` is a smallest node of `full` that fits, as far as the nodes `seen` go. -/
def IsBestFit (qmax : ℕ) (full seen : List ResourceEntry) : Option FreeNode → Prop
  | none => ∀ e ∈ seen, e.totalQ < qmax
  | some z => z.list = full ∧ qmax ≤ z.node.totalQ ∧
      ∀ e ∈ seen, qmax ≤ e.totalQ → z.node.totalQ ≤ e.totalQ

/-- The second loop extends what is known of the nodes it passes. -/
theorem findBestFit_spec {qmax : ℕ} {best : Option FreeNode} {before l : List ResourceEntry}
    (h : IsBestFit qmax (before ++ l) before best) :
    IsBestFit qmax (before ++ l) (before ++ l) (findBestFit qmax best before l) := by
  induction l generalizing best before with
  | nil => simpa [findBestFit] using h
  | cons node rest ih =>
    unfold findBestFit
    have hstep : before ++ node :: rest = (before ++ [node]) ++ rest := by simp
    rw [hstep]
    apply ih
    rw [← hstep]
    cases best with
    | none =>
      have hseen : ∀ e ∈ before, e.totalQ < qmax := h
      by_cases hfit : qmax ≤ node.totalQ
      · simp only [ge_iff_le, hfit, Option.mem_def, reduceCtorEq, false_imp_iff, implies_true,
          and_self, if_true]
        refine ⟨rfl, hfit, fun e he hfits => ?_⟩
        rcases List.mem_append.mp he with he | he
        · exact absurd (hseen e he) (not_lt.mpr hfits)
        · rw [List.mem_singleton.mp he]
      · simp only [ge_iff_le, hfit, false_and, if_false]
        intro e he
        rcases List.mem_append.mp he with he | he
        · exact hseen e he
        · rw [List.mem_singleton.mp he]
          exact not_le.mp hfit
    | some z =>
      obtain ⟨hlist, hz, hseen⟩ := h
      by_cases hbetter : qmax ≤ node.totalQ ∧ node.totalQ ≤ z.node.totalQ
      · rw [if_pos (by simpa using hbetter)]
        refine ⟨rfl, hbetter.1, fun e he hfits => ?_⟩
        rcases List.mem_append.mp he with he | he
        · exact hbetter.2.trans (hseen e he hfits)
        · rw [List.mem_singleton.mp he]
      · rw [if_neg (by simpa using hbetter)]
        refine ⟨hlist, hz, fun e he hfits => ?_⟩
        rcases List.mem_append.mp he with he | he
        · exact hseen e he hfits
        · rw [List.mem_singleton.mp he] at hfits ⊢
          by_contra hlt
          exact hbetter ⟨hfits, by omega⟩

end OnicDriver.Resource
