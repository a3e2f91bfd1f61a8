import Mathlib.Data.List.Chain
import Mathlib.Data.List.Nodup
import Mathlib.Logic.Function.Basic
import Mathlib.Logic.Relation

/-!
# Circular lists

The list heads of C programs are nodes with a pointer to the next and one to
the previous node of a circle. The head of the list is a node of the circle as
well. A node that is taken out has poisoned pointers, which must not be
followed.
-/

namespace OnicDriver.Lib

/-- The pointers of every node; `none` is a poisoned one. -/
structure ListHeads (α : Type*) where
  next : α → Option α
  prev : α → Option α

namespace ListHeads

variable {α : Type*}

/-- Every node is the only one of its circle. -/
def init : ListHeads α where
  next := some
  prev := some

/-- One node follows another. -/
def Link (h : ListHeads α) (a b : α) : Prop := h.next a = some b ∧ h.prev b = some a

/-- The nodes of a list in their order: head and nodes form a circle, and are all different. -/
structure Linked (h : ListHeads α) (head : α) (ns : List α) : Prop where
  nodup : (head :: ns).Nodup
  chain : List.IsChain h.Link (head :: ns ++ [head])

/-- A node is met on the way from the head. -/
def OnList (h : ListHeads α) (head n : α) : Prop :=
  Relation.ReflTransGen (fun a b => h.next a = some b) head n ∧ n ≠ head

variable {h h' : ListHeads α} {head n a b : α} {ns as bs : List α}

theorem init_linked (head : α) : (init : ListHeads α).Linked head [] :=
  ⟨List.nodup_singleton head, List.isChain_pair.mpr ⟨rfl, rfl⟩⟩

/-- The nodes of a list are those that are met. -/
theorem Linked.onList_iff (hl : h.Linked head ns) : h.OnList head n ↔ n ∈ ns := by
  have hclosed : ∀ a ∈ head :: ns, ∀ b, h.next a = some b → b ∈ head :: ns := by
    intro a ha b hb
    obtain ⟨as, bs, heq⟩ := List.append_of_mem ha
    have hchain := hl.chain
    rw [heq, List.append_assoc, List.cons_append] at hchain
    cases bs with
    | nil =>
      have hlink := (List.isChain_append_cons_cons.mp hchain).2.1
      rw [hlink.1] at hb
      rw [← Option.some.inj hb]
      exact List.mem_cons_self
    | cons c cs =>
      have hlink := (List.isChain_append_cons_cons.mp hchain).2.1
      rw [hlink.1] at hb
      rw [heq, ← Option.some.inj hb]
      simp
  constructor
  · rintro ⟨hmet, hne⟩
    have hmem : n ∈ head :: ns := by
      clear hne
      induction hmet with
      | refl => exact List.mem_cons_self
      | tail _ hstep ih => exact hclosed _ ih _ hstep
    exact (List.mem_cons.mp hmem).resolve_left hne
  · intro hmem
    refine ⟨?_, fun heq => (List.nodup_cons.mp hl.nodup).1 (heq ▸ hmem)⟩
    have hnext : List.IsChain (fun a b => h.next a = some b) (head :: (ns ++ [head])) :=
      hl.chain.imp fun a b hlink => hlink.1
    apply hnext.cons_induction
      (fun b => Relation.ReflTransGen (fun a b => h.next a = some b) head b)
    · exact fun a b hstep hmet => hmet.tail hstep
    · exact .refl
    · exact List.mem_append_left _ hmem

/-- The last node of a list, or its head. -/
theorem exists_last (head : α) (ns : List α) : ∃ as last, head :: ns = as ++ [last] :=
  (List.eq_nil_or_concat' (head :: ns)).resolve_left nofun

section

variable [DecidableEq α]

/-- `list_empty`. -/
def listEmpty (head : α) (h : ListHeads α) : Bool := decide (h.next head = some head)

/-- `list_add_tail`, which fails to follow a poisoned pointer of the head. -/
def listAddTail (new head : α) (h : ListHeads α) : Option (ListHeads α) := do
  let last ← h.prev head
  pure {
    next := Function.update (Function.update h.next new (some head)) last (some new)
    prev := Function.update (Function.update h.prev head (some new)) new (some last) }

/-- `list_del`, which fails to follow a poisoned pointer of the entry. -/
def listDel (entry : α) (h : ListHeads α) : Option (ListHeads α) := do
  let prev ← h.prev entry
  let next ← h.next entry
  pure {
    next := Function.update (Function.update h.next prev (some next)) entry none
    prev := Function.update (Function.update h.prev next (some prev)) entry none }

/-- The list is empty exactly if it has no nodes. -/
theorem Linked.listEmpty (hl : h.Linked head ns) : h.listEmpty head = true ↔ ns = [] := by
  unfold ListHeads.listEmpty
  rw [decide_eq_true_iff]
  cases ns with
  | nil => exact iff_of_true (List.isChain_pair.mp hl.chain).1 rfl
  | cons n ns =>
    refine iff_of_false ?_ nofun
    have hnext := ((List.isChain_cons_cons.mp hl.chain).1).1
    intro hself
    rw [hnext] at hself
    apply (List.nodup_cons.mp hl.nodup).1
    rw [← Option.some.inj hself]
    exact List.mem_cons_self

/-- A new node is put before the head. -/
theorem Linked.listAddTail (hl : h.Linked head ns) (hn : n ∉ head :: ns) :
    ∃ h', h.listAddTail n head = some h' ∧ h'.Linked head (ns ++ [n]) := by
  obtain ⟨as, last, heq⟩ := exists_last head ns
  have hchain := hl.chain
  rw [heq, List.append_assoc] at hchain
  obtain ⟨hinner, hlast, -⟩ := List.isChain_append_cons_cons.mp hchain
  have hhead : n ≠ head := fun heq => hn (heq ▸ List.mem_cons_self)
  have hmem : last ∈ head :: ns := by rw [heq]; simp
  have hnlast : n ≠ last := fun heq => hn (heq ▸ hmem)
  unfold ListHeads.listAddTail
  rw [hlast.2]
  refine ⟨_, rfl, ?_, ?_⟩
  · rw [← List.cons_append]
    refine List.nodup_append.mpr ⟨hl.nodup, List.nodup_singleton n, ?_⟩
    rintro a ha b hb rfl
    rw [List.mem_singleton.mp hb] at ha
    exact hn ha
  · rw [← List.cons_append, heq, List.append_assoc, List.append_assoc]
    apply List.isChain_append_cons_cons.mpr
    refine ⟨?_, ?_, ?_⟩
    · rw [← heq] at hinner ⊢
      refine hinner.imp_of_mem_tail_imp fun a b ha hb hlink => ?_
      have hbns : b ∈ ns := hb
      have hbn : b ≠ n := fun heq => hn (heq ▸ List.mem_cons_of_mem _ hbns)
      have hbhead : b ≠ head := fun heq => (List.nodup_cons.mp hl.nodup).1 (heq ▸ hbns)
      have han : a ≠ n := fun heq => hn (heq ▸ ha)
      -- only the head follows the last node
      have halast : a ≠ last := by
        rintro rfl
        exact hbhead (Option.some.inj (hlink.1.symm.trans hlast.1))
      constructor
      · exact (Function.update_of_ne halast ..).trans ((Function.update_of_ne han ..).trans hlink.1)
      · exact (Function.update_of_ne hbn ..).trans ((Function.update_of_ne hbhead ..).trans hlink.2)
    · exact ⟨Function.update_self .., Function.update_self ..⟩
    · apply List.isChain_pair.mpr
      constructor
      · exact (Function.update_of_ne hnlast ..).trans (Function.update_self ..)
      · exact (Function.update_of_ne hhead.symm ..).trans (Function.update_self ..)

/-- A link of other nodes stays when a node is taken out. -/
theorem Link.listDel {p q : α} (hp : h.Link p n) (hq : h.Link n q) (hlink : h.Link a b) (ha : a ≠ n)
    (hb : b ≠ n) :
    ListHeads.Link {
      next := Function.update (Function.update h.next p (some q)) n none
      prev := Function.update (Function.update h.prev q (some p)) n none } a b := by
  have hap : a ≠ p := by
    rintro rfl
    exact hb (Option.some.inj (hlink.1.symm.trans hp.1))
  have hbq : b ≠ q := by
    rintro rfl
    exact ha (Option.some.inj (hlink.2.symm.trans hq.2))
  constructor
  · exact (Function.update_of_ne ha ..).trans ((Function.update_of_ne hap ..).trans hlink.1)
  · exact (Function.update_of_ne hb ..).trans ((Function.update_of_ne hbq ..).trans hlink.2)

/-- A node is taken out. -/
theorem Linked.listDel (hl : h.Linked head (as ++ n :: bs)) :
    ∃ h', h.listDel n = some h' ∧ h'.Linked head (as ++ bs) := by
  have hdup := hl.nodup
  rw [← List.cons_append] at hdup
  obtain ⟨hn, hrest⟩ := List.nodup_cons.mp (List.nodup_middle.mp hdup)
  have hnas : n ∉ head :: as := fun hmem => hn (List.mem_append_left _ hmem)
  have hnbs : n ∉ bs ++ [head] := by
    intro hmem
    rcases List.mem_append.mp hmem with hbs | hhead
    · exact hn (List.mem_append_right _ hbs)
    · exact hnas (List.mem_singleton.mp hhead ▸ List.mem_cons_self)
  obtain ⟨cs, p, hcs⟩ := exists_last head as
  obtain ⟨q, ds, hds⟩ : ∃ q ds, bs ++ [head] = q :: ds := List.exists_cons_of_ne_nil (by simp)
  have hchain := hl.chain
  rw [← List.cons_append, hcs, List.append_assoc, List.append_assoc, List.singleton_append,
    List.cons_append, hds] at hchain
  obtain ⟨hbefore, hp, hafter⟩ := List.isChain_append_cons_cons.mp hchain
  obtain ⟨hq, hafter⟩ := List.isChain_cons_cons.mp hafter
  have hpn : p ≠ n := by
    rintro rfl
    apply hnas
    rw [hcs]
    exact List.mem_append_right _ List.mem_cons_self
  have hqn : q ≠ n := by
    rintro rfl
    apply hnbs
    rw [hds]
    exact List.mem_cons_self
  unfold ListHeads.listDel
  rw [hp.2, hq.1]
  refine ⟨_, rfl, hrest, ?_⟩
  rw [← List.cons_append, hcs, List.append_assoc, List.append_assoc, hds, List.singleton_append]
  apply List.isChain_append_cons_cons.mpr
  refine ⟨?_, ?_, ?_⟩
  · rw [← hcs] at hbefore ⊢
    exact hbefore.imp_of_mem_imp fun a b ha hb hlink =>
      hp.listDel hq hlink (fun heq => hnas (heq ▸ ha)) fun heq => hnas (heq ▸ hb)
  · constructor
    · exact (Function.update_of_ne hpn ..).trans (Function.update_self ..)
    · exact (Function.update_of_ne hqn ..).trans (Function.update_self ..)
  · rw [← hds] at hafter ⊢
    exact hafter.imp_of_mem_imp fun a b ha hb hlink =>
      hp.listDel hq hlink (fun heq => hnbs (heq ▸ ha)) fun heq => hnbs (heq ▸ hb)

end

end ListHeads

end OnicDriver.Lib
