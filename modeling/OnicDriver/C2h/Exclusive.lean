import OnicDriver.C2h.Setup
import OnicDriver.C2h.Completion

/-!
# Exclusive receive buffers

The buffers of the hardware and those that the network stack still holds. While
every refill gives back buffers of pages that nothing is cut from any more, no
two of them share memory. A refill that reaches into the page at `alloc_idx`
takes back the buffers cut last instead, and hands them out a second time.
-/

namespace OnicDriver.C2h

open Lib

/-! ## Buffers, pages and references -/

/-- The references of held buffers to a page. -/
def heldOn (held : List SwSg) (pg : ℕ) : ℕ := held.countP fun s => s.pg = pg

@[simp] theorem heldOn_nil (pg : ℕ) : heldOn [] pg = 0 := rfl

theorem heldOn_append_singleton (held : List SwSg) (s : SwSg) (pg : ℕ) :
    heldOn (held ++ [s]) pg = heldOn held pg + if s.pg = pg then 1 else 0 := by
  unfold heldOn
  rw [List.countP_append, List.countP_singleton]
  simp

theorem heldOn_erase {held : List SwSg} {s : SwSg} (hs : s ∈ held) (pg : ℕ) :
    heldOn held pg = heldOn (held.erase s) pg + if s.pg = pg then 1 else 0 := by
  unfold heldOn
  rw [(List.perm_cons_erase hs).countP_eq, List.countP_cons]
  simp

/-- The pages of the window and the buffers in use, from `f` up to `a`: each buffer in use
is in its descriptor; a held buffer is not a buffer in use of a page in a slot; and a page
has a reference for its slot, for each buffer in use and for each held buffer. -/
structure Exclusive (conf : FlqConf) (env : PageEnv) (held : List SwSg) (f a r : ℕ)
    (v : BufView) : Prop where
  used : r * conf.bufsPerPg ≤ f
  window : a ≤ (r + conf.numPages) * conf.bufsPerPg
  dma : ∀ slot < conf.numPages, env.dmaMapPage (v.pgBase slot) = some (v.pgDma slot)
  inj : ∀ slot < conf.numPages, ∀ slot' < conf.numPages,
    v.pgBase slot = v.pgBase slot' → slot = slot'
  owned : ∀ b, f ≤ b → b < a →
    (v.sdesc (b % conf.size)).pg = v.pgBase (b / conf.bufsPerPg % conf.numPages) ∧
    (v.sdesc (b % conf.size)).offset = conf.bufSize * (b % conf.bufsPerPg) ∧
    (v.sdesc (b % conf.size)).dmaAddr =
      v.pgDma (b / conf.bufsPerPg % conf.numPages) + conf.bufSize * (b % conf.bufsPerPg) ∧
    v.dstAddr (b % conf.size) =
      v.pgDma (b / conf.bufsPerPg % conf.numPages) + conf.bufSize * (b % conf.bufsPerPg)
  behind : ∀ s ∈ held, ∃ i mapping, i < conf.bufsPerPg ∧ env.dmaMapPage s.pg = some mapping ∧
    s.dmaAddr = mapping + conf.bufSize * i ∧
    ∀ q, r ≤ q → q < r + conf.numPages → v.pgBase (q % conf.numPages) = s.pg →
      q * conf.bufsPerPg + i < f
  refs : ∀ q, r ≤ q → q < r + conf.numPages →
    1 + inPage conf.bufsPerPg f a q + heldOn held (v.pgBase (q % conf.numPages)) ≤
      v.refs (v.pgBase (q % conf.numPages))
  heldRefs : ∀ pg, heldOn held pg ≤ v.refs pg

section Exclusive

variable {conf : FlqConf} {env : PageEnv} {held : List SwSg} {f a r : ℕ} {v : BufView}

theorem Exclusive.slot_lt (q : ℕ) : q % conf.numPages < conf.numPages :=
  Nat.mod_lt q conf.numPages_pos

/-- The page of a buffer in use lies in the window. -/
theorem Exclusive.page_mem (h : Exclusive conf env held f a r v) {b : ℕ} (hf : f ≤ b) (ha : b < a) :
    r ≤ b / conf.bufsPerPg ∧ b / conf.bufsPerPg < r + conf.numPages := by
  have hused := h.used
  have hwindow := h.window
  exact ⟨(Nat.le_div_iff_mul_le FlqConf.bufsPerPg_pos).mpr (by omega),
    (Nat.div_lt_iff_lt_mul FlqConf.bufsPerPg_pos).mpr (by omega)⟩

/-- Two pages of the window in slots with the same page are one. -/
theorem Exclusive.page_inj (h : Exclusive conf env held f a r v) {p q : ℕ} (hp : r ≤ p)
    (hpn : p < r + conf.numPages) (hq : r ≤ q) (hqn : q < r + conf.numPages)
    (heq : v.pgBase (p % conf.numPages) = v.pgBase (q % conf.numPages)) : p = q :=
  eq_of_mod_eq hp hpn hq hqn (h.inj _ (Exclusive.slot_lt p) _ (Exclusive.slot_lt q) heq)

/-- Pages without buffers. -/
theorem Exclusive.start (hv : Paged env conf.numPages v) : Exclusive conf env [] 0 0 0 v := by
  refine ⟨by omega, by omega, hv.dma, hv.inj, by omega, by simp, fun q _ hq => ?_, by simp⟩
  have hrefs := hv.refs (q % conf.numPages) (Exclusive.slot_lt q)
  have hnone : inPage conf.bufsPerPg 0 0 q = 0 := by
    unfold inPage
    omega
  rw [hnone, heldOn_nil]
  omega

/-- The length in a descriptor does not matter. -/
theorem Exclusive.setLen (h : Exclusive conf env held f a r v) (idx len : ℕ) :
    Exclusive conf env held f a r
      { v with sdesc := Function.update v.sdesc idx { v.sdesc idx with len := len } } := by
  refine ⟨h.used, h.window, h.dma, h.inj, fun b hb hba => ?_, h.behind, h.refs, h.heldRefs⟩
  have howned := h.owned b hb hba
  by_cases heq : b % conf.size = idx
  · subst heq
    simpa using howned
  · simpa [Function.update_of_ne heq] using howned

/-- One buffer fewer in use. -/
theorem inPage_succ {nb f a : ℕ} (hnb : 0 < nb) (hfa : f < a) (q : ℕ) :
    inPage nb f a q = inPage nb (f + 1) a q + if f / nb = q then 1 else 0 := by
  have hmod := Nat.div_add_mod' f nb
  have hlt := Nat.mod_lt f hnb
  unfold inPage
  split
  · rename_i heq
    subst heq
    rw [Nat.add_mul, one_mul]
    omega
  · rename_i hne
    rcases lt_or_gt_of_ne hne with hq | hq
    · have := succ_mul_le nb hq
      have : (f / nb + 1) * nb = f / nb * nb + nb := by rw [Nat.add_mul, one_mul]
      omega
    · have := succ_mul_le nb hq
      omega

/-- Handing the oldest buffer to the stack. -/
theorem Exclusive.take (h : Exclusive conf env held f a r v) (hfa : f < a) :
    Exclusive conf env (held ++ [v.sdesc (f % conf.size)]) (f + 1) a r v := by
  obtain ⟨hpg, -, hdma, -⟩ := h.owned f le_rfl hfa
  obtain ⟨hr, hrn⟩ := h.page_mem le_rfl hfa
  have hused := h.used
  have hdivmod := Nat.div_add_mod' f conf.bufsPerPg
  refine ⟨by omega, h.window, h.dma, h.inj, fun b hb => h.owned b (by omega), ?_, ?_, ?_⟩
  · intro s hs
    rcases List.mem_append.mp hs with hold | hnew
    · obtain ⟨i, mapping, hi, hmap, hsdma, hq⟩ := h.behind s hold
      exact ⟨i, mapping, hi, hmap, hsdma, fun q hq0 hqn heq => (hq q hq0 hqn heq).trans (by omega)⟩
    · rw [List.mem_singleton] at hnew
      subst hnew
      refine ⟨f % conf.bufsPerPg, _, Nat.mod_lt f FlqConf.bufsPerPg_pos, ?_, hdma, ?_⟩
      · rw [hpg]
        exact h.dma _ (Exclusive.slot_lt _)
      · intro q hq hqn heq
        rw [hpg] at heq
        rw [h.page_inj hq hqn hr hrn heq]
        omega
  · intro q hq hqn
    have hrefs := h.refs q hq hqn
    rw [inPage_succ FlqConf.bufsPerPg_pos hfa] at hrefs
    rw [heldOn_append_singleton, hpg]
    by_cases heq : f / conf.bufsPerPg = q
    · rw [if_pos heq] at hrefs
      rw [heq, if_pos rfl]
      omega
    · have hne : v.pgBase (f / conf.bufsPerPg % conf.numPages) ≠ v.pgBase (q % conf.numPages) :=
        fun hbase => heq (h.page_inj hr hrn hq hqn hbase)
      rw [if_neg heq] at hrefs
      rw [if_neg hne]
      omega
  · intro pg
    rw [heldOn_append_singleton, hpg]
    by_cases heq : v.pgBase (f / conf.bufsPerPg % conf.numPages) = pg
    · have hrefs := h.refs _ hr hrn
      rw [inPage_succ FlqConf.bufsPerPg_pos hfa, if_pos rfl, heq] at hrefs
      rw [if_pos heq]
      omega
    · rw [if_neg heq]
      exact h.heldRefs pg

/-- The stack drops the reference of a held buffer. -/
theorem Exclusive.drop (h : Exclusive conf env held f a r v) {s : SwSg} (hs : s ∈ held) :
    Exclusive conf env (held.erase s) f a r
      { v with refs := Function.update v.refs s.pg (v.refs s.pg - 1) } := by
  have hcount := heldOn_erase hs
  refine ⟨h.used, h.window, h.dma, h.inj, h.owned,
    fun t ht => h.behind t (List.mem_of_mem_erase ht), fun q hq hqn => ?_, fun pg => ?_⟩
  · have hrefs := h.refs q hq hqn
    have hpage := hcount (v.pgBase (q % conf.numPages))
    by_cases heq : s.pg = v.pgBase (q % conf.numPages)
    · rw [← heq, if_pos rfl] at hpage
      rw [← heq] at hrefs
      simp only [← heq, Function.update_self]
      omega
    · rw [if_neg heq] at hpage
      simp only [Function.update_of_ne (Ne.symm heq)]
      omega
  · have hrefs := h.heldRefs pg
    have hpage := hcount pg
    by_cases heq : s.pg = pg
    · rw [if_pos heq] at hpage
      subst heq
      simp only [Function.update_self]
      omega
    · rw [if_neg heq] at hpage
      simp only [Function.update_of_ne (Ne.symm heq)]
      omega

/-- Every slot holds a page of the window. -/
theorem exists_mod_eq {n slot : ℕ} (hslot : slot < n) (r : ℕ) :
    ∃ q, r ≤ q ∧ q < r + n ∧ q % n = slot := by
  have hrmod := Nat.mod_lt r (by omega : 0 < n)
  have hsplit := Nat.div_add_mod r n
  by_cases hle : r % n ≤ slot
  · refine ⟨n * (r / n) + slot, by omega, by omega, ?_⟩
    rw [Nat.mul_add_mod, Nat.mod_eq_of_lt hslot]
  · refine ⟨n * (r / n + 1) + slot, ?_, ?_, ?_⟩
    · rw [Nat.mul_add, mul_one]
      omega
    · rw [Nat.mul_add, mul_one]
      omega
    · rw [Nat.mul_add_mod, Nat.mod_eq_of_lt hslot]

/-- The pages of the slots are referenced. -/
theorem Exclusive.refs_pos (h : Exclusive conf env held f a r v) {slot : ℕ}
    (hslot : slot < conf.numPages) : 0 < v.refs (v.pgBase slot) := by
  obtain ⟨q, hq, hqn, rfl⟩ := exists_mod_eq hslot r
  have := h.refs q hq hqn
  omega

/-- A page that the allocator hands out after page `r` was dropped is in no other slot, and
no buffer of it is held. -/
theorem Exclusive.fresh (h : Exclusive conf env held f a r v) {pg : ℕ}
    (hfree : Function.update v.refs (v.pgBase (r % conf.numPages))
      (v.refs (v.pgBase (r % conf.numPages)) - 1) pg = 0) :
    (∀ slot < conf.numPages, slot ≠ r % conf.numPages → v.pgBase slot ≠ pg) ∧
      heldOn held pg = 0 := by
  constructor
  · rintro slot hslot hne rfl
    have hbase : v.pgBase slot ≠ v.pgBase (r % conf.numPages) :=
      fun heq => hne (h.inj slot hslot _ (Exclusive.slot_lt r) heq)
    rw [Function.update_of_ne hbase] at hfree
    exact (h.refs_pos hslot).ne' hfree
  · by_cases heq : pg = v.pgBase (r % conf.numPages)
    · subst heq
      rw [Function.update_self] at hfree
      have hP := conf.numPages_pos
      have := h.refs r le_rfl (by omega)
      omega
    · rw [Function.update_of_ne heq] at hfree
      have := h.heldRefs pg
      omega

/-- Replacing a page none of whose buffers is in use any more. -/
theorem Exclusive.replace : ReplaceKeeps conf env f (Exclusive conf env held f a) := by
  intro r v pg mapping h hend hpg hfree hmap
  have hP := conf.numPages_pos
  have hwindow := h.window
  obtain ⟨hother, hnone⟩ := h.fresh hfree
  have hmono : (r + conf.numPages) * conf.bufsPerPg ≤ (r + 1 + conf.numPages) * conf.bufsPerPg :=
    Nat.mul_le_mul_right _ (by omega)
  have hlast : (r + conf.numPages) % conf.numPages = r % conf.numPages := Nat.add_mod_right ..
  have hslot : ∀ q, r < q → q < r + conf.numPages → q % conf.numPages ≠ r % conf.numPages :=
    fun q hq hqn hmod => hq.ne' (eq_of_mod_eq hq.le hqn le_rfl (by omega) hmod)
  refine ⟨hend, hwindow.trans hmono, fun slot hs => ?_, fun slot hs slot' hs' heq => ?_,
    fun b hb hba => ?_, fun s hs => ?_, fun q hq hqn => ?_, fun p => ?_⟩
  · by_cases hne : slot = r % conf.numPages
    · subst hne
      simpa [BufView.replace] using hmap
    · simpa [BufView.replace, Function.update_of_ne hne] using h.dma slot hs
  · by_cases hne : slot = r % conf.numPages <;> by_cases hne' : slot' = r % conf.numPages
    · rw [hne, hne']
    · simp only [BufView.replace, hne, Function.update_self, Function.update_of_ne hne'] at heq
      exact absurd heq.symm (hother slot' hs' hne')
    · simp only [BufView.replace, hne', Function.update_self, Function.update_of_ne hne] at heq
      exact absurd heq (hother slot hs hne)
    · simp only [BufView.replace, Function.update_of_ne hne, Function.update_of_ne hne'] at heq
      exact h.inj slot hs slot' hs' heq
  · -- a buffer in use lies in a later page
    have hpage : r < b / conf.bufsPerPg :=
      (Nat.le_div_iff_mul_le FlqConf.bufsPerPg_pos).mpr (hend.trans hb)
    have hne := hslot _ hpage (h.page_mem hb hba).2
    simpa [BufView.replace, Function.update_of_ne hne] using h.owned b hb hba
  · obtain ⟨i, m, hi, hm, hdma, hbehind⟩ := h.behind s hs
    refine ⟨i, m, hi, hm, hdma, fun q hq hqn heq => ?_⟩
    by_cases hq' : q = r + conf.numPages
    · rw [hq', hlast] at heq
      simp only [BufView.replace, Function.update_self] at heq
      have hpos : 0 < heldOn held pg := List.countP_pos_iff.mpr ⟨s, hs, by simp [heq]⟩
      omega
    · have hne := hslot q (by omega) (by omega)
      simp only [BufView.replace, Function.update_of_ne hne] at heq
      exact hbehind q (by omega) (by omega) heq
  · by_cases hq' : q = r + conf.numPages
    · have hempty : inPage conf.bufsPerPg f a (r + conf.numPages) = 0 := by
        unfold inPage
        omega
      rw [hq', hempty, hlast]
      simp [BufView.replace, hnone]
    · have hne := hslot q (by omega) (by omega)
      have hpg' := hother _ (Exclusive.slot_lt q) hne
      have hbase : v.pgBase (q % conf.numPages) ≠ v.pgBase (r % conf.numPages) :=
        fun heq => hne (h.inj _ (Exclusive.slot_lt q) _ (Exclusive.slot_lt r) heq)
      simp only [BufView.replace, Function.update_of_ne hne, Function.update_of_ne hpg',
        Function.update_of_ne hbase]
      exact h.refs q (by omega) (by omega)
  · simp only [BufView.replace]
    by_cases hp : p = pg
    · subst hp
      omega
    · rw [Function.update_of_ne hp]
      by_cases hbase : p = v.pgBase (r % conf.numPages)
      · subst hbase
        have := h.refs r le_rfl (by omega)
        rw [Function.update_self]
        omega
      · rw [Function.update_of_ne hbase]
        exact h.heldRefs p

/-- Cutting a buffer for a descriptor that holds no buffer in use. -/
theorem Exclusive.fill {c2hBufsz : ℕ} (hr : r = f / conf.bufsPerPg) :
    FillKeeps conf f 0 c2hBufsz fun a => Exclusive conf env held f a r := by
  intro a v h hfrontier hroom
  have hnb : 0 < conf.bufsPerPg := FlqConf.bufsPerPg_pos
  have hwindow := conf.room f
  have hfa : f ≤ a := hfrontier.trans (Nat.div_mul_le_self a _)
  have hdivmod := Nat.div_add_mod' a conf.bufsPerPg
  have hmod := Nat.mod_lt a hnb
  have hpage : r ≤ a / conf.bufsPerPg ∧ a / conf.bufsPerPg < r + conf.numPages := by
    rw [hr]
    exact ⟨Nat.div_le_div_right hfa, FlqConf.div_lt_add_numPages hroom⟩
  have hcount : ∀ q, inPage conf.bufsPerPg f (a + 1) q =
      inPage conf.bufsPerPg f a q + if a / conf.bufsPerPg = q then 1 else 0 := by
    intro q
    unfold inPage
    split
    · rename_i heq
      subst heq
      rw [Nat.add_mul, one_mul]
      omega
    · rename_i hne
      have hsucc : (a / conf.bufsPerPg + 1) * conf.bufsPerPg =
          a / conf.bufsPerPg * conf.bufsPerPg + conf.bufsPerPg := by rw [Nat.add_mul, one_mul]
      rcases lt_or_gt_of_ne hne with hq | hq
      · have := succ_mul_le conf.bufsPerPg hq
        omega
      · have := succ_mul_le conf.bufsPerPg hq
        omega
  rw [Nat.add_zero]
  refine ⟨h.used, ?_, h.dma, h.inj, fun b hb hba => ?_, h.behind, fun q hq hqn => ?_, fun p => ?_⟩
  · rw [hr]
    omega
  · by_cases heq : b = a
    · subst heq
      simp [BufView.fill, BufView.buffer]
    · have hne : b % conf.size ≠ a % conf.size :=
        fun hmod' => heq (eq_of_mod_eq (r := f) hb (by omega) hfa hroom hmod')
      simpa [BufView.fill, Function.update_of_ne hne] using h.owned b hb (by omega)
  · have hrefs := h.refs q hq hqn
    rw [hcount]
    by_cases heq : a / conf.bufsPerPg = q
    · subst heq
      simp only [BufView.fill, Function.update_self, if_true]
      omega
    · have hbase : v.pgBase (q % conf.numPages) ≠
          v.pgBase (a / conf.bufsPerPg % conf.numPages) :=
        fun hbase => heq (h.page_inj hq hqn hpage.1 hpage.2 hbase).symm
      simp only [BufView.fill, Function.update_of_ne hbase, if_neg heq]
      omega
  · have hrefs := h.heldRefs p
    simp only [BufView.fill]
    by_cases heq : p = v.pgBase (a / conf.bufsPerPg % conf.numPages)
    · subst heq
      rw [Function.update_self]
      omega
    · rwa [Function.update_of_ne heq]

/-- Handing out the oldest `n` buffers. -/
theorem Exclusive.takeMany (h : Exclusive conf env held f a r v) {n : ℕ} (hn : f + n ≤ a) :
    Exclusive conf env (held ++ (List.range n).map fun i => v.sdesc ((f + i) % conf.size))
      (f + n) a r v := by
  induction n with
  | zero => simpa using h
  | succ n ih =>
    rw [List.range_succ, List.map_append, ← List.append_assoc]
    exact (ih (by omega)).take (by omega)

end Exclusive

/-! ## Disjoint memory -/

/-- The ranges of `len` bytes at the two addresses share no byte. -/
def RangesDisjoint (len x y : ℕ) : Prop := x + len ≤ y ∨ y + len ≤ x

instance (len x y : ℕ) : Decidable (RangesDisjoint len x y) :=
  inferInstanceAs (Decidable (_ ∨ _))

/-- Different pages have different bus addresses. -/
def PageEnv.MapsDisjoint (env : PageEnv) (pgSize : ℕ) : Prop :=
  ∀ pg pg' mapping mapping', pg ≠ pg' → env.dmaMapPage pg = some mapping →
    env.dmaMapPage pg' = some mapping' → RangesDisjoint pgSize mapping mapping'

section Disjoint

variable {conf : FlqConf} {env : PageEnv}

/-- Different buffers of mapped pages share no byte. -/
theorem buffers_disjoint (hmaps : env.MapsDisjoint (2 ^ conf.pgBits)) {pg pg' m m' i i' : ℕ}
    (hm : env.dmaMapPage pg = some m) (hm' : env.dmaMapPage pg' = some m')
    (hi : i < conf.bufsPerPg) (hi' : i' < conf.bufsPerPg) (hne : pg = pg' → i ≠ i') :
    RangesDisjoint conf.bufSize (m + conf.bufSize * i) (m' + conf.bufSize * i') := by
  have hfit : ∀ j < conf.bufsPerPg, conf.bufSize * j + conf.bufSize ≤ 2 ^ conf.pgBits := by
    intro j hj
    rw [← FlqConf.bufSize_mul_bufsPerPg, ← Nat.mul_succ]
    exact Nat.mul_le_mul_left _ hj
  by_cases hpg : pg = pg'
  · subst hpg
    obtain rfl : m = m' := Option.some.inj (hm.symm.trans hm')
    rcases lt_or_gt_of_ne (hne rfl) with hlt | hlt
    · have := Nat.mul_le_mul_left conf.bufSize hlt
      rw [Nat.mul_succ] at this
      exact Or.inl (by omega)
    · have := Nat.mul_le_mul_left conf.bufSize hlt
      rw [Nat.mul_succ] at this
      exact Or.inr (by omega)
  · have := hfit i hi
    have := hfit i' hi'
    rcases hmaps pg pg' m m' hpg hm hm' with hle | hle
    · exact Or.inl (by omega)
    · exact Or.inr (by omega)

variable {held : List SwSg} {f a r : ℕ} {v : BufView}

/-- The memory of two buffers in use. -/
theorem Exclusive.owned_disjoint (h : Exclusive conf env held f a r v)
    (hmaps : env.MapsDisjoint (2 ^ conf.pgBits)) {b b' : ℕ} (hb : f ≤ b) (hba : b < a)
    (hb' : f ≤ b') (hba' : b' < a) (hne : b ≠ b') :
    RangesDisjoint conf.bufSize (v.dstAddr (b % conf.size)) (v.dstAddr (b' % conf.size)) := by
  have hnb : 0 < conf.bufsPerPg := FlqConf.bufsPerPg_pos
  rw [(h.owned b hb hba).2.2.2, (h.owned b' hb' hba').2.2.2]
  refine buffers_disjoint hmaps (h.dma _ (Exclusive.slot_lt _)) (h.dma _ (Exclusive.slot_lt _))
    (Nat.mod_lt b hnb) (Nat.mod_lt b' hnb) fun hpg hmod => hne ?_
  have hp := h.page_mem hb hba
  have hp' := h.page_mem hb' hba'
  have hdiv := h.page_inj hp.1 hp.2 hp'.1 hp'.2 hpg
  rw [← Nat.div_add_mod' b conf.bufsPerPg, ← Nat.div_add_mod' b' conf.bufsPerPg, hdiv, hmod]

/-- The memory of a buffer in use and of a held buffer. -/
theorem Exclusive.held_disjoint (h : Exclusive conf env held f a r v)
    (hmaps : env.MapsDisjoint (2 ^ conf.pgBits)) {b : ℕ} (hb : f ≤ b) (hba : b < a) {s : SwSg}
    (hs : s ∈ held) :
    RangesDisjoint conf.bufSize (v.dstAddr (b % conf.size)) s.dmaAddr := by
  have hnb : 0 < conf.bufsPerPg := FlqConf.bufsPerPg_pos
  obtain ⟨i, mapping, hi, hmap, hdma, hbehind⟩ := h.behind s hs
  rw [(h.owned b hb hba).2.2.2, hdma]
  refine buffers_disjoint hmaps (h.dma _ (Exclusive.slot_lt _)) hmap (Nat.mod_lt b hnb) hi
    fun hpg hmod => ?_
  have hp := h.page_mem hb hba
  have hlt := hbehind _ hp.1 hp.2 hpg
  rw [← hmod, Nat.div_add_mod'] at hlt
  omega

end Disjoint

end OnicDriver.C2h
