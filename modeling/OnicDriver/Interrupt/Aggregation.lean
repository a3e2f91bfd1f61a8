import OnicDriver.Interrupt.Ring
import OnicDriver.Lib.Runs
import OnicDriver.Queue.Ring
import Mathlib.Data.List.Forall2

/-!
# Serving the aggregation rings

Each ring is served in turn as long as only the first one wraps: what a lap
leaves behind has the other color, so the color of an entry tells whether it
is new. A wrap of another ring changes the wrong color.
-/

namespace OnicDriver.Interrupt

open Lib Setup
open C2h (lapColor lapColor_succ)

variable {x : IntrDev} {s : IntrState} {n r : ℕ}

/-- One lap later the color is the other one. -/
theorem lapColor_add {size : ℕ} (hpos : 0 < size) (k : ℕ) :
    lapColor size (k + size) = !lapColor size k := by
  unfold lapColor
  rw [Nat.add_div_right k hpos, ← decide_not, decide_eq_decide]
  omega

/-- The color of a word in the ring of a device. -/
def IntrDev.color (x : IntrDev) (word : ℕ) : Bool := (intrRing x.ipType word).coalColor

/-- A ring between the entries handed on and those written: what is outstanding is in the ring, and
what else is in the ring has the color of the lap before. -/
structure RingInv (x : IntrDev) (s : IntrState) (r : ℕ) : Prop where
  small : (s.intrCoalList r).intrRngNumEntries < 2 ^ 16
  vec : (s.intrCoalList r).vecId = x.msixEntry (x.dvecStartIdx + r)
  le : (s.dispatched r).length ≤ (s.written r).length
  room : (s.written r).length < (s.dispatched r).length + (s.intrCoalList r).intrRngNumEntries
  named : List.Forall₂ (fun word d => x.Names word d.pos)
    ((s.written r).take (s.dispatched r).length) (s.dispatched r)
  index : (s.intrCoalList r).swCidx =
    (s.dispatched r).length % (s.intrCoalList r).intrRngNumEntries
  color : (s.intrCoalList r).color =
    lapColor (s.intrCoalList r).intrRngNumEntries (s.dispatched r).length
  words : ∀ j word, (s.written r)[j]? = some word →
    x.color word = lapColor (s.intrCoalList r).intrRngNumEntries j ∧ ∃ pos, x.Names word pos
  outstanding : ∀ j word, (s.dispatched r).length ≤ j → (s.written r)[j]? = some word →
    (s.intrCoalList r).intrRingBase (j % (s.intrCoalList r).intrRngNumEntries) = word
  stale : ∀ j, (s.written r).length ≤ j →
    j < (s.dispatched r).length + (s.intrCoalList r).intrRngNumEntries →
    x.color ((s.intrCoalList r).intrRingBase (j % (s.intrCoalList r).intrRngNumEntries)) =
      !lapColor (s.intrCoalList r).intrRngNumEntries j
  call : ∀ call, s.calls (x.dvecStartIdx + r) = some call →
    call.counter = (s.intrCoalList r).swCidx

theorem RingInv.pos (h : RingInv x s r) : 0 < (s.intrCoalList r).intrRngNumEntries := by
  have hle := h.le
  have hroom := h.room
  omega

/-- The driver takes the entry that it looks at for new exactly if it was written. -/
theorem RingInv.fresh (h : RingInv x s r) :
    (intrRing x.ipType
        ((s.intrCoalList r).intrRingBase (s.intrCoalList r).swCidx)).coalColor =
          (s.intrCoalList r).color ↔
      (s.dispatched r).length < (s.written r).length := by
  show x.color _ = _ ↔ _
  rw [h.index, h.color]
  rcases Nat.lt_or_ge (s.dispatched r).length (s.written r).length with hlt | hge
  · have hword := List.getElem?_eq_getElem hlt
    rw [h.outstanding _ _ le_rfl hword, (h.words _ _ hword).1]
    exact iff_of_true rfl hlt
  · rw [h.stale _ hge (Nat.lt_add_of_pos_right h.pos)]
    exact iff_of_false (Bool.not_ne_self _) (Nat.not_lt.mpr hge)

theorem RingInv.inTurn (h : RingInv x s r) : InTurn x s r where
  le := h.le
  named := h.named
  index := h.index
  next word hword := by
    rw [h.index]
    exact h.outstanding _ _ le_rfl hword
  fresh := h.fresh

/-- A step that leaves a ring, and the calls of its vector where they are. -/
theorem RingInv.congr {s' : IntrState} (h : RingInv x s r)
    (hlist : s'.intrCoalList r = s.intrCoalList r) (hwritten : s'.written r = s.written r)
    (hdispatched : s'.dispatched r = s.dispatched r)
    (hcalls : ∀ call, s'.calls (x.dvecStartIdx + r) = some call →
      call.counter = (s.intrCoalList r).swCidx) : RingInv x s' r := by
  obtain ⟨h₁, h₂, h₃, h₄, h₅, h₆, h₇, h₈, h₉, h₁₀, -⟩ := h
  rw [← hlist, ← hwritten, ← hdispatched] at *
  exact ⟨h₁, h₂, h₃, h₄, h₅, h₆, h₇, h₈, h₉, h₁₀, hcalls⟩

/-! ## The hardware -/

/-- The hardware writes the next entry over one of the lap before. -/
theorem RingInv.write (h : RingInv x s r) {word : ℕ}
    (hcolor : x.color word =
      lapColor (s.intrCoalList r).intrRngNumEntries (s.written r).length)
    (hnames : ∃ pos, x.Names word pos)
    (hroom : (s.written r).length + 1 <
      (s.dispatched r).length + (s.intrCoalList r).intrRngNumEntries) :
    RingInv x (writeEntry s r word) r := by
  have hle := h.le
  have hother : ∀ j, (s.dispatched r).length ≤ j → j ≠ (s.written r).length →
      j < (s.dispatched r).length + (s.intrCoalList r).intrRngNumEntries →
      j % (s.intrCoalList r).intrRngNumEntries ≠
        (s.written r).length % (s.intrCoalList r).intrRngNumEntries := by
    intro j hj hne hlt heq
    exact hne (eq_of_mod_eq hj hlt hle (by omega) heq)
  constructor <;> simp only [writeEntry, Function.update_self, List.length_append,
    List.length_cons, List.length_nil, Nat.zero_add]
  · exact h.small
  · exact h.vec
  · omega
  · exact hroom
  · rw [List.take_append_of_le_length hle]
    exact h.named
  · exact h.index
  · exact h.color
  · intro j w hw
    rcases Nat.lt_trichotomy j (s.written r).length with hlt | rfl | hgt
    · rw [List.getElem?_append_left hlt] at hw
      exact h.words j w hw
    · rw [List.getElem?_append_right le_rfl, Nat.sub_self] at hw
      cases hw
      exact ⟨hcolor, hnames⟩
    · rw [List.getElem?_eq_none (by simp; omega)] at hw
      cases hw
  · intro j w hj hw
    rcases Nat.lt_trichotomy j (s.written r).length with hlt | rfl | hgt
    · rw [List.getElem?_append_left hlt] at hw
      rw [Function.update_of_ne (hother j hj (Nat.ne_of_lt hlt) (by omega))]
      exact h.outstanding j w hj hw
    · rw [List.getElem?_append_right le_rfl, Nat.sub_self] at hw
      cases hw
      rw [Function.update_self]
    · rw [List.getElem?_eq_none (by simp; omega)] at hw
      cases hw
  · intro j hj hlt
    rw [Function.update_of_ne (hother j (by omega) (by omega) hlt)]
    exact h.stale j (by omega) hlt
  · exact h.call

/-! ## The driver -/

/-- The queue that an entry names is the one the driver finds. -/
theorem names_found {word pos : ℕ} (h : x.Names word pos) :
    qdmaDeviceGetDescqByHwQid x (intrRing x.ipType word).qid (intrRing x.ipType word).intrType =
      some pos := by
  obtain ⟨qdev, hqdev, k, hk, hpos, hqid⟩ := h
  have hbits : (intrRing x.ipType word).qid < 2 ^ 24 := by
    unfold intrRing
    split
    · exact (Mask.fits_get ⟨62, 52⟩ word).trans (by decide)
    · exact Mask.fits_get ⟨62, 39⟩ word
  have hdiff : u64 ((intrRing x.ipType word).qid - qdev.qbase) = k := by
    unfold u64
    omega
  unfold qdmaDeviceGetDescqByHwQid
  rw [hqdev, Option.map_some, hdiff, hpos]

theorem RingInv.index_lt (h : RingInv x s r) :
    (s.intrCoalList r).swCidx < (s.intrCoalList r).intrRngNumEntries := by
  rw [h.index]
  exact Nat.mod_lt _ h.pos

theorem RingInv.succ_index (h : RingInv x s r) :
    ((s.intrCoalList r).swCidx + 1) % 2 ^ 16 = (s.intrCoalList r).swCidx + 1 := by
  have hlt := h.index_lt
  have hsmall := h.small
  exact Nat.mod_eq_of_lt (by omega)

/-- The index after the next entry. -/
theorem RingInv.succ_mod (h : RingInv x s r) :
    ((s.dispatched r).length + 1) % (s.intrCoalList r).intrRngNumEntries =
      if (s.intrCoalList r).swCidx + 1 = (s.intrCoalList r).intrRngNumEntries then 0
      else (s.intrCoalList r).swCidx + 1 := by
  have hlt := h.index_lt
  rw [← Nat.mod_add_mod, ← h.index]
  split
  · rename_i hwrap
    rw [hwrap, Nat.mod_self]
  · apply Nat.mod_eq_of_lt
    omega

/-- The ring of a call after an entry: its index has moved on, and where it wrapped the color of the
first ring has changed. -/
theorem aggregateEntry_self (h : RingInv x s r) (call : IntrCall) (pos : ℕ)
    (hown : r = 0 ∨ (s.intrCoalList r).swCidx + 1 ≠ (s.intrCoalList r).intrRngNumEntries) :
    (aggregateEntry x s (x.dvecStartIdx + r) call pos).intrCoalList r =
      { s.intrCoalList r with
        swCidx := ((s.dispatched r).length + 1) % (s.intrCoalList r).intrRngNumEntries
        color := lapColor (s.intrCoalList r).intrRngNumEntries ((s.dispatched r).length + 1) } := by
  have hlap := lapColor_succ h.pos (s.dispatched r).length
  rw [← h.index, ← h.color] at hlap
  rw [h.succ_mod, hlap]
  unfold aggregateEntry
  simp only [Nat.add_sub_cancel_left, h.succ_index]
  by_cases hwrap : (s.intrCoalList r).swCidx + 1 = (s.intrCoalList r).intrRngNumEntries
  · obtain rfl : r = 0 := hown.resolve_right (not_not.mpr hwrap)
    simp [hwrap]
  · simp [hwrap]

/-- The other rings after an entry. -/
theorem aggregateEntry_other (h : RingInv x s r) (call : IntrCall) (pos : ℕ)
    (hown : r = 0 ∨ (s.intrCoalList r).swCidx + 1 ≠ (s.intrCoalList r).intrRngNumEntries)
    {j : ℕ} (hj : j ≠ r) :
    (aggregateEntry x s (x.dvecStartIdx + r) call pos).intrCoalList j = s.intrCoalList j := by
  unfold aggregateEntry
  simp only [Nat.add_sub_cancel_left, h.succ_index]
  by_cases hwrap : (s.intrCoalList r).swCidx + 1 = (s.intrCoalList r).intrRngNumEntries
  · obtain rfl : r = 0 := hown.resolve_right (not_not.mpr hwrap)
    simp [hwrap, hj]
  · simp [hwrap, hj]

/-- A ring after one of its entries was handed on. -/
theorem RingInv.entry (h : RingInv x s r) {call : IntrCall} {word pos : ℕ}
    (hword : (s.written r)[(s.dispatched r).length]? = some word) (hpos : x.Names word pos)
    (hcounter : call.counter = (s.intrCoalList r).swCidx)
    (hown : r = 0 ∨ (s.intrCoalList r).swCidx + 1 ≠ (s.intrCoalList r).intrRngNumEntries) :
    RingInv x (aggregateEntry x s (x.dvecStartIdx + r) call pos) r := by
  have hself := aggregateEntry_self h call pos hown
  have hlen : (s.dispatched r).length < (s.written r).length :=
    (List.getElem?_eq_some_iff.mp hword).1
  have hroom := h.room
  have hdispatched : (aggregateEntry x s (x.dvecStartIdx + r) call pos).dispatched r =
      s.dispatched r ++ [{ pos := pos, handling := (x.descq pos).handling }] := by
    simp [aggregateEntry]
  have hcalls : (aggregateEntry x s (x.dvecStartIdx + r) call pos).calls (x.dvecStartIdx + r) =
      some { counter := ((s.dispatched r).length + 1) % (s.intrCoalList r).intrRngNumEntries
             descq := some pos, numEntriesProcessed := call.numEntriesProcessed + 1 } := by
    rw [h.succ_mod]
    simp only [aggregateEntry, Nat.add_sub_cancel_left, Function.update_self, h.succ_index,
      hcounter, decide_eq_true_eq]
  have hwritten : (aggregateEntry x s (x.dvecStartIdx + r) call pos).written r = s.written r := rfl
  generalize aggregateEntry x s (x.dvecStartIdx + r) call pos = s' at *
  constructor <;> simp only [hself, hdispatched, hwritten, List.length_append, List.length_cons,
    List.length_nil, Nat.zero_add]
  · exact h.small
  · exact h.vec
  · omega
  · omega
  · rw [List.take_add_one, hword]
    exact List.rel_append h.named (.cons hpos .nil)
  · exact h.words
  · exact fun j w hj hw => h.outstanding j w (by omega) hw
  · intro j hj hlt
    rcases Nat.lt_or_ge j ((s.dispatched r).length + (s.intrCoalList r).intrRngNumEntries) with
      hin | hout
    · exact h.stale j hj hin
    · obtain rfl : j = (s.dispatched r).length + (s.intrCoalList r).intrRngNumEntries := by omega
      rw [Nat.add_mod_right, h.outstanding _ _ le_rfl hword, lapColor_add h.pos, Bool.not_not]
      exact (h.words _ _ hword).1
  · intro c hc
    rw [hcalls] at hc
    cases hc
    rfl

/-- The loop ends without touching a ring. -/
theorem aggregateFinish_same (s : IntrState) (vidx : ℕ) (call : IntrCall) :
    (aggregateFinish x s vidx call).intrCoalList = s.intrCoalList ∧
      (aggregateFinish x s vidx call).written = s.written ∧
      (aggregateFinish x s vidx call).dispatched = s.dispatched ∧
      (aggregateFinish x s vidx call).calls = Function.update s.calls vidx none := by
  unfold aggregateFinish queueIntrCidxUpdate
  dsimp only
  split
  · exact ⟨rfl, rfl, rfl, rfl⟩
  · split
    · split <;> exact ⟨rfl, rfl, rfl, rfl⟩
    · exact ⟨rfl, rfl, rfl, rfl⟩

/-- The ends of a pass of the loop: nothing runs, the loop ends at an entry that is not written yet,
or the next entry is handed on. -/
theorem aggregatePass_cases (h : RingInv x s r) :
    (s.calls (x.dvecStartIdx + r) = none ∧ aggregatePass x s (x.dvecStartIdx + r) = s) ∨
      ∃ call, s.calls (x.dvecStartIdx + r) = some call ∧
        (((s.dispatched r).length = (s.written r).length ∧
            aggregatePass x s (x.dvecStartIdx + r) =
              aggregateFinish x s (x.dvecStartIdx + r) call) ∨
          ∃ word pos, (s.written r)[(s.dispatched r).length]? = some word ∧ x.Names word pos ∧
            aggregatePass x s (x.dvecStartIdx + r) =
              aggregateEntry x s (x.dvecStartIdx + r) call pos) := by
  cases hcall : s.calls (x.dvecStartIdx + r) with
  | none =>
    refine .inl ⟨rfl, ?_⟩
    unfold aggregatePass
    rw [hcall]
  | some call =>
    refine .inr ⟨call, rfl, ?_⟩
    have hfresh := h.fresh
    have hle := h.le
    unfold aggregatePass
    rw [hcall]
    simp only [Nat.add_sub_cancel_left]
    rw [h.call call hcall]
    rcases Nat.lt_or_ge (s.dispatched r).length (s.written r).length with hlt | hge
    · have hword := List.getElem?_eq_getElem hlt
      obtain ⟨pos, hpos⟩ := (h.words _ _ hword).2
      refine .inr ⟨_, pos, hword, hpos, ?_⟩
      have hat := h.outstanding _ _ le_rfl hword
      rw [← h.index] at hat
      rw [if_neg (not_not.mpr (hfresh.mpr hlt)), hat, names_found hpos]
    · refine .inl ⟨le_antisymm hle hge, ?_⟩
      rw [if_pos fun heq => absurd (hfresh.mp heq) (Nat.not_lt.mpr hge)]

/-! ## Steps and runs -/

/-- All rings are between what was handed on and what was written. -/
def RingsInv (x : IntrDev) (n : ℕ) (s : IntrState) : Prop := ∀ r < n, RingInv x s r

theorem RingsInv.write (h : RingsInv x n s) {word : ℕ} (hok : EventOk x n s (.write r word)) :
    RingsInv x n (writeEntry s r word) := by
  obtain ⟨hr, hcolor, hnames, hroom⟩ := hok
  intro j hj
  by_cases heq : j = r
  · subst heq
    exact (h j hj).write hcolor hnames hroom
  · apply (h j hj).congr
    · simp [writeEntry, heq]
    · simp [writeEntry, heq]
    · rfl
    · exact (h j hj).call

theorem RingsInv.enter (h : RingsInv x n s) {vidx : ℕ} (hok : EventOk x n s (.enter vidx)) :
    RingsInv x n (aggregateEnter x s vidx) := by
  obtain ⟨⟨r, hr, rfl⟩, -⟩ := hok
  intro j hj
  unfold aggregateEnter
  dsimp only
  split
  · exact h j hj
  · apply (h j hj).congr
    · rfl
    · rfl
    · rfl
    intro call hcall
    dsimp only at hcall
    by_cases heq : j = r
    · subst heq
      rw [Function.update_self] at hcall
      cases hcall
      rw [Nat.add_sub_cancel_left]
    · rw [Function.update_of_ne (by omega)] at hcall
      exact (h j hj).call call hcall

theorem RingsInv.pass (h : RingsInv x n s) {vidx : ℕ} (hok : EventOk x n s (.pass vidx))
    (hown : TogglesOwn x s (.pass vidx)) : RingsInv x n (aggregatePass x s vidx) := by
  obtain ⟨r, hr, rfl⟩ := hok
  rcases aggregatePass_cases (h r hr) with
    ⟨-, heq⟩ | ⟨call, hcall, ⟨-, heq⟩ | ⟨word, pos, hword, hpos, heq⟩⟩
  · rw [heq]
    exact h
  · obtain ⟨hlist, hwritten, hdispatched, hcalls⟩ :=
      aggregateFinish_same (x := x) s (x.dvecStartIdx + r) call
    rw [heq]
    intro j hj
    apply (h j hj).congr
    · rw [hlist]
    · rw [hwritten]
    · rw [hdispatched]
    · intro c hc
      rw [hcalls] at hc
      by_cases hjr : j = r
      · subst hjr
        rw [Function.update_self] at hc
        cases hc
      · rw [Function.update_of_ne (by omega)] at hc
        exact (h j hj).call c hc
  · have hlt := (List.getElem?_eq_some_iff.mp hword).1
    have hfirst : r = 0 ∨
        (s.intrCoalList r).swCidx + 1 ≠ (s.intrCoalList r).intrRngNumEntries := by
      simp only [TogglesOwn, Nat.add_sub_cancel_left, hcall] at hown
      rcases hown with hzero | hnone | hne | hall
      · exact .inl (by omega)
      · cases hnone
      · exact .inr hne
      · omega
    rw [heq]
    intro j hj
    by_cases hjr : j = r
    · subst hjr
      exact (h j hj).entry hword hpos ((h j hj).call call hcall) hfirst
    · apply (h j hj).congr
      · exact aggregateEntry_other (h r hr) call pos hfirst hjr
      · rfl
      · simp [aggregateEntry, hjr]
      · intro c hc
        simp only [aggregateEntry] at hc
        rw [Function.update_of_ne (by omega)] at hc
        exact (h j hj).call c hc

/-- A step of the hardware or the driver keeps all rings, where a ring that wraps is the first. -/
theorem RingsInv.step (h : RingsInv x n s) (e : IntrEvent) (hok : EventOk x n s e)
    (hown : TogglesOwn x s e) : RingsInv x n (intrStep x s e) := by
  cases e with
  | write r word => exact h.write hok
  | enter vidx => exact h.enter hok
  | pass vidx => exact h.pass hok hown

/-- A wrap of another ring leaves its color, and so the driver is wrong about the next entry. -/
theorem RingsInv.wrap_wrong (h : RingsInv x n s) (e : IntrEvent) (hok : EventOk x n s e)
    (hown : ¬ TogglesOwn x s e) : ¬ ∀ r < n, InTurn x (intrStep x s e) r := by
  cases e with
  | write r word => exact absurd trivial hown
  | enter vidx => exact absurd trivial hown
  | pass vidx =>
    obtain ⟨r, hr, rfl⟩ := hok
    simp only [TogglesOwn, Nat.add_sub_cancel_left, not_or] at hown
    obtain ⟨hne, hsome, hwrap, hunserved⟩ := hown
    have hinv := h r hr
    have hwrap := not_not.mp hwrap
    intro hall
    rcases aggregatePass_cases hinv with
      ⟨hnone, -⟩ | ⟨call, hcall, ⟨hserved, -⟩ | ⟨word, pos, hword, hpos, heq⟩⟩
    · exact hsome hnone
    · exact hunserved hserved
    · have hlt := (List.getElem?_eq_some_iff.mp hword).1
      have hself : (aggregateEntry x s (x.dvecStartIdx + r) call pos).intrCoalList r =
          { s.intrCoalList r with swCidx := 0 } := by
        unfold aggregateEntry
        simp only [Nat.add_sub_cancel_left, hinv.succ_index]
        rw [if_pos (by simpa using hwrap), Function.update_of_ne (by omega), Function.update_self,
          if_pos (by simpa using hwrap)]
      have hlen : ((aggregateEntry x s (x.dvecStartIdx + r) call pos).dispatched r).length =
          (s.dispatched r).length + 1 := by
        simp [aggregateEntry]
      have hzero : ((s.dispatched r).length + 1) % (s.intrCoalList r).intrRngNumEntries = 0 := by
        rw [hinv.succ_mod, if_pos hwrap]
      have hlap := lapColor_succ hinv.pos (s.dispatched r).length
      rw [← hinv.index, if_pos hwrap, ← hinv.color] at hlap
      have hfresh := (hall r hr).fresh
      simp only [intrStep, heq, hself, hlen] at hfresh
      have hwritten : (aggregateEntry x s (x.dvecStartIdx + r) call pos).written = s.written := rfl
      rw [hwritten] at hfresh
      rcases Nat.lt_or_ge ((s.dispatched r).length + 1) (s.written r).length with hmore | hlast
      · have hnext := List.getElem?_eq_getElem hmore
        have hat := hinv.outstanding _ _ (Nat.le_succ _) hnext
        have hcolor := (hinv.words _ _ hnext).1
        rw [hzero] at hat
        rw [← hat, hlap] at hcolor
        exact Bool.not_ne_self _ (hcolor.symm.trans (hfresh.mpr hmore))
      · have hroom := hinv.room
        have hold := hinv.stale _ hlast (by omega)
        rw [hzero, hlap, Bool.not_not] at hold
        exact absurd (hfresh.mp hold) (Nat.not_lt.mpr hlast)

theorem intrStart_inv (x : IntrDev) {size : ℕ → ℕ} (rngIdx : ℕ → ℕ)
    (hsize : ∀ r < n, 0 < size r ∧ size r < 2 ^ 16) : RingsInv x n (intrStart x size rngIdx) := by
  intro r hr
  obtain ⟨hpos, hsmall⟩ := hsize r hr
  constructor
  · exact hsmall
  · rfl
  · exact le_rfl
  · simpa [intrStart] using hpos
  · exact .nil
  · exact (Nat.zero_mod _).symm
  · show true = lapColor (size r) 0
    simp [lapColor]
  · exact nofun
  · exact nofun
  · intro j _ hlt
    have hlt : j < size r := by simpa [intrStart] using hlt
    have hlap : lapColor (size r) j = true := decide_eq_true (by rw [Nat.div_eq_of_lt hlt])
    show x.color 0 = !lapColor (size r) j
    rw [hlap]
    unfold IntrDev.color intrRing
    split <;> exact Nat.zero_testBit 63
  · exact nofun

/-- On new rings that the hardware writes in order every ring is served in turn throughout the runs
in which only the first ring wraps, and only in these. -/
theorem intrRun_inTurn_iff (x : IntrDev) {n : ℕ} {size : ℕ → ℕ} (rngIdx : ℕ → ℕ)
    (hsize : ∀ r < n, 0 < size r ∧ size r < 2 ^ 16) (es : List IntrEvent)
    (h : Admitted (intrStep x) (EventOk x n) (intrStart x size rngIdx) es) :
    Always (intrStep x) (fun s => ∀ r < n, InTurn x s r) (intrStart x size rngIdx) es ↔
      Admitted (intrStep x) (TogglesOwn x) (intrStart x size rngIdx) es := by
  apply h.always_iff (I := RingsInv x n)
  · exact fun s hs r hr => (hs r hr).inTurn
  · exact fun s e hs hok hown => hs.step e hok hown
  · exact fun s e hs hok hown => hs.wrap_wrong e hok hown
  · exact intrStart_inv x rngIdx hsize

/-- A device with eight queues from number 16 on, whose vectors are 0 and 1. -/
def intrDev : IntrDev where
  ipType := .eqdmaSoftIp
  dvecStartIdx := 0
  msixEntry vidx := vidx
  qdev := some { qbase := 16, qmax := 8 }
  descq pos := { qidx := pos % 8 }

/-- An entry of the first lap for the C2H queue with number 18. -/
def intrWord : ℕ := 2 ^ 63 + 18 * 2 ^ 39 + 2 ^ 38

theorem intrWord_names : intrDev.Names intrWord 10 :=
  ⟨{ qbase := 16, qmax := 8 }, rfl, 2, by decide, by decide +kernel, by decide +kernel⟩

/-- Two vectors with a ring of 512 entries each. -/
def twoRings : IntrState := intrStart intrDev (fun _ => 512) (fun r => r)

theorem twoRings_size : ∀ r < 2, 0 < 512 ∧ 512 < 2 ^ 16 := fun _ _ => by decide

/-- An entry on the second ring, and two calls of its handler. -/
def servedRun : List IntrEvent :=
  [.write 1 intrWord, .enter 1, .pass 1, .pass 1, .enter 1, .pass 1]

theorem servedRun_inTurn :
    Always (intrStep intrDev) (fun s => ∀ r < 2, InTurn intrDev s r) twoRings servedRun := by
  apply (intrRun_inTurn_iff intrDev (fun r => r) twoRings_size servedRun ?_).mpr
  · refine ⟨trivial, trivial, ?_, ?_, trivial, ?_, trivial⟩
    · exact .inr (.inr (.inl (by decide +kernel)))
    · exact .inr (.inr (.inl (by decide +kernel)))
    · exact .inr (.inr (.inl (by decide +kernel)))
  · have hring : ∃ r < 2, 1 = intrDev.dvecStartIdx + r := ⟨1, by decide, rfl⟩
    refine ⟨⟨by decide, by decide +kernel, ⟨10, intrWord_names⟩, by decide +kernel⟩,
      ⟨hring, rfl⟩, hring, hring, ⟨hring, by decide +kernel⟩, hring, trivial⟩

/-! ## A lap of the second ring -/

/-- The handler of the second vector keeps up with the hardware. -/
structure KeepsUp (s : IntrState) (k : ℕ) : Prop where
  inv : RingsInv intrDev 2 s
  size : (s.intrCoalList 1).intrRngNumEntries = 512
  written : (s.written 1).length = k
  dispatched : (s.dispatched 1).length = k
  call : s.calls 1 ≠ none

/-- An entry is written and handed on. -/
def entryRound : List IntrEvent := [.write 1 intrWord, .pass 1]

theorem KeepsUp.write_ok {s : IntrState} {k : ℕ} (h : KeepsUp s k) (hk : k < 512) :
    EventOk intrDev 2 s (.write 1 intrWord) := by
  refine ⟨by decide, ?_, ⟨10, intrWord_names⟩, ?_⟩
  · have hcolor : (intrRing intrDev.ipType intrWord).coalColor = true := by decide +kernel
    rw [hcolor, h.size, h.written]
    symm
    apply decide_eq_true
    omega
  · rw [h.size, h.written, h.dispatched]
    omega

theorem KeepsUp.round {s : IntrState} {k : ℕ} (h : KeepsUp s k) (hk : k + 1 < 512) :
    Admitted (intrStep intrDev) (EventOk intrDev 2) s entryRound ∧
      KeepsUp (run (intrStep intrDev) s entryRound) (k + 1) := by
  have hwrite := h.write_ok (by omega)
  have hring : EventOk intrDev 2 (writeEntry s 1 intrWord) (.pass 1) := ⟨1, by decide, rfl⟩
  have hinv := h.inv.write hwrite
  have hsize : ((writeEntry s 1 intrWord).intrCoalList 1).intrRngNumEntries = 512 := by
    simp [writeEntry, h.size]
  have hwritten : ((writeEntry s 1 intrWord).written 1).length = k + 1 := by
    simp [writeEntry, h.written]
  have hdispatched : ((writeEntry s 1 intrWord).dispatched 1).length = k := h.dispatched
  have hcall : (writeEntry s 1 intrWord).calls 1 ≠ none := h.call
  refine ⟨⟨hwrite, hring, trivial⟩, ?_⟩
  show KeepsUp (aggregatePass intrDev (writeEntry s 1 intrWord) 1) (k + 1)
  generalize writeEntry s 1 intrWord = s' at *
  have hown : (s'.intrCoalList 1).swCidx + 1 ≠ (s'.intrCoalList 1).intrRngNumEntries := by
    rw [(hinv 1 (by decide)).index, hdispatched, hsize]
    omega
  have hpass := hinv.pass hring (.inr (.inr (.inl hown)))
  rcases aggregatePass_cases (hinv 1 (by decide)) with
    ⟨hnone, -⟩ | ⟨call, -, ⟨hserved, -⟩ | ⟨word, pos, -, -, heq⟩⟩
  · exact absurd hnone hcall
  · omega
  · have heq : aggregatePass intrDev s' 1 = aggregateEntry intrDev s' 1 call pos := heq
    rw [heq] at hpass ⊢
    have hself := aggregateEntry_self (hinv 1 (by decide)) call pos (.inr hown)
    refine ⟨hpass, ?_, hwritten, ?_, ?_⟩
    · exact (congrArg IntrCoalConf.intrRngNumEntries hself).trans hsize
    · simp [aggregateEntry, intrDev, hdispatched]
    · simp [aggregateEntry]

/-- The first `k` entries of the second ring. -/
def entries (k : ℕ) : List IntrEvent := (List.replicate k entryRound).flatten

theorem KeepsUp.entries {s : IntrState} (h : KeepsUp s 0) (k : ℕ) (hk : k < 512) :
    Admitted (intrStep intrDev) (EventOk intrDev 2) s (entries k) ∧
      KeepsUp (run (intrStep intrDev) s (entries k)) k := by
  induction k with
  | zero => exact ⟨trivial, h⟩
  | succ k ih =>
    obtain ⟨hok, hkeeps⟩ := ih (by omega)
    have hsplit : Interrupt.entries (k + 1) = Interrupt.entries k ++ entryRound := by
      simp [Interrupt.entries, List.replicate_succ']
    rw [hsplit, run_append]
    obtain ⟨hround, hnext⟩ := hkeeps.round hk
    exact ⟨hok.append hround, hnext⟩

/-- The entry that fills the lap is handed on, and the driver is wrong about the next one. -/
theorem KeepsUp.wrap {s : IntrState} (h : KeepsUp s 511) :
    Admitted (intrStep intrDev) (EventOk intrDev 2) s entryRound ∧
      ¬ ∀ r < 2, InTurn intrDev (run (intrStep intrDev) s entryRound) r := by
  have hwrite := h.write_ok (by decide)
  have hring : EventOk intrDev 2 (writeEntry s 1 intrWord) (.pass 1) := ⟨1, by decide, rfl⟩
  have hinv := h.inv.write hwrite
  refine ⟨⟨hwrite, hring, trivial⟩, hinv.wrap_wrong (.pass 1) hring ?_⟩
  rintro (hfirst | hnone | hindex | hserved)
  · cases hfirst
  · exact h.call hnone
  · apply hindex
    show ((writeEntry s 1 intrWord).intrCoalList 1).swCidx + 1 =
      ((writeEntry s 1 intrWord).intrCoalList 1).intrRngNumEntries
    have hdispatched : ((writeEntry s 1 intrWord).dispatched 1).length = 511 := h.dispatched
    rw [(hinv 1 (by decide)).index, hdispatched]
    simp [writeEntry, h.size]
  · have hserved : (s.dispatched 1).length = ((writeEntry s 1 intrWord).written 1).length := hserved
    simp [writeEntry, h.dispatched, h.written] at hserved

/-- A call that has served all but the last entry of the lap goes wrong with it. -/
theorem KeepsUp.lap {s : IntrState} {e : IntrEvent} {es : List IntrEvent}
    (hfirst : EventOk intrDev 2 s e)
    (hok : Admitted (intrStep intrDev) (EventOk intrDev 2) (intrStep intrDev s e) es)
    (h : KeepsUp (run (intrStep intrDev) (intrStep intrDev s e) es) 511) :
    Admitted (intrStep intrDev) (EventOk intrDev 2) s (e :: es ++ entryRound) ∧
      ¬ Always (intrStep intrDev) (fun s => ∀ r < 2, InTurn intrDev s r) s
        (e :: es ++ entryRound) := by
  obtain ⟨hround, hwrong⟩ := h.wrap
  refine ⟨Admitted.append ⟨hfirst, hok⟩ hround, fun hall => ?_⟩
  have hfinal := hall.final
  rw [run_append] at hfinal
  exact hwrong hfinal

/-- A call of the second handler that serves a whole lap. -/
def lapRun : List IntrEvent := .enter 1 :: entries 511 ++ entryRound

/-- Once the second ring has wrapped an entry of the lap before is taken for new. -/
theorem lapRun_not_inTurn :
    ¬ ∀ es, Admitted (intrStep intrDev) (EventOk intrDev 2) twoRings es →
      Always (intrStep intrDev) (fun s => ∀ r < 2, InTurn intrDev s r) twoRings es := by
  intro hall
  have hstart : RingsInv intrDev 2 twoRings := intrStart_inv intrDev (fun r => r) twoRings_size
  have henter : EventOk intrDev 2 twoRings (.enter 1) := ⟨⟨1, by decide, rfl⟩, rfl⟩
  have hkeeps : KeepsUp (intrStep intrDev twoRings (.enter 1)) 0 :=
    ⟨hstart.enter henter, rfl, rfl, rfl, nofun⟩
  obtain ⟨hok, hlast⟩ := hkeeps.entries 511 (by decide)
  obtain ⟨hadmitted, hwrong⟩ := KeepsUp.lap henter hok hlast
  exact hwrong (hall lapRun hadmitted)

end OnicDriver.Interrupt
