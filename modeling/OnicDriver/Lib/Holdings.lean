import Mathlib.Algebra.Order.Group.Multiset
import Mathlib.Data.Multiset.AddSub
import Mathlib.Data.Multiset.Replicate

/-!
# Things held

A program acquires things under fresh addresses and releases them. What is
held is a multiset, so that a thing with several references is held several
times. Releasing or using what is not held is a fault, and is counted.
-/

namespace OnicDriver.Lib

/-- What a program holds, the addresses given out, the requests for something so far, and the
faults. -/
structure Holdings (α : Type*) where
  held : Multiset α := 0
  addresses : ℕ := 0
  calls : ℕ := 0
  faults : ℕ := 0

namespace Holdings

variable {α : Type*}

/-- Ask for a thing, which may fail. The null address is never given out. -/
def acquire (grant : ℕ → Bool) (mk : ℕ → α) (h : Holdings α) : ℕ × Holdings α :=
  if grant h.calls then
    (h.addresses + 1,
      { h with
        held := mk (h.addresses + 1) ::ₘ h.held
        addresses := h.addresses + 1
        calls := h.calls + 1 })
  else (0, { h with calls := h.calls + 1 })

/-- One more reference. -/
def hold (x : α) (h : Holdings α) : Holdings α := { h with held := x ::ₘ h.held }

/-- What must not be done. -/
def fault (h : Holdings α) : Holdings α := { h with faults := h.faults + 1 }

/-- Use something of which a reference must be held. -/
def use (p : α → Bool) (h : Holdings α) : Holdings α :=
  if h.held.countP (p ·) = 0 then h.fault else h

/-- Give up `n` references to a thing. -/
def release [DecidableEq α] (x : α) (n : ℕ) (h : Holdings α) : Holdings α :=
  if n ≤ h.held.count x then { h with held := h.held - Multiset.replicate n x } else h.fault

/-- The holdings are exactly `held`, with `faults` faults so far. -/
structure Are (held : Multiset α) (faults : ℕ) (h : Holdings α) : Prop where
  held : h.held = held
  faults : h.faults = faults

variable {held : Multiset α} {faults n : ℕ} {h : Holdings α} {x : α}

theorem Are.congr {held' : Multiset α} (h' : Are held faults h) (heq : held = held') :
    Are held' faults h := heq ▸ h'

/-- A request is granted, and the thing acquired under an address, or it is refused. -/
theorem Are.acquire (h' : Are held faults h) (grant : ℕ → Bool) (mk : ℕ → α) :
    (∃ a h₁, Holdings.acquire grant mk h = (a + 1, h₁) ∧ Are (mk (a + 1) ::ₘ held) faults h₁ ∧
      grant h.calls = true ∧ h₁.calls = h.calls + 1) ∨
    ∃ h₁, Holdings.acquire grant mk h = (0, h₁) ∧ Are held faults h₁ ∧ grant h.calls = false := by
  unfold Holdings.acquire
  split
  · rename_i hgrant
    left
    refine ⟨_, _, rfl, ⟨?_, h'.faults⟩, hgrant, rfl⟩
    rw [← h'.held]
  · rename_i hgrant
    right
    exact ⟨_, rfl, ⟨h'.held, h'.faults⟩, Bool.eq_false_of_not_eq_true hgrant⟩

theorem Are.hold (h' : Are held faults h) (x : α) :
    Are (x ::ₘ held) faults (Holdings.hold x h) := by
  refine ⟨?_, h'.faults⟩
  rw [← h'.held]
  rfl

theorem Are.use (h' : Are held faults h) {p : α → Bool} (hx : x ∈ held) (hp : p x) :
    Are held faults (Holdings.use p h) := by
  unfold Holdings.use
  rw [if_neg]
  · exact h'
  · have hpos : 0 < h.held.countP (p ·) :=
      Multiset.countP_pos.mpr ⟨x, h'.held.symm ▸ hx, hp⟩
    exact hpos.ne'

variable [DecidableEq α]

/-- References that are held are given up. -/
theorem Are.release (h' : Are (held + Multiset.replicate n x) faults h) :
    Are held faults (Holdings.release x n h) := by
  unfold Holdings.release
  rw [if_pos]
  · refine ⟨?_, h'.faults⟩
    dsimp only
    rw [h'.held, Multiset.add_sub_cancel_right]
  · rw [h'.held, Multiset.count_add, Multiset.count_replicate_self]
    exact Nat.le_add_left _ _

/-- The only reference is given up. -/
theorem Are.release_one (h' : Are (x ::ₘ held) faults h) :
    Are held faults (Holdings.release x 1 h) := by
  apply Are.release
  rwa [Multiset.replicate_one, Multiset.add_comm, Multiset.singleton_add]

end Holdings

end OnicDriver.Lib
