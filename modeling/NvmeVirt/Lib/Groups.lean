import Mathlib.Tactic.Common

/-!
# Things that fill groups in order

`n` things in groups of `o`, where the last group may be short. The first `x` of them complete
`closed o n x` groups, which have `held o n x` members.

`closed_turn` and `held_turn` are for a loop that goes through the things and does not cross the end of
a group in one turn.
-/

namespace Groups

/-- The number of groups that the first `x` things complete. -/
def closed (o n x : Nat) : Nat := if x = n then (n + o - 1) / o else x / o

/-- The number of things in these groups. -/
def held (o n x : Nat) : Nat := min (closed o n x * o) n

variable {o n p k : Nat}

theorem closed_of_lt (h : p < n) : closed o n p = p / o := if_neg (by omega)

theorem held_of_lt (h : p < n) : held o n p = p / o * o := by
  have := Nat.div_mul_le_self p o
  rw [held, closed_of_lt h, Nat.min_eq_left (by omega)]

theorem held_self (ho : 0 < o) : held o n n = n := by
  have hdiv := Nat.div_add_mod (n + o - 1) o
  have hmod := Nat.mod_lt (n + o - 1) ho
  rw [Nat.mul_comm] at hdiv
  rw [held, closed, if_pos rfl, Nat.min_eq_right (by omega)]

theorem held_le (ho : 0 < o) (h : p ≤ n) : held o n p ≤ p := by
  obtain hlt | rfl := Nat.lt_or_eq_of_le h
  · rw [held_of_lt hlt]
    exact Nat.div_mul_le_self p o
  · exact Nat.le_of_eq (held_self ho)

/-- The members of the completed groups are all, at the end of a group. -/
theorem held_of_dvd (h : p < n) (hd : p % o = 0) : held o n p = p := by
  rw [held_of_lt h, Nat.div_mul_cancel (Nat.dvd_of_mod_eq_zero hd)]

section Turn

variable (ho : 0 < o) (hk : 0 < k) (hle : p % o + k ≤ o)

include ho hk hle

/-- A turn of `k` things from `p` on, inside a group, completes the group if it reaches its end or the
last thing. -/
theorem closed_turn : closed o n (p + k) =
    p / o + if p % o + k = o ∨ p + k = n then 1 else 0 := by
  have hdiv := Nat.div_add_mod p o
  rw [Nat.mul_comm] at hdiv
  unfold closed
  by_cases hend : p + k = n
  · rw [if_pos hend, if_pos (.inr hend)]
    exact Nat.div_eq_of_lt_le (by rw [Nat.succ_mul]; omega) (by rw [Nat.succ_mul, Nat.succ_mul]; omega)
  rw [if_neg hend]
  by_cases hfull : p % o + k = o
  · rw [if_pos (.inl hfull)]
    exact Nat.div_eq_of_lt_le (by rw [Nat.succ_mul]; omega) (by rw [Nat.succ_mul, Nat.succ_mul]; omega)
  · rw [if_neg (by omega), Nat.add_zero]
    exact Nat.div_eq_of_lt_le (by omega) (by rw [Nat.succ_mul]; omega)

theorem held_turn (hp : p < n) (hn : p + k ≤ n) : held o n (p + k) = held o n p +
    if p % o + k = o ∨ p + k = n then (if p + k = n ∧ 0 < n % o then n % o else o) else 0 := by
  have hdiv := Nat.div_add_mod p o
  rw [Nat.mul_comm] at hdiv
  rw [held_of_lt hp, held, closed_turn ho hk hle]
  by_cases hend : p + k = n
  · have hmod : n % o = (p % o + k) % o := by
      rw [← hend, ← hdiv, Nat.add_assoc, Nat.mul_add_mod_self_right, hdiv]
    rw [if_pos (.inr hend), if_pos (.inr hend), Nat.succ_mul, Nat.min_eq_right (by omega), hmod]
    by_cases hfull : p % o + k = o
    · rw [hfull, Nat.mod_self, if_neg (by omega)]
      omega
    · rw [Nat.mod_eq_of_lt (by omega), if_pos ⟨hend, by omega⟩]
      omega
  by_cases hfull : p % o + k = o
  · rw [if_pos (.inl hfull), if_pos (.inl hfull), if_neg (fun h => hend h.1), Nat.succ_mul,
      Nat.min_eq_left (by omega)]
  · rw [if_neg (by omega), if_neg (by omega), Nat.add_zero, Nat.min_eq_left (by omega), Nat.add_zero]

end Turn

end Groups
