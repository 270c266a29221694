import Mathlib.Algebra.Group.Int.Defs
import Mathlib.Algebra.Group.Nat.Defs
import Mathlib.Data.Nat.Basic
import Mathlib.Logic.Function.Basic
import Mathlib.Tactic.Common

/-!
# Unsigned machine words as natural numbers

A C value of an unsigned type is the natural number it stands for. The operations that can
leave the type are followed by `u32` or `u64`; `sub64` is the unsigned difference. An `int` is its
32-bit pattern: it is not negative below `2 ^ 31`, and `ulong` converts it to 64 bits.

`fillLoop` is the C loop `for (i = 0; i < n; i++) a[i] = v` with an `int` counter against an
unsigned 64-bit bound: the comparison converts `i` to the unsigned type, so the loop ends when
the counter wraps to a negative value. `fillLoop_apply` is its effect on the array.
-/

namespace CInt

/-- Truncation to 16 bits. -/
def u16 (n : Nat) : Nat := n % 2 ^ 16

/-- Truncation to 32 bits. -/
def u32 (n : Nat) : Nat := n % 2 ^ 32

/-- Truncation to 64 bits. -/
def u64 (n : Nat) : Nat := n % 2 ^ 64

/-- The 64-bit difference `a - b` with wrap-around. -/
def sub64 (a b : Nat) : Nat := u64 (a + (2 ^ 64 - u64 b))

/-- The 32-bit decrement with wrap-around. -/
def dec32 (n : Nat) : Nat := u32 (n + (2 ^ 32 - 1))

/-- An `int` as an `unsigned long`: the sign is extended. -/
def ulong (n : Nat) : Nat := if n < 2 ^ 31 then n else n + (2 ^ 64 - 2 ^ 32)

/-- The value of an `int`. -/
def int32 (n : Nat) : Int := if n < 2 ^ 31 then n else n - 2 ^ 32

/-- `for (; i < n; i++) a[i] = v` from the counter `i` on. -/
def fillFrom {α : Type} (n : Nat) (v : α) : Nat → Nat → (Nat → α) → Nat → α
  | 0, _, a => a
  | fuel + 1, i, a =>
    if ulong i < n then fillFrom n v fuel (u32 (i + 1)) (Function.update a i v) else a

/-- `for (i = 0; i < n; i++) a[i] = v`. The counter is negative after `2 ^ 31` turns. -/
def fillLoop {α : Type} (n : Nat) (v : α) (a : Nat → α) : Nat → α := fillFrom n v (2 ^ 31) 0 a

/-- `DIV_ROUND_UP(n, d)`. -/
def divRoundUp (n d : Nat) : Nat := (n + d - 1) / d

theorem u32_of_lt {n : Nat} (h : n < 2 ^ 32) : u32 n = n := Nat.mod_eq_of_lt h

theorem u64_of_lt {n : Nat} (h : n < 2 ^ 64) : u64 n = n := Nat.mod_eq_of_lt h

theorem u32_lt (n : Nat) : u32 n < 2 ^ 32 := Nat.mod_lt _ (by decide)

theorem dec32_of_pos {n : Nat} (h : 0 < n) (hn : n < 2 ^ 32) : dec32 n = n - 1 := by
  unfold dec32 u32
  omega

theorem sub64_of_le {a b : Nat} (h : b ≤ a) (ha : a < 2 ^ 64) : sub64 a b = a - b := by
  unfold sub64 u64
  rw [Nat.mod_eq_of_lt (show b < 2 ^ 64 by omega)]
  omega

theorem ulong_of_lt {n : Nat} (h : n < 2 ^ 31) : ulong n = n := if_pos h

theorem int32_of_lt {n : Nat} (h : n < 2 ^ 31) : int32 n = n := if_pos h

theorem fillFrom_apply {α : Type} (n : Nat) (v : α) {fuel i : Nat} (hi : i + fuel = 2 ^ 31)
    (a : Nat → α) (k : Nat) :
    fillFrom n v fuel i a k = if i ≤ k ∧ k < 2 ^ 31 ∧ k < n then v else a k := by
  induction fuel generalizing i a with
  | zero =>
    rw [if_neg (by omega)]
    rfl
  | succ fuel ih =>
    unfold fillFrom
    rw [ulong_of_lt (show i < 2 ^ 31 by omega)]
    by_cases hn : i < n
    · rw [if_pos hn, u32_of_lt (by omega), ih (by omega)]
      by_cases hk : k = i
      · subst hk
        rw [if_neg (by omega), if_pos (by omega), Function.update_self]
      · rw [Function.update_of_ne hk]
        by_cases hc : i ≤ k ∧ k < 2 ^ 31 ∧ k < n
        · rw [if_pos hc, if_pos (by omega)]
        · rw [if_neg hc, if_neg (by omega)]
    · rw [if_neg hn, if_neg (by omega)]

/-- The loop fills the entries below `n`, but none from `2 ^ 31` on. -/
theorem fillLoop_apply {α : Type} (n : Nat) (v : α) (a : Nat → α) (k : Nat) :
    fillLoop n v a k = if k < 2 ^ 31 ∧ k < n then v else a k := by
  unfold fillLoop
  rw [fillFrom_apply n v (by omega)]
  simp only [Nat.zero_le, true_and]

/-- The digits of a number below the base are unique. -/
theorem radix_inj {n a b a' b' : Nat} (hb : b < n) (hb' : b' < n) (h : a * n + b = a' * n + b') :
    a = a' ∧ b = b' := by
  have hmod : b = b' := by
    have := congrArg (· % n) h
    simpa [Nat.mul_add_mod_of_lt hb, Nat.mul_add_mod_of_lt hb', Nat.mod_eq_of_lt hb,
      Nat.mod_eq_of_lt hb', Nat.add_mod] using this
  subst hmod
  exact ⟨Nat.eq_of_mul_eq_mul_right (show 0 < n by omega) (Nat.add_right_cancel h), rfl⟩

theorem radix_lt {m n a b : Nat} (ha : a < m) (hb : b < n) : a * n + b < m * n :=
  calc a * n + b < a * n + n := by omega
    _ = (a + 1) * n := by rw [Nat.add_mul, Nat.one_mul]
    _ ≤ m * n := Nat.mul_le_mul_right n ha

/-- Every number below `m * n` has two digits. -/
theorem radix_exists {m n x : Nat} (h : x < m * n) : ∃ a < m, ∃ b < n, a * n + b = x := by
  have hn : 0 < n := Nat.pos_of_mul_pos_left (Nat.zero_lt_of_lt h)
  exact ⟨x / n, (Nat.div_lt_iff_lt_mul hn).mpr h, x % n, Nat.mod_lt x hn, Nat.div_add_mod' x n⟩

/-- A multiple of `d` at or above `n`, less than `d` away from it. -/
theorem divRoundUp_mul_lt {n d : Nat} (hd : 0 < d) : divRoundUp n d * d < n + d := by
  have := Nat.div_mul_le_self (n + d - 1) d
  unfold divRoundUp
  omega

/-- At or above `n`. -/
theorem le_divRoundUp_mul (n : Nat) {d : Nat} (hd : 0 < d) : n ≤ divRoundUp n d * d := by
  have := Nat.lt_div_mul_add (a := n + d - 1) hd
  unfold divRoundUp
  omega

end CInt
