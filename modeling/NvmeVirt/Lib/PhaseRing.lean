import Mathlib.Data.List.Iterate
import Mathlib.Logic.Function.Iterate
import Mathlib.Tactic.Common

/-!
# Rings with phase tags

A writer puts entries into the `n` slots of a ring, one after the other. Each entry has a tag, which the
writer flips with every lap, so that the reader sees at its slot whether the next entry is there.

`Ring tag n mem posted c`: of the entries `posted`, the reader has taken the first `c`, and the others
are in the memory `mem`.

* `Ring.write`, `Ring.read`: the steps of the writer, if there is room, and of the reader.
* `Ring.tag_iff`: the reader sees the tag it expects exactly if an entry is there.
* `Ring.tag_overrun`: after a write to a full ring it does not.
-/

namespace PhaseRing

open Function

variable {α : Type}

/-- The tag of the `k`-th entry: true in the first lap. -/
def lap (n k : Nat) : Bool := k / n % 2 == 0

/-- The next slot. -/
def next (n slot : Nat) : Nat := if slot + 1 = n then 0 else slot + 1

/-- The tag of the next slot. -/
def nextTag (n slot : Nat) (tag : Bool) : Bool := if slot + 1 = n then !tag else tag

/-! ## Going around the slots -/

section Slots

variable {n a k : Nat}

theorem next_iterate (h : a + k < n) : (next n)^[k] a = a + k := by
  induction k with
  | zero => rfl
  | succ k ih =>
    rw [iterate_succ_apply', ih (by omega), next, if_neg (by omega)]
    rfl

/-- The slots up to the end of the ring. -/
theorem iterate_next (h : a + k ≤ n) : List.iterate (next n) a k = List.range' a k := by
  induction k generalizing a with
  | zero => rfl
  | succ k ih =>
    rw [List.iterate, List.range'_succ]
    by_cases hend : a + 1 = n
    · obtain rfl : k = 0 := by omega
      rfl
    · rw [next, if_neg hend, ih (by omega)]

/-- The slots to the end of the ring, and on from its beginning. -/
theorem iterate_next_wrap (h : a < n) (hk : k ≤ n) :
    List.iterate (next n) a (n - a + k) = List.range' a (n - a) ++ List.range' 0 k := by
  have hlast : (next n)^[n - a] a = 0 := by
    obtain ⟨m, rfl⟩ : ∃ m, n = a + m + 1 := ⟨n - a - 1, by omega⟩
    rw [show a + m + 1 - a = m + 1 by omega, iterate_succ_apply', next_iterate (by omega), next,
      if_pos rfl]
  rw [List.iterate_add, iterate_next (by omega), hlast, iterate_next (by omega)]

end Slots

section Lap

variable {n k : Nat} (hn : 0 < n)

include hn

theorem lap_add : lap n (k + n) = !lap n k := by
  unfold lap
  rw [Nat.add_div_right k hn]
  by_cases h : k / n % 2 = 0
  · simp [show (k / n + 1) % 2 = 1 by omega, h]
  · simp [show (k / n + 1) % 2 = 0 by omega, show k / n % 2 = 1 by omega]

omit hn in
theorem lap_of_lt (h : k < n) : lap n k = true := by
  unfold lap
  rw [Nat.div_eq_of_lt h]
  rfl

theorem mod_succ : (k + 1) % n = next n (k % n) := by
  have hlt := Nat.mod_lt k hn
  unfold next
  rw [Nat.add_mod]
  split
  · rename_i hend
    obtain rfl | h1 := Nat.eq_or_lt_of_le (show 1 ≤ n from hn)
    · exact Nat.mod_one _
    · rw [Nat.mod_eq_of_lt h1, hend, Nat.mod_self]
  · rw [Nat.mod_eq_of_lt (a := 1) (by omega), Nat.mod_eq_of_lt (by omega)]

theorem lap_succ : lap n (k + 1) = nextTag n (k % n) (lap n k) := by
  have hlt := Nat.mod_lt k hn
  have hdiv := Nat.div_add_mod k n
  unfold nextTag
  split
  · rename_i hend
    have hk : (k + 1) / n = k / n + 1 := by
      refine Nat.div_eq_of_lt_le ?_ ?_
      · rw [Nat.succ_mul, Nat.mul_comm]
        omega
      · rw [Nat.succ_mul, Nat.succ_mul, Nat.mul_comm]
        omega
    rw [lap, hk, ← lap_add hn, lap, Nat.add_div_right k hn]
  · have hk : (k + 1) / n = k / n := by
      refine Nat.div_eq_of_lt_le ?_ ?_
      · rw [Nat.mul_comm]
        omega
      · rw [Nat.succ_mul, Nat.mul_comm]
        omega
    rw [lap, hk]
    rfl

omit hn in
/-- The slots of a lap are different. -/
theorem eq_of_mod_eq {j : Nat} (h : j % n = k % n) (h1 : j < k + n) (h2 : k < j + n) : j = k := by
  have hj := Nat.div_add_mod j n
  have hk := Nat.div_add_mod k n
  rw [h] at hj
  obtain hlt | heq | hgt := Nat.lt_trichotomy (j / n) (k / n)
  · have := Nat.mul_le_mul_left n hlt
    rw [Nat.mul_succ] at this
    omega
  · rw [heq] at hj
    omega
  · have := Nat.mul_le_mul_left n hgt
    rw [Nat.mul_succ] at this
    omega

end Lap

/-- The reader has taken the first `c` of the entries `posted`; the others are in the ring. -/
structure Ring (tag : α → Bool) (n : Nat) (mem : Nat → α) (posted : List α) (c : Nat) : Prop where
  le : c ≤ posted.length
  room : posted.length ≤ c + n
  held : ∀ k (h : k < posted.length), c ≤ k → mem (k % n) = posted[k] ∧ tag posted[k] = lap n k
  free : ∀ k, posted.length ≤ k → k < c + n → tag (mem (k % n)) = !lap n k

namespace Ring

variable {tag : α → Bool} {n c : Nat} {mem : Nat → α} {posted : List α} {x : α} (hn : 0 < n)

/-- An empty ring whose memory has the other tag. -/
theorem empty (hmem : ∀ i, tag (mem i) = false) : Ring tag n mem [] 0 where
  le := Nat.le_refl _
  room := Nat.zero_le _
  held k h := absurd h (Nat.not_lt_zero k)
  free k _ h := by
    have hk : k < n := by omega
    rw [hmem, lap_of_lt hk]
    rfl

theorem write (h : Ring tag n mem posted c) (hroom : posted.length < c + n)
    (hx : tag x = lap n posted.length) :
    Ring tag n (update mem (posted.length % n) x) (posted ++ [x]) c := by
  have hle := h.le
  refine ⟨by simp; omega, by simp; omega, fun k hk hc => ?_, fun k hk hc => ?_⟩
  · rw [List.length_append, List.length_singleton] at hk
    by_cases hlast : k = posted.length
    · subst hlast
      rw [update_self, List.getElem_concat_length rfl]
      exact ⟨rfl, hx⟩
    · have hne : k % n ≠ posted.length % n := fun he => hlast (eq_of_mod_eq he (by omega) (by omega))
      rw [update_of_ne hne, List.getElem_append_left (by omega)]
      exact h.held k (by omega) hc
  · rw [List.length_append, List.length_singleton] at hk
    have hne : k % n ≠ posted.length % n := fun he => by
      have := eq_of_mod_eq he (by omega) (by omega)
      omega
    rw [update_of_ne hne]
    exact h.free k (by omega) hc

include hn

theorem read (h : Ring tag n mem posted c) (hc : c < posted.length) :
    Ring tag n mem posted (c + 1) := by
  have hroom := h.room
  refine ⟨hc, by omega, fun k hk hck => h.held k hk (by omega), fun k hk hck => ?_⟩
  -- the slot of the entry that was read is the one new slot
  by_cases hnew : k = c + n
  · subst hnew
    obtain ⟨hmem, htag⟩ := h.held c hc (Nat.le_refl _)
    rw [Nat.add_mod_right, hmem, htag, lap_add hn, Bool.not_not]
  · exact h.free k hk (by omega)

theorem tag_iff (h : Ring tag n mem posted c) : tag (mem (c % n)) = lap n c ↔ c < posted.length := by
  constructor
  · intro htag
    by_contra hno
    rw [h.free c (by omega) (by omega)] at htag
    exact absurd htag (by cases lap n c <;> decide)
  · intro hc
    obtain ⟨hmem, htag⟩ := h.held c hc (Nat.le_refl _)
    rw [hmem, htag]

variable (mem) in
/-- A write to a full ring takes the next entry away from the reader. -/
theorem tag_overrun (hfull : posted.length = c + n) (hx : tag x = lap n posted.length) :
    tag (update mem (posted.length % n) x (c % n)) ≠ lap n c := by
  rw [hfull] at hx ⊢
  rw [Nat.add_mod_right, update_self, hx, lap_add hn]
  cases lap n c <;> decide

end Ring

end PhaseRing
