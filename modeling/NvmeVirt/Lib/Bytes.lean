import Mathlib.Data.List.Basic
import NvmeVirt.Lib.CInt

/-!
# Byte-addressed memory

A memory is a function from 64-bit addresses to bytes; a range of it may wrap around at the end of
the address space. `copyIn m off f n` writes the `n` bytes `f 0`, `f 1`, … at `off`, the effect of
`memcpy`. Two copies to adjacent ranges are one (`copyIn_copyIn`); a copy changes nothing exactly
when the bytes are there already (`copyIn_eq_iff`).
-/

namespace Bytes

open CInt

/-- A memory. -/
abbrev Mem := Nat → UInt8

/-- `m` with the bytes `f 0`, …, `f (n - 1)` at `off`. -/
def copyIn (m : Mem) (off : Nat) (f : Nat → UInt8) (n : Nat) : Mem := fun a =>
  if a < 2 ^ 64 ∧ sub64 a off < n then f (sub64 a off) else m a

/-- The 64-bit little-endian word at `a`. -/
def readU64 (m : Mem) (a : Nat) : Nat :=
  (List.range 8).foldr (fun i acc => (m (a + i)).toNat + 256 * acc) 0

/-- The 32-bit little-endian word at `a`. -/
def readU32 (m : Mem) (a : Nat) : Nat :=
  (List.range 4).foldr (fun i acc => (m (a + i)).toNat + 256 * acc) 0

/-- The `n` bytes from `a` on. -/
def bytesAt (m : Mem) (a n : Nat) : List UInt8 := (List.range n).map fun k => m (a + k)

/-- Byte `k` of the little-endian words that hold `n`. -/
def wordByte (n k : Nat) : UInt8 := UInt8.ofNat (n >>> (8 * k))

theorem sub64_add {off k : Nat} (hk : k < 2 ^ 64) : sub64 (u64 (off + k)) off = k := by
  unfold sub64 u64; omega

theorem add_sub64 {a off : Nat} (ha : a < 2 ^ 64) : u64 (off + sub64 a off) = a := by
  unfold sub64 u64; omega

@[simp] theorem copyIn_zero (m : Mem) (off : Nat) (f : Nat → UInt8) : copyIn m off f 0 = m := by
  funext a
  simp [copyIn]

/-- Inside the range. -/
theorem copyIn_add {m : Mem} {off n k : Nat} {f : Nat → UInt8} (hk : k < n) (hn : n ≤ 2 ^ 64) :
    copyIn m off f n (u64 (off + k)) = f k := by
  have hlt : u64 (off + k) < 2 ^ 64 := Nat.mod_lt _ (by decide)
  simp only [copyIn, sub64_add (show k < 2 ^ 64 by omega), hlt, hk, and_self, ↓reduceIte]

/-- Outside the range. -/
theorem copyIn_of_ne {m : Mem} {off n a : Nat} {f : Nat → UInt8}
    (h : ∀ k < n, a ≠ u64 (off + k)) : copyIn m off f n a = m a := by
  unfold copyIn
  split
  · rename_i ha
    exact absurd (add_sub64 ha.1).symm (h _ ha.2)
  · rfl

theorem readU64_congr {m m' : Mem} {a : Nat} (h : ∀ i < 8, m' (a + i) = m (a + i)) :
    readU64 m' a = readU64 m a := by
  unfold readU64
  refine List.foldr_ext _ _ _ fun i hi acc => ?_
  rw [h i (List.mem_range.mp hi)]

/-- A word whose bytes are those of `n`. -/
theorem readU64_eq {m : Mem} {a n : Nat} (h : ∀ i < 8, m (a + i) = wordByte n i) :
    readU64 m a = u64 n := by
  have hbyte (i : Nat) (hi : i < 8) : (m (a + i)).toNat = n / 2 ^ (8 * i) % 256 := by
    rw [h i hi, wordByte, Nat.shiftRight_eq_div_pow, UInt8.toNat_ofNat']
  show (m (a + 0)).toNat + 256 * ((m (a + 1)).toNat + 256 * ((m (a + 2)).toNat + 256 *
    ((m (a + 3)).toNat + 256 * ((m (a + 4)).toNat + 256 * ((m (a + 5)).toNat + 256 *
    ((m (a + 6)).toNat + 256 * ((m (a + 7)).toNat + 256 * 0))))))) = u64 n
  rw [hbyte 0 (by omega), hbyte 1 (by omega), hbyte 2 (by omega), hbyte 3 (by omega),
    hbyte 4 (by omega), hbyte 5 (by omega), hbyte 6 (by omega), hbyte 7 (by omega)]
  unfold u64
  omega

theorem readU32_eq {m : Mem} {a n : Nat} (h : ∀ i < 4, m (a + i) = wordByte n i) :
    readU32 m a = u32 n := by
  have hbyte (i : Nat) (hi : i < 4) : (m (a + i)).toNat = n / 2 ^ (8 * i) % 256 := by
    rw [h i hi, wordByte, Nat.shiftRight_eq_div_pow, UInt8.toNat_ofNat']
  show (m (a + 0)).toNat + 256 * ((m (a + 1)).toNat + 256 * ((m (a + 2)).toNat + 256 *
    ((m (a + 3)).toNat + 256 * 0))) = u32 n
  rw [hbyte 0 (by omega), hbyte 1 (by omega), hbyte 2 (by omega), hbyte 3 (by omega)]
  unfold u32
  omega

/-- Two copies to adjacent ranges. -/
theorem copyIn_copyIn (m : Mem) (off : Nat) (f g : Nat → UInt8) {n l : Nat} (h : n + l ≤ 2 ^ 64) :
    copyIn (copyIn m off f n) (u64 (off + n)) g l =
      copyIn m off (fun k => if k < n then f k else g (k - n)) (n + l) := by
  funext a
  unfold copyIn
  by_cases ha : a < 2 ^ 64
  · simp only [ha, true_and]
    by_cases hn : sub64 a off < n
    · have hge : ¬ sub64 a (u64 (off + n)) < l := by
        unfold sub64 u64 at *; omega
      simp only [hge, hn, show sub64 a off < n + l by omega, ↓reduceIte]
    · have hsub : sub64 a (u64 (off + n)) = sub64 a off - n := by
        unfold sub64 u64 at *; omega
      simp only [hsub, hn, ↓reduceIte]
      by_cases hl : sub64 a off - n < l
      · simp only [hl, show sub64 a off < n + l by omega, ↓reduceIte]
      · simp only [hl, show ¬ sub64 a off < n + l by omega, ↓reduceIte]
  · simp only [ha, false_and, ↓reduceIte]

theorem copyIn_u64 (m : Mem) (off : Nat) (f : Nat → UInt8) (n : Nat) :
    copyIn m (u64 off) f n = copyIn m off f n := by
  have hsub (a : Nat) : sub64 a (u64 off) = sub64 a off := by
    unfold sub64 u64
    omega
  funext a
  unfold copyIn
  rw [hsub]

/-- One more byte. -/
theorem copyIn_succ (m : Mem) (off : Nat) (f : Nat → UInt8) {n : Nat} (hn : n < 2 ^ 64) :
    Function.update (copyIn m off f n) (u64 (off + n)) (f n) = copyIn m off f (n + 1) := by
  funext a
  by_cases ha : a = u64 (off + n)
  · rw [ha, Function.update_self, copyIn_add (Nat.lt_succ_self n) hn]
  · rw [Function.update_of_ne ha]
    unfold copyIn
    refine ite_congr (propext (and_congr_right fun ha64 => ?_)) (fun _ => rfl) fun _ => rfl
    have hne : sub64 a off ≠ n := by
      rintro rfl
      exact ha (add_sub64 ha64).symm
    omega

/-- A copy changes nothing exactly when the bytes are there already. -/
theorem copyIn_eq_iff {m : Mem} {off n : Nat} {f : Nat → UInt8} {S : Nat → Prop} (hn : n ≤ 2 ^ 64) :
    (∀ a, S a → copyIn m off f n a = m a) ↔ ∀ k < n, S (u64 (off + k)) → f k = m (u64 (off + k)) := by
  constructor
  · intro h k hk hS
    rw [← copyIn_add (m := m) (f := f) hk hn, h _ hS]
  · intro h a hS
    unfold copyIn
    split
    · rename_i ha
      have heq : u64 (off + sub64 a off) = a := add_sub64 ha.1
      rw [h _ ha.2 (by rwa [heq]), heq]
    · rfl

theorem copyIn_congr {m : Mem} {off n : Nat} {f g : Nat → UInt8} (h : ∀ k < n, f k = g k) :
    copyIn m off f n = copyIn m off g n := by
  funext a
  unfold copyIn
  split
  · rename_i ha
    exact h _ ha.2
  · rfl

/-! ## Ranges of bytes -/

@[simp] theorem length_bytesAt (m : Mem) (a n : Nat) : (bytesAt m a n).length = n := by
  simp [bytesAt]

theorem bytesAt_add (m : Mem) (a n l : Nat) :
    bytesAt m a (n + l) = bytesAt m a n ++ bytesAt m (a + n) l := by
  unfold bytesAt
  rw [List.range_add, List.map_append, List.map_map]
  congr 1
  exact List.map_congr_left fun k _ => by simp [Nat.add_assoc]

/-- The bytes that a copy wrote. -/
theorem bytesAt_copyIn (m : Mem) (f : Nat → UInt8) {off n : Nat} (h : off + n ≤ 2 ^ 64) :
    bytesAt (copyIn m off f n) off n = (List.range n).map f := by
  refine List.map_congr_left fun k hk => ?_
  have hk := List.mem_range.mp hk
  have hin : copyIn m off f n (u64 (off + k)) = f k := copyIn_add hk (by omega)
  rwa [u64_of_lt (by omega)] at hin

/-- The bytes beside a copy. -/
theorem bytesAt_copyIn_apart (m : Mem) (f : Nat → UInt8) {off n a l : Nat} (h : off + n ≤ 2 ^ 64)
    (hap : a + l ≤ off ∨ off + n ≤ a) : bytesAt (copyIn m off f n) a l = bytesAt m a l := by
  refine List.map_congr_left fun k hk => ?_
  have hk := List.mem_range.mp hk
  refine copyIn_of_ne fun j hj => ?_
  rw [u64_of_lt (by omega)]
  omega

end Bytes
