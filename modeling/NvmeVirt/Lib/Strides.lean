import Mathlib.Data.Int.ModEq
import Mathlib.Data.List.Nodup
import Mathlib.Data.List.Range

/-!
# A range in strides

The numbers below `n` taken with a stride of `m`: first the multiples of `m`, then those that are 1
above one, and so on. `flatMap_strides_perm` says that every number is taken once.
-/

namespace Strides

/-- The numbers below `n` that are `i`, `i + m`, `i + 2 * m` and so on. -/
def stride (m n i : Nat) : List Nat := (List.range ((n - 1 - i) / m + 1)).map fun j => i + j * m

variable {m n i x : Nat}

theorem mem_stride (hm : 0 < m) (hi : i < n) : x ∈ stride m n i ↔ x < n ∧ i ≤ x ∧ x % m = i % m := by
  unfold stride
  simp only [List.mem_map, List.mem_range]
  constructor
  · rintro ⟨j, hj, rfl⟩
    have hle : j * m ≤ n - 1 - i := (Nat.le_div_iff_mul_le hm).mp (by omega)
    exact ⟨by omega, by omega, Nat.add_mul_mod_self_right ..⟩
  · rintro ⟨hx, hle, hmod⟩
    have hdvd : m ∣ x - i := (Nat.modEq_iff_dvd' hle).mp hmod.symm
    obtain ⟨j, hj⟩ := hdvd
    rw [Nat.mul_comm] at hj
    refine ⟨j, ?_, by omega⟩
    have : j ≤ (n - 1 - i) / m := (Nat.le_div_iff_mul_le hm).mpr (by omega)
    omega

theorem nodup_stride (hm : 0 < m) : (stride m n i).Nodup := by
  refine List.Nodup.map (fun j k h => ?_) List.nodup_range
  have hmul : j * m = k * m := Nat.add_left_cancel h
  exact Nat.eq_of_mul_eq_mul_right hm hmul

/-- The strides from the numbers below `m` on take every number below `n` once. -/
theorem flatMap_strides_perm (hm : 0 < m) (n : Nat) :
    ((List.range (min m n)).flatMap (stride m n)).Perm (List.range n) := by
  refine (List.perm_ext_iff_of_nodup ?_ List.nodup_range).mpr fun x => ?_
  · refine List.nodup_flatMap.mpr ⟨fun i _ => nodup_stride hm, ?_⟩
    refine List.Nodup.pairwise_of_forall_ne List.nodup_range fun i hi j hj hne x hx hx' => hne ?_
    rw [List.mem_range] at hi hj
    have h1 := ((mem_stride hm (by omega)).mp hx).2.2
    have h2 := ((mem_stride hm (by omega)).mp hx').2.2
    have hmi : i % m = i := Nat.mod_eq_of_lt (by omega)
    have hmj : j % m = j := Nat.mod_eq_of_lt (by omega)
    rw [← hmi, ← hmj, ← h1, ← h2]
  · rw [List.mem_flatMap, List.mem_range]
    constructor
    · rintro ⟨i, hi, hx⟩
      rw [List.mem_range] at hi
      exact ((mem_stride hm (by omega)).mp hx).1
    · intro hx
      have hlt : x % m < m := Nat.mod_lt _ hm
      have hle : x % m ≤ x := Nat.mod_le _ _
      exact ⟨x % m, List.mem_range.mpr (by omega), (mem_stride hm (by omega)).mpr
        ⟨hx, hle, (Nat.mod_mod ..).symm⟩⟩

end Strides
