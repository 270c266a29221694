import Mathlib.Algebra.BigOperators.Group.Finset.Basic
import Mathlib.Algebra.BigOperators.Ring.Finset

/-!
# Counting the members of a finite index set that satisfy a property

`tally s p` is the number of indices of `s` with `p`. A counter that a program keeps next to an
array is right when it is the tally of the array's entries; `tally_update` is how the tally
changes when one entry does.
-/

namespace Tally

variable {ι β : Type}

/-- The number of indices of `s` with `p`. -/
def tally (s : Finset ι) (p : ι → Bool) : Nat := (s.filter fun i => p i = true).card

theorem tally_le (s : Finset ι) (p : ι → Bool) : tally s p ≤ s.card := Finset.card_filter_le _ _

theorem tally_congr {s : Finset ι} {p q : ι → Bool} (h : ∀ i ∈ s, p i = q i) :
    tally s p = tally s q := by
  unfold tally
  congr 1
  refine Finset.filter_congr fun i hi => ?_
  rw [h i hi]

theorem tally_eq_zero {s : Finset ι} {p : ι → Bool} : tally s p = 0 ↔ ∀ i ∈ s, p i = false := by
  simp [tally, Finset.card_eq_zero, Finset.filter_eq_empty_iff]

theorem tally_eq_card {s : Finset ι} {p : ι → Bool} : tally s p = s.card ↔ ∀ i ∈ s, p i = true :=
  Finset.card_filter_eq_iff

theorem tally_lt {s : Finset ι} {p : ι → Bool} {i : ι} (hi : i ∈ s) (h : p i = false) :
    tally s p < s.card := by
  refine lt_of_le_of_ne (tally_le s p) fun he => ?_
  have := tally_eq_card.mp he i hi
  simp [h] at this

theorem tally_pos {s : Finset ι} {p : ι → Bool} {i : ι} (hi : i ∈ s) (h : p i = true) :
    0 < tally s p := by
  refine Nat.pos_of_ne_zero fun h0 => ?_
  have := tally_eq_zero.mp h0 i hi
  simp [h] at this

theorem tally_add_not (s : Finset ι) (p : ι → Bool) :
    tally s p + tally s (fun i => !p i) = s.card := by
  unfold tally
  simp only [Bool.not_eq_true']
  rw [← Finset.card_filter_add_card_filter_not (s := s) (fun i => p i = true)]
  simp only [Bool.not_eq_true]

/-- The indices below a bound. -/
theorem tally_range_lt {n a : Nat} (h : a ≤ n) :
    tally (Finset.range n) (fun i => decide (i < a)) = a := by
  have hfilter : (Finset.range n).filter (fun i => decide (i < a) = true) = Finset.range a := by
    ext i
    simp only [Finset.mem_filter, Finset.mem_range, decide_eq_true_eq]
    omega
  unfold tally
  rw [hfilter, Finset.card_range]

/-- Pairs, by their second components. -/
theorem tally_product_snd {κ : Type} (s : Finset ι) (t : Finset κ) (p : κ → Bool) :
    tally (s ×ˢ t) (fun i => p i.2) = s.card * tally t p := by
  unfold tally
  rw [Finset.filter_product_right (fun i => p i = true), Finset.card_product]

/-- A sum over an array of which one entry changes from `f a` to `v`. -/
theorem sum_update [DecidableEq ι] (s : Finset ι) (f : ι → β) (w : β → Nat) {a : ι} (ha : a ∈ s) (v : β) :
    ∑ i ∈ s, w (Function.update f a v i) + w (f a) = ∑ i ∈ s, w (f i) + w v := by
  have hrest : ∑ i ∈ s.erase a, w (Function.update f a v i) = ∑ i ∈ s.erase a, w (f i) := by
    refine Finset.sum_congr rfl fun i hi => ?_
    rw [Function.update_of_ne (Finset.ne_of_mem_erase hi)]
  rw [← Finset.add_sum_erase s _ ha, ← Finset.add_sum_erase s (fun i => w (f i)) ha, hrest,
    Function.update_self]
  omega

/-- One entry of the array changes from `f a` to `v`. -/
theorem tally_update [DecidableEq ι] (s : Finset ι) (f : ι → β) (p : β → Bool) {a : ι} (ha : a ∈ s) (v : β) :
    tally s (fun i => p (Function.update f a v i)) + (p (f a)).toNat =
      tally s (fun i => p (f i)) + (p v).toNat := by
  have hsum (g : ι → β) : tally s (fun i => p (g i)) = ∑ i ∈ s, (p (g i)).toNat := by
    unfold tally
    rw [Finset.card_filter]
    refine Finset.sum_congr rfl fun i _ => ?_
    cases h : p (g i) <;> simp [h]
  rw [hsum, hsum]
  exact sum_update s f (fun b => (p b).toNat) ha v

/-- One entry of an array changes that the indices reach through `g`. -/
theorem tally_update_comp [DecidableEq ι] {κ : Type} [DecidableEq κ] (s : Finset ι) (f : κ → β)
    (p : β → Bool) {g : ι → κ} {a : ι} (ha : a ∈ s) (hg : ∀ i, g i = g a → i = a) (v : β) :
    tally s (fun i => p (Function.update f (g a) v (g i))) + (p (f (g a))).toNat =
      tally s (fun i => p (f (g i))) + (p v).toNat := by
  have hcomp : (fun i => Function.update f (g a) v (g i)) = Function.update (fun i => f (g i)) a v := by
    funext i
    by_cases hi : i = a
    · subst hi
      simp
    · rw [Function.update_of_ne hi, Function.update_of_ne fun h => hi (hg i h)]
  have := tally_update s (fun i => f (g i)) p ha v
  rwa [← hcomp] at this

/-- The members whose key is at most that of `a`, which no other one has. -/
theorem tally_lt_succ [DecidableEq ι] (s : Finset ι) (p : ι → Bool) (key : ι → Nat) {a : ι} (ha : a ∈ s)
    (hinj : ∀ i ∈ s, key i = key a → i = a) :
    tally s (fun i => p i && decide (key i < key a + 1)) =
      tally s (fun i => p i && decide (key i < key a)) + (p a).toNat := by
  have hrest : s.filter (fun i => (p i && decide (key i < key a + 1)) = true) =
      s.filter (fun i => (p i && decide (key i < key a)) = true) ∪ if p a then {a} else ∅ := by
    ext i
    by_cases hi : i = a
    · subst hi
      cases hp : p i <;> simp [ha, hp]
    · have hnot : i ∉ (if p a then {a} else ∅ : Finset ι) := by
        cases p a <;> simp [hi]
      rw [Finset.mem_union, or_iff_left hnot, Finset.mem_filter, Finset.mem_filter]
      refine and_congr_right fun his => ?_
      have hne : key i ≠ key a := fun he => hi (hinj i his he)
      have hlt : key i < key a + 1 ↔ key i < key a := by omega
      simp only [Bool.and_eq_true, decide_eq_true_eq, hlt]
  unfold tally
  rw [hrest]
  cases hpa : p a
  · simp
  · rw [if_pos rfl, Finset.card_union_of_disjoint (by simp)]
    rfl

end Tally
