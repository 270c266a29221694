import Mathlib.Data.List.Pairwise
import Mathlib.Order.Lattice
import Mathlib.Order.MinMax

/-!
# Lists sorted up to a threshold

`Sorted f t l`: the keys `f` of `l` are in order, where keys up to `t` count as equal. The members
with such keys are the due ones. The order is the one of `max (f a) t`, so it is transitive, and it
stays when `t` grows.
-/

namespace Due

variable {ι α : Type} [LinearOrder α] {f g : ι → α} {t u : α} {l l₁ l₂ : List ι}

/-- `a` may stand before `b`: it is due, or not later. -/
def Before (f : ι → α) (t : α) (a b : ι) : Prop := f a ≤ max (f b) t

instance (f : ι → α) (t : α) (a b : ι) : Decidable (Before f t a b) :=
  inferInstanceAs (Decidable (_ ≤ _))

theorem before_iff {a b : ι} : Before f t a b ↔ max (f a) t ≤ max (f b) t := by
  unfold Before
  rw [max_le_iff]
  exact (and_iff_left (le_max_right _ _)).symm

theorem Before.trans {a b c : ι} (hab : Before f t a b) (hbc : Before f t b c) : Before f t a c :=
  before_iff.mpr ((before_iff.mp hab).trans (before_iff.mp hbc))

/-- The members of `l` are in order, but for those that are due. -/
def Sorted (f : ι → α) (t : α) (l : List ι) : Prop := l.Pairwise (Before f t)

namespace Sorted

theorem mono (h : Sorted f t l) (htu : t ≤ u) : Sorted f u l :=
  h.imp fun hab => le_trans hab (max_le_max_left _ htu)

theorem congr (h : Sorted f t l) (hg : ∀ a ∈ l, g a = f a) : Sorted g t l :=
  h.imp_of_mem fun ha hb hab => by
    unfold Before
    rw [hg _ ha, hg _ hb]
    exact hab

theorem of_sublist (h : Sorted f t l) (hs : l₁.Sublist l) : Sorted f t l₁ :=
  List.Pairwise.sublist hs h

/-- A new member behind the due and the earlier ones, and before the later ones. -/
theorem insert {e : ι} (h : Sorted f t (l₁ ++ l₂)) (hb : ∀ b ∈ l₂, Before f t e b)
    (hf : ∀ c, l₁.getLast? = some c → Before f t c e) : Sorted f t (l₁ ++ e :: l₂) := by
  obtain ⟨h₁, h₂, h₁₂⟩ := List.pairwise_append.mp h
  have hfront : ∀ a ∈ l₁, Before f t a e := by
    obtain rfl | ⟨l, c, rfl⟩ := List.eq_nil_or_concat l₁
    · nofun
    rw [List.concat_eq_append] at *
    have hc : Before f t c e := hf c List.getLast?_concat
    intro a ha
    rcases List.mem_append.mp ha with ha | ha
    · exact ((List.pairwise_append.mp h₁).2.2 a ha c (List.mem_singleton_self c)).trans hc
    · rw [List.mem_singleton.mp ha]
      exact hc
  refine List.pairwise_append.mpr ⟨h₁, List.pairwise_cons.mpr ⟨hb, h₂⟩, fun a ha b hb' => ?_⟩
  rcases List.mem_cons.mp hb' with rfl | hb'
  · exact hfront a ha
  · exact h₁₂ a ha b hb'

end Sorted

end Due
