import Mathlib.Tactic.Common

/-!
# Ranges that follow each other

`Span` is a range of natural numbers, and `Tiles a l b` says that the spans of `l` start at `a`, each
where the one before it ends, and that the last one ends at `b`. Spans that tile a range are disjoint
and have the range as their union.

`cut room b` are the spans of a loop that goes on from `x` by at most `room x`, up to `b`. They tile the
range (`cut_tiles`), and enough fuel is as good as any (`cut_fuel`).

`Span.InPlace base stride i` is a span in place `i` of an array of places of one size. Spans in two places are
disjoint (`InPlace.disjoint_of_lt`).
-/

namespace Spans

/-- The numbers from `start` on, `len` of them. -/
structure Span where
  start : Nat
  len : Nat
  deriving DecidableEq, Repr

/-- `x` is in the range. -/
def Span.Has (r : Span) (x : Nat) : Prop := r.start ≤ x ∧ x < r.start + r.len

/-- The spans of `l` follow each other from `a` to `b`. -/
def Tiles : Nat → List Span → Nat → Prop
  | a, [], b => a = b
  | a, r :: l, b => r.start = a ∧ Tiles (a + r.len) l b

/-- The spans of the loop `for (x = a; x < b; x += min(b - x, room(x)))`. -/
def cut (room : Nat → Nat) (b : Nat) : Nat → Nat → List Span
  | 0, _ => []
  | fuel + 1, a =>
    if a < b then
      { start := a, len := min (b - a) (room a) } :: cut room b fuel (a + min (b - a) (room a))
    else []

variable {a b : Nat} {l : List Span}

theorem Tiles.append {c : Nat} {l' : List Span} (h : Tiles a l b) (h' : Tiles b l' c) :
    Tiles a (l ++ l') c := by
  induction l generalizing a with
  | nil =>
    obtain rfl : a = b := h
    exact h'
  | cons r l ih => exact ⟨h.1, ih h.2⟩

theorem Tiles.le (h : Tiles a l b) : a ≤ b := by
  induction l generalizing a with
  | nil => exact Nat.le_of_eq h
  | cons r l ih => exact Nat.le_trans (Nat.le_add_right _ _) (ih h.2)

/-- The union of the spans. -/
theorem Tiles.has_iff (h : Tiles a l b) (x : Nat) : (∃ r ∈ l, r.Has x) ↔ a ≤ x ∧ x < b := by
  induction l generalizing a with
  | nil =>
    obtain rfl : a = b := h
    simp
  | cons r l ih =>
    obtain ⟨hstart, hl⟩ := h
    have hle := hl.le
    simp only [List.mem_cons, exists_eq_or_imp, ih hl]
    unfold Span.Has
    omega

/-- A span is between the ends. -/
theorem Tiles.mem_le (h : Tiles a l b) {r : Span} (hr : r ∈ l) : a ≤ r.start ∧ r.start + r.len ≤ b := by
  induction l generalizing a with
  | nil => cases hr
  | cons s l ih =>
    obtain ⟨hstart, hl⟩ := h
    obtain rfl | hr := List.mem_cons.mp hr
    · have := hl.le
      omega
    · obtain ⟨hle, hend⟩ := ih hl hr
      omega

theorem Tiles.pairwise (h : Tiles a l b) : l.Pairwise fun r s => ∀ x, ¬ (r.Has x ∧ s.Has x) := by
  induction l generalizing a with
  | nil => exact List.Pairwise.nil
  | cons r l ih =>
    obtain ⟨hstart, hl⟩ := h
    refine List.Pairwise.cons (fun s hs x hx => ?_) (ih hl)
    have := ((hl.has_iff x).mp ⟨s, hs, hx.2⟩).1
    have := hx.1.2
    omega

theorem Tiles.disjoint (h : Tiles a l b) {i j : Nat} {r s : Span} (hi : l[i]? = some r) (hj : l[j]? = some s)
    (hne : i ≠ j) (x : Nat) : ¬ (r.Has x ∧ s.Has x) := by
  obtain ⟨hil, rfl⟩ := List.getElem?_eq_some_iff.mp hi
  obtain ⟨hjl, rfl⟩ := List.getElem?_eq_some_iff.mp hj
  obtain hlt | hlt := Nat.lt_or_gt_of_ne hne
  · exact List.pairwise_iff_getElem.mp h.pairwise i j hil hjl hlt x
  · exact fun hx => List.pairwise_iff_getElem.mp h.pairwise j i hjl hil hlt x hx.symm

theorem Tiles.isChain (h : Tiles a l b) : l.IsChain fun r s => r.start + r.len = s.start := by
  induction l generalizing a with
  | nil => exact List.IsChain.nil
  | cons r l ih =>
    obtain ⟨hstart, hl⟩ := h
    cases l with
    | nil => exact List.IsChain.singleton r
    | cons s l => exact List.IsChain.cons_cons (by rw [hstart, hl.1]) (ih hl)

section Cut

variable {room : Nat → Nat} {fuel : Nat}

/-- The loop takes the range to its end when there is always room. -/
theorem cut_tiles (hroom : ∀ x, a ≤ x → x < b → 0 < room x) (hab : a ≤ b) (hf : b - a ≤ fuel) :
    Tiles a (cut room b fuel a) b := by
  induction fuel generalizing a with
  | zero =>
    show a = b
    omega
  | succ fuel ih =>
    unfold cut
    by_cases h : a < b
    · have := hroom a (Nat.le_refl a) h
      generalize hlen : min (b - a) (room a) = len
      rw [if_pos h]
      exact ⟨rfl, ih (fun x hx hxb => hroom x (by omega) hxb) (show a + len ≤ b by omega)
        (show b - (a + len) ≤ fuel by omega)⟩
    · rw [if_neg h]
      show a = b
      omega

theorem mem_cut {r : Span} (h : r ∈ cut room b fuel a) :
    a ≤ r.start ∧ r.start < b ∧ r.len = min (b - r.start) (room r.start) := by
  induction fuel generalizing a with
  | zero => cases h
  | succ fuel ih =>
    unfold cut at h
    split at h
    · rcases List.mem_cons.mp h with rfl | h
      · exact ⟨Nat.le_refl a, ‹a < b›, rfl⟩
      · obtain ⟨hle, hr⟩ := ih h
        exact ⟨by omega, hr⟩
    · cases h

/-- More fuel than the range is long changes nothing. -/
theorem cut_fuel (hroom : ∀ x, a ≤ x → x < b → 0 < room x) {fuel' : Nat} (hf : b - a ≤ fuel)
    (hf' : b - a ≤ fuel') : cut room b fuel a = cut room b fuel' a := by
  induction fuel generalizing a fuel' with
  | zero =>
    cases fuel' with
    | zero => rfl
    | succ fuel' => rw [cut, cut, if_neg (by omega)]
  | succ fuel ih =>
    cases fuel' with
    | zero => rw [cut, cut, if_neg (by omega)]
    | succ fuel' =>
      unfold cut
      by_cases h : a < b
      · have := hroom a (Nat.le_refl a) h
        have hrest : b - (a + min (b - a) (room a)) ≤ fuel := by omega
        rw [if_pos h, if_pos h,
          ih (fun x hx hxb => hroom x (by omega) hxb) hrest (show _ ≤ fuel' by omega)]
      · rw [if_neg h, if_neg h]

end Cut

section Places

variable {base stride i j n x : Nat} {r s : Span}

/-- `r` begins at place `i` of the places of `stride` numbers from `base` on, and is no longer than one. -/
structure Span.InPlace (base stride i : Nat) (r : Span) : Prop where
  start : r.start = base + i * stride
  len : r.len ≤ stride

theorem Span.InPlace.has (h : r.InPlace base stride i) (hx : r.Has x) :
    base + i * stride ≤ x ∧ x < base + (i + 1) * stride := by
  have hstart := h.start
  have hlen := h.len
  have hsucc : (i + 1) * stride = i * stride + stride := by rw [Nat.add_mul, Nat.one_mul]
  unfold Span.Has at hx
  omega

theorem Span.InPlace.disjoint_of_lt (hr : r.InPlace base stride i) (hs : s.InPlace base stride j)
    (hij : i < j) : ¬ (r.Has x ∧ s.Has x) := by
  rintro ⟨hrx, hsx⟩
  have hle : (i + 1) * stride ≤ j * stride := Nat.mul_le_mul_right stride hij
  have := (hr.has hrx).2
  have := (hs.has hsx).1
  omega

theorem Span.InPlace.has_lt (h : r.InPlace base stride i) (hi : i < n) (hx : r.Has x) :
    base ≤ x ∧ x < base + n * stride := by
  have hle : (i + 1) * stride ≤ n * stride := Nat.mul_le_mul_right stride hi
  have := h.has hx
  omega

end Places

end Spans
