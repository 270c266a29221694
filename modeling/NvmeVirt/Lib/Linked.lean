import Mathlib.Data.List.Basic
import Mathlib.Logic.Function.Basic

/-!
# Linked lists in an array

The links of a list that is threaded through the entries of an array are two functions of the
entry, `next` and `prev`.

* `Next f l t`: `f` leads from each member of `l` to the one after it, and from the last to `t`.
* `Prev f s l`: `f` leads from each member to the one before it, and from the first to `s`.

Both split at an append (`next_append`, `prev_append`), and neither reads an entry outside the list
(`Next.congr`, `Prev.congr`).
-/

namespace Linked

variable {ι : Type} {f g : ι → ι} {l l₁ l₂ : List ι} {s t : ι}

/-- `f` leads through `l`, and from its last member to `t`. -/
def Next (f : ι → ι) : List ι → ι → Prop
  | [], _ => True
  | a :: l, t => f a = l.headD t ∧ Next f l t

/-- `f` leads through `l` backwards, and from its first member to `s`. -/
def Prev (f : ι → ι) : ι → List ι → Prop
  | _, [] => True
  | s, a :: l => f a = s ∧ Prev f a l

theorem next_append : Next f (l₁ ++ l₂) t ↔ Next f l₁ (l₂.headD t) ∧ Next f l₂ t := by
  induction l₁ with
  | nil => simp [Next]
  | cons a l ih =>
    have hhead : (l ++ l₂).headD t = l.headD (l₂.headD t) := by cases l <;> rfl
    simp only [List.cons_append, Next, ih, hhead, and_assoc]

theorem prev_append : Prev f s (l₁ ++ l₂) ↔ Prev f s l₁ ∧ Prev f (l₁.getLastD s) l₂ := by
  induction l₁ generalizing s with
  | nil => simp [Prev]
  | cons a l ih =>
    have hlast : (a :: l).getLastD s = l.getLastD a := by cases l <;> rfl
    simp only [List.cons_append, Prev, ih, hlast, and_assoc]

theorem Next.congr (h : Next f l t) (hg : ∀ a ∈ l, g a = f a) : Next g l t := by
  induction l with
  | nil => trivial
  | cons a l ih =>
    exact ⟨(hg a (by simp)).trans h.1, ih h.2 fun b hb => hg b (by simp [hb])⟩

theorem Prev.congr (h : Prev f s l) (hg : ∀ a ∈ l, g a = f a) : Prev g s l := by
  induction l generalizing s with
  | nil => trivial
  | cons a l ih =>
    exact ⟨(hg a (by simp)).trans h.1, ih h.2 fun b hb => hg b (by simp [hb])⟩

theorem Next.mem (h : Next f l t) {a : ι} (ha : a ∈ l) : f a = t ∨ f a ∈ l := by
  induction l with
  | nil => cases ha
  | cons b l ih =>
    rcases List.mem_cons.mp ha with rfl | ha
    · rw [h.1]
      cases l with
      | nil => exact .inl rfl
      | cons c l => exact .inr (by simp)
    · exact (ih h.2 ha).imp_right fun hm => List.mem_cons_of_mem _ hm

theorem Prev.mem (h : Prev f s l) {a : ι} (ha : a ∈ l) : f a = s ∨ f a ∈ l := by
  induction l generalizing s with
  | nil => cases ha
  | cons b l ih =>
    rcases List.mem_cons.mp ha with rfl | ha
    · exact .inl h.1
    · rcases ih h.2 ha with h' | h'
      · exact .inr (by simp [h'])
      · exact .inr (List.mem_cons_of_mem _ h')

/-- The last member leads somewhere else. -/
theorem Next.retarget {c u : ι} (h : Next f (l ++ [c]) t) (hg : ∀ a ∈ l, g a = f a) (hgc : g c = u) :
    Next g (l ++ [c]) u := by
  rw [next_append] at h ⊢
  exact ⟨h.1.congr hg, hgc, trivial⟩

/-! Linking `e` in between `l₁` and `l₂`. -/

theorem Next.insert {e : ι} (h : Next f (l₁ ++ l₂) t) (hnd : (l₁ ++ l₂).Nodup) (he : e ∉ l₁ ++ l₂)
    (hg : ∀ a ≠ e, l₁.getLast? ≠ some a → g a = f a) (hgl : ∀ c, l₁.getLast? = some c → g c = e)
    (hge : g e = l₂.headD t) : Next g (l₁ ++ e :: l₂) t := by
  rw [next_append] at h ⊢
  rw [List.nodup_append] at hnd
  have hne {a : ι} (ha : a ∈ l₁ ++ l₂) : a ≠ e := by
    rintro rfl; exact he ha
  refine ⟨?_, hge, h.2.congr fun a ha => hg a (hne (List.mem_append_right _ ha)) fun hl => ?_⟩
  · obtain rfl | ⟨l, c, rfl⟩ := List.eq_nil_or_concat l₁
    · trivial
    rw [List.concat_eq_append] at *
    refine h.1.retarget (fun a ha => hg a (hne (by simp [ha])) ?_) (hgl c List.getLast?_concat)
    rw [List.getLast?_concat, ne_eq, Option.some_inj]
    rintro rfl
    exact (List.nodup_append.mp hnd.1).2.2 _ ha _ (List.mem_singleton_self _) rfl
  · exact hnd.2.2 a (List.mem_of_getLast? hl) a ha rfl

theorem Prev.insert {e : ι} (h : Prev f s (l₁ ++ l₂)) (hnd : (l₁ ++ l₂).Nodup) (he : e ∉ l₁ ++ l₂)
    (hg : ∀ a ≠ e, l₂.head? ≠ some a → g a = f a) (hgh : ∀ d, l₂.head? = some d → g d = e)
    (hge : g e = l₁.getLastD s) : Prev g s (l₁ ++ e :: l₂) := by
  rw [prev_append] at h ⊢
  rw [List.nodup_append] at hnd
  have hne {a : ι} (ha : a ∈ l₁ ++ l₂) : a ≠ e := by
    rintro rfl; exact he ha
  refine ⟨h.1.congr fun a ha => hg a (hne (List.mem_append_left _ ha)) fun hd => ?_, hge, ?_⟩
  · exact hnd.2.2 a ha a (List.mem_of_head? hd) rfl
  · cases l₂ with
    | nil => trivial
    | cons d l₂ =>
      refine ⟨hgh d rfl, h.2.2.congr fun a ha => hg a (hne (by simp [ha])) ?_⟩
      rw [List.head?_cons, ne_eq, Option.some_inj]
      rintro rfl
      exact (List.nodup_cons.mp hnd.2.1).1 ha

/-! Both links of one list. -/

/-- The previous entry of the next one. -/
theorem prev_next {a : ι} (hn : Next f l t) (hp : Prev g s l) (ha : a ∈ l) (h : f a ≠ t) : g (f a) = a := by
  obtain ⟨l₁, l₂, rfl⟩ := List.append_of_mem ha
  have hfa : f a = l₂.headD t := (next_append.mp hn).2.1
  cases l₂ with
  | nil => exact absurd hfa h
  | cons c l₂ =>
    have hc : g c = a := (prev_append.mp hp).2.2.1
    rw [hfa]
    exact hc

/-- The next entry of the previous one. -/
theorem next_prev {a : ι} (hn : Next f l t) (hp : Prev g s l) (ha : a ∈ l) (h : g a ≠ s) : f (g a) = a := by
  obtain ⟨l₁, l₂, rfl⟩ := List.append_of_mem ha
  have hga : g a = l₁.getLastD s := (prev_append.mp hp).2.1
  obtain rfl | ⟨l, c, rfl⟩ := List.eq_nil_or_concat l₁
  · exact absurd hga h
  · rw [List.concat_eq_append] at hga hn
    rw [hga, List.getLastD_concat]
    rw [List.append_assoc] at hn
    exact (next_append.mp hn).2.1

end Linked
