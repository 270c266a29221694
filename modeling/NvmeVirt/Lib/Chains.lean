import Mathlib.Data.Finset.Lattice.Fold
import Mathlib.Data.Finset.Range
import Mathlib.Data.List.Find
import Mathlib.Data.List.Nodup
import Mathlib.Data.List.TakeWhile

/-!
# Coalesced chains in an array

The cells of an array hold entries; an occupied cell may name another cell as the next one of its
chain. Chains share their tails, and a cell that is named may be vacant.

* `Chain occ next i l`: the occupied cells from `i` on are `l`, up to a vacant cell or the end.
* `Acyclic dom occ next`: a vacant cell has no next one, every link is inside `dom`, and there is
  a rank that rises along every link between occupied cells. Then every chain ends
  (`Acyclic.exists_chain`). To vacate a cell keeps this (`Acyclic.vacate`), and so does to occupy a
  vacant cell (`Acyclic.occupy`).
* `Reaches occ next a i`: the links lead from `i` to the occupied cell `a`.
* Vacating a cell cuts every chain in front of it (`Chain.vacate`); a search then finds what it
  found before unless the cell is among those it came by (`find_before`). A new entry that is linked to the end
  of a chain ends it (`Chain.append`), and every other chain grows at most (`Chain.prefix_of_le`).
-/

namespace Chains

open Function

variable {ι : Type} {occ : ι → Bool} {next : ι → Option ι} {i n p : ι} {l : List ι}

/-- The occupied cells of the chain from `i` on. -/
inductive Chain (occ : ι → Bool) (next : ι → Option ι) : ι → List ι → Prop
  | vacant {i : ι} (h : occ i = false) : Chain occ next i []
  | last {i : ι} (h : occ i = true) (hn : next i = none) : Chain occ next i [i]
  | link {i j : ι} {l : List ι} (h : occ i = true) (hn : next i = some j)
      (hc : Chain occ next j l) : Chain occ next i (i :: l)

theorem Chain.occupied (h : Chain occ next i l) {a : ι} (ha : a ∈ l) : occ a = true := by
  induction h with
  | vacant h => cases ha
  | last h hn => rwa [List.mem_singleton.mp ha]
  | link h hn hc ih =>
    rcases List.mem_cons.mp ha with rfl | ha
    · exact h
    · exact ih ha

theorem Chain.head (h : Chain occ next i l) (ho : occ i = true) : ∃ l', l = i :: l' := by
  cases h with
  | vacant h => rw [h] at ho; cases ho
  | last h hn => exact ⟨[], rfl⟩
  | link h hn hc => exact ⟨_, rfl⟩

theorem Chain.unique {l' : List ι} (h : Chain occ next i l) (h' : Chain occ next i l') : l = l' := by
  induction h generalizing l' with
  | vacant h => cases h' <;> simp_all
  | last h hn => cases h' <;> simp_all
  | link h hn hc ih =>
    cases h' with
    | vacant h' => simp_all
    | last h' hn' => simp_all
    | link h' hn' hc' =>
      obtain rfl := Option.some.inj (hn.symm.trans hn')
      rw [ih hc']

/-- The last cell of a chain has no occupied next one. -/
theorem Chain.next_last (h : Chain occ next i l) (hl : l.getLast? = some p) {j : ι}
    (hn : next p = some j) : occ j = false := by
  induction h with
  | vacant h => cases hl
  | @last i h hx =>
    obtain rfl : i = p := by simpa using hl
    rw [hx] at hn
    cases hn
  | @link i k l h hx hc ih =>
    cases hc with
    | vacant hk =>
      obtain rfl : i = p := by simpa using hl
      obtain rfl := Option.some.inj (hx.symm.trans hn)
      exact hk
    | last hk hxk => exact ih (by simpa using hl)
    | link hk hxk hck => exact ih (by simpa using hl)

/-- More occupied cells, and all the links between those that were occupied: the chains grow. -/
theorem Chain.prefix_of_le {occ' : ι → Bool} {next' : ι → Option ι} {l' : List ι}
    (h : Chain occ next i l) (h' : Chain occ' next' i l')
    (hocc : ∀ i, occ i = true → occ' i = true)
    (hnext : ∀ i j, next i = some j → occ j = true → next' i = some j) : l <+: l' := by
  induction h generalizing l' with
  | vacant h => exact List.nil_prefix
  | last h hn =>
    obtain ⟨l'', rfl⟩ := h'.head (hocc _ h)
    exact ⟨l'', rfl⟩
  | @link i j l h hn hc ih =>
    cases hoj : occ j with
    | false =>
      obtain ⟨l'', rfl⟩ := h'.head (hocc _ h)
      obtain rfl : l = [] := by cases hc <;> simp_all
      exact ⟨l'', rfl⟩
    | true =>
      have hn' := hnext i j hn hoj
      cases h' with
      | vacant h' => rw [hocc i h] at h'; cases h'
      | last h' hx => rw [hn'] at hx; cases hx
      | link h' hx hc' =>
        obtain rfl := Option.some.inj (hn'.symm.trans hx)
        exact List.cons_prefix_cons.mpr ⟨rfl, ih hc'⟩

/-! ## Reachable cells -/

/-- The links lead from `i` to the occupied cell `a`, by occupied cells only. -/
inductive Reaches (occ : ι → Bool) (next : ι → Option ι) (a : ι) : ι → Prop
  | here (h : occ a = true) : Reaches occ next a a
  | link {i j : ι} (h : occ i = true) (hn : next i = some j) (hr : Reaches occ next a j) :
      Reaches occ next a i

theorem Reaches.occupied {a : ι} (h : Reaches occ next a i) : occ i = true := by
  cases h with
  | here h => exact h
  | link h _ _ => exact h

theorem Chain.reaches (h : Chain occ next i l) {a : ι} (ha : a ∈ l) : Reaches occ next a i := by
  induction h with
  | vacant h => cases ha
  | last h hn =>
    obtain rfl := List.mem_singleton.mp ha
    exact .here h
  | link h hn hc ih =>
    rcases List.mem_cons.mp ha with rfl | ha
    · exact .here h
    · exact .link h hn (ih ha)

/-- More occupied cells, and all the links to those that were occupied: nothing is lost. -/
theorem Reaches.grow {occ' : ι → Bool} {next' : ι → Option ι} {a : ι} (h : Reaches occ next a i)
    (hocc : ∀ i, occ i = true → occ' i = true)
    (hnext : ∀ i j, next i = some j → occ j = true → next' i = some j) :
    Reaches occ' next' a i := by
  induction h with
  | here h => exact .here (hocc _ h)
  | link h hn hr ih => exact .link (hocc _ h) (hnext _ _ hn hr.occupied) ih

/-! ## Searches -/

/-- The members of `l` up to the first one with `p`. -/
def upTo (p : ι → Bool) : List ι → List ι
  | [] => []
  | a :: l => if p a then [a] else a :: upTo p l

/-- A list cut in front of `d`. -/
def before [DecidableEq ι] (d : ι) (l : List ι) : List ι := l.takeWhile fun a => decide (a ≠ d)

@[simp] theorem before_nil [DecidableEq ι] (d : ι) : before d [] = [] := rfl

@[simp] theorem before_cons [DecidableEq ι] (d a : ι) (l : List ι) :
    before d (a :: l) = if a = d then [] else a :: before d l := by
  by_cases h : a = d <;> simp [before, h]

theorem mem_before [DecidableEq ι] {d a : ι} (h : a ∈ before d l) : a ≠ d := by
  simpa using List.mem_takeWhile_imp h

theorem find_before_of_none [DecidableEq ι] {q : ι → Bool} (d : ι) (h : l.find? q = none) :
    (before d l).find? q = none := by
  rw [List.find?_eq_none] at *
  intro a ha
  exact h a (List.takeWhile_subset _ ha)

theorem find_before_some [DecidableEq ι] {q : ι → Bool} {d a : ι}
    (h : (before d l).find? q = some a) : l.find? q = some a :=
  (List.takeWhile_prefix _).find?_eq_some h

/-- A search of a cut list finds the same exactly when it does not come by the cell of the cut. -/
theorem find_before [DecidableEq ι] {q : ι → Bool} {d a : ι} (h : l.find? q = some a) :
    (before d l).find? q = some a ↔ d ∉ upTo q l := by
  induction l with
  | nil => cases h
  | cons b l ih =>
    rw [before_cons, upTo]
    by_cases hd : b = d
    · subst hd
      by_cases hq : q b = true <;> simp [hq]
    · by_cases hq : q b = true
      · obtain rfl : b = a := by simpa [hq] using h
        simp [hq, hd, Ne.symm hd]
      · rw [List.find?_cons_of_neg hq] at h
        simp [hq, hd, Ne.symm hd, ih h]

/-! ## Acyclic links -/

/-- No chain comes back to a cell. -/
structure Acyclic (dom : Finset ι) (occ : ι → Bool) (next : ι → Option ι) : Prop where
  vacant : ∀ i, occ i = false → next i = none
  closed : ∀ i j, next i = some j → i ∈ dom ∧ j ∈ dom
  ranked : ∃ rank : ι → Nat, ∀ i j, next i = some j → occ j = true → rank i < rank j

section

variable {dom : Finset ι}

theorem Acyclic.exists_chain (h : Acyclic dom occ next) (hi : i ∈ dom) :
    ∃ l, Chain occ next i l ∧ l.Nodup ∧ ∀ a ∈ l, a ∈ dom := by
  obtain ⟨rank, hr⟩ := h.ranked
  suffices H : ∀ b, ∀ i ∈ dom, dom.sup rank - rank i < b →
      ∃ l, Chain occ next i l ∧ l.Nodup ∧ ∀ a ∈ l, a ∈ dom ∧ rank i ≤ rank a by
    obtain ⟨l, hc, hn, hl⟩ := H _ i hi (Nat.lt_succ_self _)
    exact ⟨l, hc, hn, fun a ha => (hl a ha).1⟩
  intro b
  -- The rank rises along the chain, so the distance to the largest rank bounds its length.
  induction b with
  | zero => intro i hi hb; omega
  | succ b ih =>
    intro i hi hb
    cases ho : occ i with
    | false => exact ⟨[], .vacant ho, List.nodup_nil, by simp⟩
    | true =>
      cases hn : next i with
      | none => exact ⟨[i], .last ho hn, by simp, by simp [hi]⟩
      | some j =>
        have hj := (h.closed i j hn).2
        cases hoj : occ j with
        | false => exact ⟨[i], .link ho hn (.vacant hoj), by simp, by simp [hi]⟩
        | true =>
          have hlt := hr i j hn hoj
          have hle : rank j ≤ dom.sup rank := Finset.le_sup hj
          obtain ⟨l, hc, hnd, hl⟩ := ih j hj (by omega)
          refine ⟨i :: l, .link ho hn hc, List.nodup_cons.mpr ⟨fun hmem => ?_, hnd⟩, ?_⟩
          · have := (hl i hmem).2
            omega
          · intro a ha
            rcases List.mem_cons.mp ha with rfl | ha
            · exact ⟨hi, Nat.le_refl _⟩
            · exact ⟨(hl a ha).1, by have := (hl a ha).2; omega⟩

theorem length_le_card [DecidableEq ι] (hn : l.Nodup) (hd : ∀ a ∈ l, a ∈ dom) :
    l.length ≤ dom.card := by
  rw [← List.toFinset_card_of_nodup hn]
  exact Finset.card_le_card fun a ha => hd a (List.mem_toFinset.mp ha)

/-! ## Vacating and occupying a cell -/

variable [DecidableEq ι]

theorem Chain.vacate (d : ι) (h : Chain occ next i l) :
    Chain (update occ d false) (update next d none) i (before d l) := by
  induction h with
  | @vacant i h =>
    refine .vacant ?_
    by_cases hd : i = d <;> simp [hd, h]
  | @last i h hn =>
    by_cases hd : i = d
    · subst hd; simpa using .vacant (by simp)
    · simpa [hd] using Chain.last (by simpa [hd] using h) (by simpa [hd] using hn)
  | @link i j l h hn hc ih =>
    by_cases hd : i = d
    · subst hd; simpa using .vacant (by simp)
    · simpa [hd] using Chain.link (by simpa [hd] using h) (by simpa [hd] using hn) ih

theorem Acyclic.vacate (h : Acyclic dom occ next) (d : ι) :
    Acyclic dom (update occ d false) (update next d none) where
  vacant i hi := by
    by_cases hd : i = d
    · simp [hd]
    · simpa [hd] using h.vacant i (by simpa [hd] using hi)
  closed i j hn := by
    by_cases hd : i = d
    · simp [hd] at hn
    · exact h.closed i j (by simpa [hd] using hn)
  ranked := by
    obtain ⟨rank, hr⟩ := h.ranked
    refine ⟨rank, fun i j hn ho => ?_⟩
    by_cases hd : i = d
    · simp [hd] at hn
    · refine hr i j (by simpa [hd] using hn) ?_
      by_cases hj : j = d
      · simp [hj] at ho
      · simpa [hj] using ho

/-- An entry in a vacant cell, which may become the next one of occupied cells. -/
theorem Acyclic.occupy (h : Acyclic dom occ next) (hn : n ∈ dom) (hv : occ n = false)
    {next' : ι → Option ι}
    (hnext : ∀ i j, next' i = some j → next i = some j ∨ i ∈ dom ∧ occ i = true ∧ j = n) :
    Acyclic dom (update occ n true) next' where
  vacant i hi := by
    have hin : i ≠ n := by rintro rfl; simp at hi
    have hoi : occ i = false := by simpa [hin] using hi
    cases hx : next' i with
    | none => rfl
    | some j =>
      rcases hnext i j hx with hx | ⟨-, ho, -⟩
      · rw [h.vacant i hoi] at hx; cases hx
      · rw [hoi] at ho; cases ho
  closed i j hx := by
    rcases hnext i j hx with hx | ⟨hi, -, rfl⟩
    · exact h.closed i j hx
    · exact ⟨hi, hn⟩
  ranked := by
    obtain ⟨rank, hr⟩ := h.ranked
    -- The new entry gets the highest rank, and no next one.
    refine ⟨update rank n (dom.sup rank + 1), fun i j hx ho => ?_⟩
    have hi : i ∈ dom ∧ i ≠ n := by
      rcases hnext i j hx with hx | ⟨hi, hoi, -⟩
      · refine ⟨(h.closed i j hx).1, ?_⟩
        rintro rfl
        rw [h.vacant i hv] at hx
        cases hx
      · refine ⟨hi, ?_⟩
        rintro rfl
        rw [hv] at hoi
        cases hoi
    have hle : rank i ≤ dom.sup rank := Finset.le_sup hi.1
    by_cases hj : j = n
    · simp only [hj, update_self, update_of_ne hi.2]
      omega
    · rcases hnext i j hx with hx | ⟨-, -, rfl⟩
      · simpa [hj, hi.2] using hr i j hx (by simpa [hj] using ho)
      · exact absurd rfl hj

/-- A new entry at the end of a chain. -/
theorem Chain.append (h : Chain occ next i l) (hv : occ n = false) (hn : next n = none)
    (hl : l.getLast? = some p) (hd : l.Nodup) :
    Chain (update occ n true) (update next p (some n)) i (l ++ [n]) := by
  have hpn : p ≠ n := by
    rintro rfl
    have := h.occupied (List.mem_of_getLast? hl)
    rw [hv] at this
    cases this
  have hend : Chain (update occ n true) (update next p (some n)) n [n] :=
    .last (by simp) (by simpa [Ne.symm hpn] using hn)
  induction h with
  | vacant h => cases hl
  | @last i h hx =>
    obtain rfl : i = p := by simpa using hl
    exact .link (by simpa [hpn] using h) (by simp) hend
  | @link i j l h hx hc ih =>
    have hin : i ≠ n := by rintro rfl; rw [h] at hv; cases hv
    cases l with
    | nil =>
      obtain rfl : i = p := by simpa using hl
      exact .link (by simpa [hin] using h) (by simp) hend
    | cons a l =>
      have hl' : (a :: l).getLast? = some p := by simpa using hl
      have hip : i ≠ p := by
        rintro rfl
        exact (List.nodup_cons.mp hd).1 (List.mem_of_getLast? hl')
      exact .link (by simpa [hin] using h) (by simpa [hip] using hx)
        (ih hl' (List.nodup_cons.mp hd).2)

end

end Chains
