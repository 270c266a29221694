import Mathlib.Data.Nat.Init
import Mathlib.Tactic.Common

/-!
# Infinite runs

A run of a total step function that does not end, and rules for what it reaches.

* `always`: what every step keeps from some time on.
* `Run.wait`: a value that only a certain kind of step changes is the same when the next such step comes.
* `reach`: a goal is reached if a rank falls until it is.
-/

namespace Fair

variable {σ α γ : Type} {step : σ → α → σ}

/-- The states of a run and its steps. -/
structure Run (step : σ → α → σ) where
  state : Nat → σ
  act : Nat → α
  next : ∀ n, state (n + 1) = step (state n) (act n)

/-- The run with the given steps. -/
def Run.ofActs (step : σ → α → σ) (s : σ) (act : Nat → α) : Run step where
  state n := Nat.rec s (fun n s => step s (act n)) n
  act := act
  next _ := rfl

variable (r : Run step) {n : Nat}

theorem always {P : Nat → Prop} (hkeep : ∀ m, n ≤ m → P m → P (m + 1)) (h : P n) :
    ∀ m, n ≤ m → P m := by
  intro m hm
  induction m, hm using Nat.le_induction with
  | base => exact h
  | succ m hm ih => exact hkeep m hm ih

theorem Run.wait {f : σ → γ} {A : α → Prop}
    (hkeep : ∀ m, f (r.state m) = f (r.state n) → ¬ A (r.act m) → f (r.state (m + 1)) = f (r.state m))
    (h : ∃ m, n ≤ m ∧ A (r.act m)) : ∃ m, n ≤ m ∧ A (r.act m) ∧ f (r.state m) = f (r.state n) := by
  obtain ⟨m, hm, hA⟩ := h
  obtain ⟨d, rfl⟩ := Nat.exists_eq_add_of_le hm
  clear hm
  induction d using Nat.strong_induction_on with
  | _ d ih =>
    by_cases hearlier : ∃ d' < d, A (r.act (n + d'))
    · obtain ⟨d', hd', hA'⟩ := hearlier
      exact ih d' hd' hA'
    -- no such step comes before, so the value is kept all the time
    have hsame : ∀ e ≤ d, f (r.state (n + e)) = f (r.state n) := by
      intro e he
      induction e with
      | zero => rfl
      | succ e ihe =>
        have heq := ihe (by omega)
        rw [← heq]
        exact hkeep (n + e) heq fun hA' => hearlier ⟨e, by omega, hA'⟩
    exact ⟨n + d, Nat.le_add_right .., hA, hsame d (Nat.le_refl _)⟩

theorem reach {P goal : Nat → Prop} (rank : Nat → Nat)
    (h : ∀ n, P n → goal n ∨ ∃ m, n ≤ m ∧ P m ∧ rank m < rank n) (hP : P n) : ∃ m, n ≤ m ∧ goal m := by
  generalize hk : rank n = k
  induction k using Nat.strong_induction_on generalizing n with
  | _ k ih =>
    obtain hgoal | ⟨m, hm, hPm, hlt⟩ := h n hP
    · exact ⟨n, Nat.le_refl _, hgoal⟩
    · obtain ⟨m', hm', hgoal⟩ := ih (rank m) (hk ▸ hlt) hPm rfl
      exact ⟨m', Nat.le_trans hm hm', hgoal⟩

end Fair
