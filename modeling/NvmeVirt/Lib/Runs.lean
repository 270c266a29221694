import Mathlib.Data.List.Infix

/-!
# Runs of a total step function

The states of a run over a list of inputs are `l.foldl step s` for the beginnings `l` of the list.

* `invariant`: what a step keeps holds in every state of a run.
* `good_iff`: where a step that satisfies `P` keeps the invariant and one that does not leads out of
  the good states, the states of a run are good exactly if its steps satisfy `P`.
-/

namespace Runs

variable {σ α : Type} {step : σ → α → σ} {I Good : σ → Prop} {P : σ → α → Prop} {s : σ} {inputs : List α}

/-- Every state of the run is in `Good`. -/
def AllStates (step : σ → α → σ) (Good : σ → Prop) (s : σ) (inputs : List α) : Prop :=
  ∀ l, l <+: inputs → Good (l.foldl step s)

/-- Every step of the run satisfies `P`. -/
def AllSteps (step : σ → α → σ) (P : σ → α → Prop) (s : σ) (inputs : List α) : Prop :=
  ∀ l a, l ++ [a] <+: inputs → P (l.foldl step s) a

theorem allSteps_nil : AllSteps step P s [] := by
  intro l a hl
  simp at hl

theorem allSteps_cons {a : α} :
    AllSteps step P s (a :: inputs) ↔ P s a ∧ AllSteps step P (step s a) inputs := by
  constructor
  · intro h
    refine ⟨h [] a (by simp), fun l b hl => ?_⟩
    exact h (a :: l) b ((List.prefix_cons_inj a).mpr hl)
  · rintro ⟨ha, h⟩ l b hl
    cases l with
    | nil =>
      obtain rfl : b = a := by simpa using hl
      exact ha
    | cons c l =>
      obtain ⟨rfl, hrest⟩ := List.cons_prefix_cons.mp hl
      exact h l b hrest

instance AllSteps.decidable (step : σ → α → σ) (P : σ → α → Prop) [∀ s a, Decidable (P s a)] :
    ∀ s inputs, Decidable (AllSteps step P s inputs)
  | _, [] => .isTrue allSteps_nil
  | s, a :: inputs =>
    haveI := AllSteps.decidable step P (step s a) inputs
    decidable_of_iff (P s a ∧ AllSteps step P (step s a) inputs) allSteps_cons.symm

theorem invariant (h : I s) (hP : AllSteps step P s inputs)
    (keep : ∀ s a, I s → P s a → I (step s a)) : AllStates step I s inputs := by
  intro l hl
  induction l using List.reverseRecOn with
  | nil => exact h
  | append_singleton l a ih =>
    rw [List.foldl_append]
    exact keep _ a (ih ((List.prefix_append l [a]).trans hl)) (hP l a hl)

theorem good_iff (h : I s) (good : ∀ s, I s → Good s) (keep : ∀ s a, I s → P s a → I (step s a))
    (leave : ∀ s a, I s → ¬ P s a → ¬ Good (step s a)) :
    AllStates step Good s inputs ↔ AllSteps step P s inputs := by
  refine ⟨fun hgood => ?_, fun hP l hl => good _ (invariant h hP keep l hl)⟩
  -- the invariant holds in every state, since no step leaves the good states
  have hI : ∀ l, l <+: inputs → I (l.foldl step s) := by
    intro l hl
    induction l using List.reverseRecOn with
    | nil => exact h
    | append_singleton l a ih =>
      have hl' := (List.prefix_append l [a]).trans hl
      have hnext := hgood _ hl
      rw [List.foldl_append] at hnext ⊢
      exact keep _ a (ih hl') (by_contra fun hno => leave _ a (ih hl') hno hnext)
  intro l a hl
  by_contra hno
  have hnext := hgood _ hl
  rw [List.foldl_append] at hnext
  exact leave _ a (hI l ((List.prefix_append l [a]).trans hl)) hno hnext

end Runs
