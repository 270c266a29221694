import NvmeVirt.Lib.Outcome

/-!
# Refinement

A machine answers a request with a reply and a new state, or stops. A specification answers every
request. The machine refines it (`Simulates`) when a relation between the two states is kept by each
request that is allowed where it is made, and the replies are the same. Then a run of allowed requests
does not stop, and its replies are those of the specification (`Simulates.run`).
-/

namespace Refinement

open Outcome

variable {ε σ τ α ρ : Type}

/-- The replies to a list of requests, and the state after them. -/
def run (step : σ → α → Except ε (ρ × σ)) : σ → List α → Except ε (List ρ × σ)
  | s, [] => .ok ([], s)
  | s, a :: l => do
    let (reply, s) ← step s a
    let (replies, s) ← run step s l
    pure (reply :: replies, s)

/-- The replies of a specification, and its state after them. -/
def specRun (spec : τ → α → ρ × τ) : τ → List α → List ρ × τ
  | t, [] => ([], t)
  | t, a :: l => ((spec t a).1 :: (specRun spec (spec t a).2 l).1, (specRun spec (spec t a).2 l).2)

/-- Every request is allowed in the states of the machine and of the specification where it is made. -/
def AllAllowed (step : σ → α → Except ε (ρ × σ)) (spec : τ → α → ρ × τ) (allowed : σ → τ → α → Prop) :
    σ → τ → List α → Prop
  | _, _, [] => True
  | s, t, a :: l => allowed s t a ∧
    ∀ r, step s a = .ok r → AllAllowed step spec allowed r.2 (spec t a).2 l

/-- Where the states are related, an allowed request returns with the reply of the specification, and the
states after it are related. -/
def Simulates (rel : σ → τ → Prop) (allowed : σ → τ → α → Prop) (step : σ → α → Except ε (ρ × σ))
    (spec : τ → α → ρ × τ) : Prop :=
  ∀ s t a, rel s t → allowed s t a →
    Total (step s a) fun r => r.1 = (spec t a).1 ∧ rel r.2 (spec t a).2

variable {rel : σ → τ → Prop} {allowed : σ → τ → α → Prop} {step : σ → α → Except ε (ρ × σ)}
  {spec : τ → α → ρ × τ} {s : σ} {t : τ} {l : List α}

/-- A run of allowed requests returns the replies of the specification. -/
theorem Simulates.run (h : Simulates rel allowed step spec) (hrel : rel s t)
    (hall : AllAllowed step spec allowed s t l) :
    Total (run step s l) fun r => r.1 = (specRun spec t l).1 ∧ rel r.2 (specRun spec t l).2 := by
  induction l generalizing s t with
  | nil => exact .ret ⟨rfl, hrel⟩
  | cons a l ih =>
    obtain ⟨r, hr, hreply, hrel'⟩ := h s t a hrel hall.1
    obtain ⟨rs, hrs, hreplies, hend⟩ := ih hrel' (hall.2 r hr)
    refine ⟨(r.1 :: rs.1, rs.2), ?_, ?_, hend⟩
    · simp only [Refinement.run, hr, ok_bind, hrs, pure, Except.pure]
    · simp only [specRun, hreply, hreplies]

instance AllAllowed.decidable (step : σ → α → Except ε (ρ × σ)) (spec : τ → α → ρ × τ)
    (allowed : σ → τ → α → Prop) [∀ s t a, Decidable (allowed s t a)] :
    ∀ s t l, Decidable (AllAllowed step spec allowed s t l)
  | _, _, [] => .isTrue trivial
  | s, t, a :: l =>
    match h : step s a with
    | .ok r =>
      haveI := AllAllowed.decidable step spec allowed r.2 (spec t a).2 l
      decidable_of_iff (allowed s t a ∧ AllAllowed step spec allowed r.2 (spec t a).2 l)
        (by simp [AllAllowed, h])
    | .error e => decidable_of_iff (allowed s t a) (by simp [AllAllowed, h])

end Refinement
