import Mathlib.Tactic.Common

/-!
# Total and partial specifications of fallible computations

A computation that can stop with an error is a value of `Except ε α`.

* `Total x Q`: `x` returns, with a result that satisfies `Q`.
* `Partial x Q`: if `x` returns, its result satisfies `Q`.
* `Spec S x Q`: both at once, under a condition `S` for the first: if `S`, then `x` returns; if `x`
  returns, its result satisfies `Q`.
* `Avoids bad x Q`: `x` does not stop with an error in `bad`; if it returns, its result satisfies `Q`.
* `ensure c e`: stop with `e` unless `c`.
* `forRange n s f`: run `f` on 0, …, `n - 1`.
* `Always f P s l`: the steps of the run of `f` over the list `l` satisfy `P`.
* `Sometimes f P s l`: some step of the run does.

The rules follow the structure of a `do` block; `foldlM` is the rule for a run over a list of
inputs, with an invariant that one step keeps.
-/

namespace Outcome

variable {ε α β σ : Type}

/-- `x` returns, with a result that satisfies `Q`. -/
def Total (x : Except ε α) (Q : α → Prop) : Prop := ∃ a, x = .ok a ∧ Q a

/-- If `x` returns, its result satisfies `Q`. -/
def Partial (x : Except ε α) (Q : α → Prop) : Prop := ∀ a, x = .ok a → Q a

/-- If `S`, then `x` returns; if it returns, its result satisfies `Q`. -/
structure Spec (S : Prop) (x : Except ε α) (Q : α → Prop) : Prop where
  returns : S → ∃ a, x = .ok a
  post : Partial x Q

/-- `x` does not stop with an error in `bad`; if it returns, its result satisfies `Q`. -/
structure Avoids (bad : ε → Prop) (x : Except ε α) (Q : α → Prop) : Prop where
  safe : ∀ e, x = .error e → ¬ bad e
  post : Partial x Q

/-- Stop with `e` unless `c`. -/
def ensure (c : Prop) [Decidable c] (e : ε) : Except ε Unit := if c then .ok () else .error e

/-- The loop `for (i = 0; i < n; i++)` with the body `f`. -/
def forRange (n : Nat) (s : σ) (f : σ → Nat → Except ε σ) : Except ε σ := (List.range n).foldlM f s

/-- Every step of the run over `l` from `s` satisfies `P`. -/
def Always (f : σ → α → Except ε σ) (P : σ → α → Prop) : σ → List α → Prop
  | _, [] => True
  | s, a :: l => P s a ∧ ∀ s', f s a = .ok s' → Always f P s' l

instance Always.decidable (f : σ → α → Except ε σ) (P : σ → α → Prop) [∀ s a, Decidable (P s a)] :
    ∀ s l, Decidable (Always f P s l)
  | _, [] => .isTrue trivial
  | s, a :: l =>
    match h : f s a with
    | .ok s' =>
      haveI := Always.decidable f P s' l
      decidable_of_iff (P s a ∧ Always f P s' l) (by simp [Always, h])
    | .error e => decidable_of_iff (P s a) (by simp [Always, h])

/-- Some step of the run over `l` from `s` satisfies `P`. -/
def Sometimes (f : σ → α → Except ε σ) (P : σ → α → Prop) : σ → List α → Prop
  | _, [] => False
  | s, a :: l => P s a ∨ ∃ s', f s a = .ok s' ∧ Sometimes f P s' l

instance decidableEqError [DecidableEq ε] (x : Except ε α) (e : ε) : Decidable (x = .error e) :=
  match x with
  | .ok a => .isFalse (by simp)
  | .error e' => decidable_of_iff (e' = e) (by simp)

theorem bind_ok {x : Except ε α} {f : α → Except ε β} {b : β} :
    (x >>= f) = .ok b ↔ ∃ a, x = .ok a ∧ f a = .ok b := by
  cases x with
  | error e => simp [bind, Except.bind]
  | ok a => simp [bind, Except.bind]

@[simp] theorem ok_bind (a : α) (f : α → Except ε β) : ((.ok a : Except ε α) >>= f) = f a := rfl

theorem Always.mono {f : σ → α → Except ε σ} {P P' : σ → α → Prop} {l : List α} {s : σ}
    (h : Always f P s l) (hP : ∀ s a, P s a → P' s a) : Always f P' s l := by
  induction l generalizing s with
  | nil => trivial
  | cons a l ih => exact ⟨hP s a h.1, fun s' hs' => ih (h.2 s' hs')⟩

/-- Two properties that are the same where the invariant holds, and steps with them that keep it. -/
theorem Always.iff {f : σ → α → Except ε σ} {P Q : σ → α → Prop} {I : σ → Prop} {l : List α} {s : σ}
    (h : I s) (hPQ : ∀ s a, I s → (P s a ↔ Q s a))
    (keep : ∀ s a s', I s → Q s a → f s a = .ok s' → I s') : Always f P s l ↔ Always f Q s l := by
  induction l generalizing s with
  | nil => exact Iff.rfl
  | cons a l ih =>
    refine and_congr_right_iff.mpr ?_ |>.trans (and_congr_left fun _ => hPQ s a h)
    intro hP
    refine forall_congr' fun s' => forall_congr' fun hs' => ?_
    exact ih (keep s a s' h ((hPQ s a h).mp hP) hs')

/-- The step after the first ones. -/
theorem Always.after {f : σ → α → Except ε σ} {P : σ → α → Prop} {l : List α} {a : α} {s s' : σ}
    (h : Always f P s (l ++ [a])) (hrun : l.foldlM f s = .ok s') : P s' a := by
  induction l generalizing s with
  | nil =>
    cases hrun
    exact h.1
  | cons b l ih =>
    rw [List.foldlM_cons] at hrun
    cases hs : f s b with
    | error e =>
      rw [hs] at hrun
      cases hrun
    | ok s₁ =>
      rw [hs] at hrun
      exact ih (h.2 s₁ hs) hrun

/-- A run with a record beside its state: without the record it is the run itself. -/
theorem foldlM_map {σ' : Type} {f : σ → α → Except ε σ} {g : σ' → α → Except ε σ'} {π : σ' → σ}
    (h : ∀ s a, (g s a).map π = f (π s) a) (l : List α) (s : σ') :
    (l.foldlM g s).map π = l.foldlM f (π s) := by
  induction l generalizing s with
  | nil => rfl
  | cons a l ih =>
    rw [List.foldlM_cons, List.foldlM_cons, ← h s a]
    cases hs : g s a with
    | error e => rfl
    | ok s' => exact ih s'

theorem foldlM_error {σ' : Type} {f : σ → α → Except ε σ} {g : σ' → α → Except ε σ'} {π : σ' → σ}
    (h : ∀ s a, (g s a).map π = f (π s) a) {l : List α} {s : σ'} {e : ε} :
    l.foldlM f (π s) = .error e ↔ l.foldlM g s = .error e := by
  rw [← foldlM_map h]
  cases l.foldlM g s <;> simp [Except.map]

theorem ensure_ok {c : Prop} [Decidable c] {e : ε} {u : Unit} :
    ensure c e = .ok u ↔ c := by
  unfold ensure; split <;> simp [*]

theorem ensure_of {c : Prop} [Decidable c] (e : ε) (h : c) : ensure c e = .ok () := by
  simp [ensure, h]

namespace Total

variable {x : Except ε α} {Q Q' : α → Prop}

theorem ret {a : α} (h : Q a) : Total (.ok a : Except ε α) Q := ⟨a, rfl, h⟩

instance decidable (x : Except ε α) (Q : α → Prop) [DecidablePred Q] : Decidable (Total x Q) :=
  match x with
  | .ok a => decidable_of_iff (Q a) (by simp [Total])
  | .error e => .isFalse (by simp [Total])

theorem mono (h : Total x Q) (hq : ∀ a, Q a → Q' a) : Total x Q' := by
  obtain ⟨a, ha, hQ⟩ := h
  exact ⟨a, ha, hq a hQ⟩

/-- What is known of the one result. -/
theorem mp (h : Total x fun a => Q a → Q' a) (hQ : Total x Q) : Total x Q' := by
  obtain ⟨a, ha, hq⟩ := h
  obtain ⟨b, hb, hQ⟩ := hQ
  obtain rfl : a = b := Except.ok.inj (ha.symm.trans hb)
  exact ⟨a, ha, hq hQ⟩

theorem bind {f : α → Except ε β} {R : β → Prop} (h : Total x Q)
    (hf : ∀ a, Q a → Total (f a) R) : Total (x >>= f) R := by
  obtain ⟨a, rfl, hQ⟩ := h
  exact hf a hQ

theorem mapError {ε' : Type} (f : ε → ε') (h : Total x Q) : Total (x.mapError f) Q := by
  obtain ⟨a, rfl, hQ⟩ := h
  exact ⟨a, rfl, hQ⟩

theorem ensure {c : Prop} [Decidable c] {e : ε} (h : c) :
    Total (Outcome.ensure c e) fun _ => True := ⟨(), ensure_of e h, trivial⟩

/-- A run over a list: the invariant holds at the start, and one step on an input of the list
returns and keeps it. -/
theorem foldlM {I : σ → Prop} {f : σ → α → Except ε σ} {l : List α} {s : σ} (h : I s)
    (step : ∀ s, I s → ∀ a ∈ l, Total (f s a) I) : Total (l.foldlM f s) I := by
  induction l generalizing s with
  | nil => exact ret h
  | cons a l ih =>
    rw [List.foldlM_cons]
    refine bind (step s h a (by simp)) fun s' hs' => ?_
    exact ih hs' fun s hs b hb => step s hs b (by simp [hb])

/-- A counting loop: an invariant for each number of turns. -/
theorem forRange {I : Nat → σ → Prop} {n : Nat} {s : σ} {f : σ → Nat → Except ε σ} (h : I 0 s)
    (step : ∀ i < n, ∀ s, I i s → Total (f s i) (I (i + 1))) : Total (forRange n s f) (I n) := by
  induction n with
  | zero => exact ret h
  | succ n ih =>
    unfold Outcome.forRange at ih ⊢
    rw [List.range_succ, List.foldlM_append]
    refine bind (ih fun i hi => step i (by omega)) fun s' hs' => ?_
    rw [List.foldlM_cons]
    exact bind (step n (by omega) s' hs') fun s'' hs'' => ret hs''

/-- A run whose steps satisfy `P`. -/
theorem always {I : σ → Prop} {P : σ → α → Prop} {f : σ → α → Except ε σ} {l : List α} {s : σ}
    (h : I s) (hP : Always f P s l) (step : ∀ s, I s → ∀ a ∈ l, P s a → Total (f s a) I) :
    Total (l.foldlM f s) I := by
  induction l generalizing s with
  | nil => exact ret h
  | cons a l ih =>
    rw [List.foldlM_cons]
    obtain ⟨s', hs', hI⟩ := step s h a (by simp) hP.1
    rw [hs']
    exact ih hI (hP.2 s' hs') fun s hs b hb => step s hs b (by simp [hb])

end Total

namespace Partial

variable {x : Except ε α} {Q Q' : α → Prop}

theorem ret {a : α} (h : Q a) : Partial (.ok a : Except ε α) Q := by
  rintro b ⟨⟩
  exact h

theorem error {e : ε} : Partial (.error e : Except ε α) Q := by
  rintro b ⟨⟩

theorem mono (h : Partial x Q) (hq : ∀ a, Q a → Q' a) : Partial x Q' :=
  fun a ha => hq a (h a ha)

/-- A computation that is known to return. -/
theorem total (h : Partial x Q) (hok : x.isOk = true) : Total x Q := by
  cases x with
  | error e => cases hok
  | ok a => exact ⟨a, rfl, h a rfl⟩

theorem bind {f : α → Except ε β} {R : β → Prop} (h : Partial x Q)
    (hf : ∀ a, Q a → Partial (f a) R) : Partial (x >>= f) R := by
  intro b hb
  obtain ⟨a, ha, hb⟩ := bind_ok.mp hb
  exact hf a (h a ha) b hb

theorem ensure {c : Prop} [Decidable c] {e : ε} : Partial (Outcome.ensure c e) fun _ => c :=
  fun _ h => ensure_ok.mp h

/-- A run over a list: the invariant holds at the start, and one step on an input of the list
keeps it. -/
theorem foldlM {I : σ → Prop} {f : σ → α → Except ε σ} {l : List α} {s : σ} (h : I s)
    (step : ∀ s, I s → ∀ a ∈ l, Partial (f s a) I) : Partial (l.foldlM f s) I := by
  induction l generalizing s with
  | nil => exact ret h
  | cons a l ih =>
    rw [List.foldlM_cons]
    refine bind (step s h a (by simp)) fun s' hs' => ?_
    exact ih hs' fun s hs b hb => step s hs b (by simp [hb])

/-- A counting loop: an invariant for each number of turns. -/
theorem forRange {I : Nat → σ → Prop} {n : Nat} {s : σ} {f : σ → Nat → Except ε σ} (h : I 0 s)
    (step : ∀ i < n, ∀ s, I i s → Partial (f s i) (I (i + 1))) :
    Partial (forRange n s f) (I n) := by
  induction n with
  | zero => exact ret h
  | succ n ih =>
    unfold Outcome.forRange at ih ⊢
    rw [List.range_succ, List.foldlM_append]
    refine bind (ih fun i hi => step i (by omega)) fun s' hs' => ?_
    rw [List.foldlM_cons]
    exact bind (step n (by omega) s' hs') fun s'' hs'' => ret hs''

/-- A run whose steps satisfy `P`. -/
theorem always {I : σ → Prop} {P : σ → α → Prop} {f : σ → α → Except ε σ} {l : List α} {s : σ}
    (h : I s) (hP : Always f P s l) (step : ∀ s, I s → ∀ a ∈ l, P s a → Partial (f s a) I) :
    Partial (l.foldlM f s) I := by
  induction l generalizing s with
  | nil => exact ret h
  | cons a l ih =>
    rw [List.foldlM_cons]
    intro s₂ hs₂
    obtain ⟨s₁, hs₁, hs₂⟩ := bind_ok.mp hs₂
    exact ih (step s h a (by simp) hP.1 s₁ hs₁) (hP.2 s₁ hs₁)
      (fun s hs b hb => step s hs b (by simp [hb])) s₂ hs₂

/-- Where one step stops with `e` exactly if it does not satisfy `P`, a run does not stop with `e`
exactly if its steps satisfy `P`. -/
theorem ne_error_iff_always {I : σ → Prop} {P : σ → α → Prop} {f : σ → α → Except ε σ} {e : ε}
    {l : List α} {s : σ} (h : I s) (keep : ∀ s, I s → ∀ a ∈ l, Partial (f s a) I)
    (step : ∀ s, I s → ∀ a ∈ l, (f s a ≠ .error e ↔ P s a)) :
    l.foldlM f s ≠ .error e ↔ Always f P s l := by
  induction l generalizing s with
  | nil =>
    rw [List.foldlM_nil]
    exact ⟨fun _ => trivial, fun _ he => by cases he⟩
  | cons a l ih =>
    rw [List.foldlM_cons]
    have hstep := step s h a (by simp)
    cases hs : f s a with
    | error e' =>
      rw [hs] at hstep
      exact ⟨fun hne => ⟨hstep.mp hne, fun s' hs' => by rw [hs] at hs'; cases hs'⟩,
        fun hall => hstep.mpr hall.1⟩
    | ok s' =>
      have hrest := ih (keep s h a (by simp) s' hs) (fun s hs b hb => keep s hs b (by simp [hb]))
        (fun s hs b hb => step s hs b (by simp [hb]))
      have hP := hstep.mp (by rw [hs]; exact fun he => by cases he)
      rw [ok_bind, hrest]
      refine ⟨fun hall => ⟨hP, fun s'' hs'' => ?_⟩, fun hall => hall.2 s' hs⟩
      rw [hs] at hs''
      cases hs''
      exact hall

/-- A property that the steps with `P` establish, and that the others neither establish nor destroy. -/
theorem latch {P Q : σ → α → Prop} {g : σ → Prop} {f : σ → α → Except ε σ} {l : List α} {s s' : σ}
    (hrun : l.foldlM f s = .ok s') (hQ : Always f Q s l)
    (step : ∀ s a s', Q s a → f s a = .ok s' → (g s' ↔ P s a ∨ g s)) :
    g s' ↔ Sometimes f P s l ∨ g s := by
  induction l generalizing s with
  | nil =>
    cases hrun
    simp [Sometimes]
  | cons a l ih =>
    rw [List.foldlM_cons] at hrun
    obtain ⟨s₁, ha, hrun⟩ := bind_ok.mp hrun
    rw [ih hrun (hQ.2 s₁ ha), step s a s₁ hQ.1 ha]
    change _ ↔ (P s a ∨ ∃ s', f s a = .ok s' ∧ Sometimes f P s' l) ∨ g s
    constructor
    · rintro (hs | hP | hg)
      · exact .inl (.inr ⟨s₁, ha, hs⟩)
      · exact .inl (.inl hP)
      · exact .inr hg
    · rintro ((hP | ⟨s₂, ha', hs⟩) | hg)
      · exact .inr (.inl hP)
      · obtain rfl : s₁ = s₂ := Except.ok.inj (ha.symm.trans ha')
        exact .inl hs
      · exact .inr (.inr hg)

end Partial

namespace Spec

variable {S T : Prop} {x : Except ε α} {Q Q' : α → Prop}

theorem ret {a : α} (h : Q a) : Spec S (.ok a : Except ε α) Q := ⟨fun _ => ⟨a, rfl⟩, Partial.ret h⟩

theorem error {e : ε} (h : ¬ S) : Spec S (.error e : Except ε α) Q :=
  ⟨fun hS => absurd hS h, Partial.error⟩

theorem mono (h : Spec S x Q) (hq : ∀ a, Q a → Q' a) : Spec S x Q' :=
  ⟨h.returns, h.post.mono hq⟩

theorem ofPartial (h : Partial x Q) : Spec False x Q := ⟨False.elim, h⟩

theorem ofTotal (h : S → Total x Q) : Spec S x fun a => S → Q a := by
  refine ⟨fun hS => ?_, fun a ha hS => ?_⟩
  · obtain ⟨a, ha, -⟩ := h hS
    exact ⟨a, ha⟩
  · obtain ⟨b, hb, hQ⟩ := h hS
    obtain rfl : a = b := Except.ok.inj (ha.symm.trans hb)
    exact hQ

theorem weaken (h : Spec S x Q) (hT : T → S) : Spec T x Q := ⟨fun t => h.returns (hT t), h.post⟩

theorem total (h : Spec S x Q) (hS : S) : Total x Q := by
  obtain ⟨a, ha⟩ := h.returns hS
  exact ⟨a, ha, h.post a ha⟩

theorem bind {f : α → Except ε β} {R : β → Prop} (h : Spec S x Q)
    (hf : ∀ a, Q a → Spec S (f a) R) : Spec S (x >>= f) R := by
  refine ⟨fun hS => ?_, h.post.bind fun a ha => (hf a ha).post⟩
  obtain ⟨a, rfl⟩ := h.returns hS
  exact (hf a (h.post a rfl)).returns hS

theorem ensure {c : Prop} [Decidable c] {e : ε} (h : S → c) :
    Spec S (Outcome.ensure c e) fun _ => c :=
  ⟨fun hS => ⟨(), ensure_of e (h hS)⟩, Partial.ensure⟩

/-- A run over a list: the invariant holds at the start, and one step on an input of the list
keeps it. -/
theorem foldlM {I : σ → Prop} {f : σ → α → Except ε σ} {l : List α} {s : σ} (h : I s)
    (step : ∀ s, I s → ∀ a ∈ l, Spec S (f s a) I) : Spec S (l.foldlM f s) I := by
  induction l generalizing s with
  | nil => exact ret h
  | cons a l ih =>
    rw [List.foldlM_cons]
    refine bind (step s h a (by simp)) fun s' hs' => ?_
    exact ih hs' fun s hs b hb => step s hs b (by simp [hb])

/-- A counting loop: an invariant for each number of turns. -/
theorem forRange {I : Nat → σ → Prop} {n : Nat} {s : σ} {f : σ → Nat → Except ε σ} (h : I 0 s)
    (step : ∀ i < n, ∀ s, I i s → Spec S (f s i) (I (i + 1))) : Spec S (forRange n s f) (I n) := by
  induction n with
  | zero => exact ret h
  | succ n ih =>
    unfold Outcome.forRange at ih ⊢
    rw [List.range_succ, List.foldlM_append]
    refine bind (ih fun i hi => step i (by omega)) fun s' hs' => ?_
    rw [List.foldlM_cons]
    exact bind (step n (by omega) s' hs') fun s'' hs'' => ret hs''

end Spec

namespace Avoids

variable {bad : ε → Prop} {x : Except ε α} {Q Q' : α → Prop}

theorem ret {a : α} (h : Q a) : Avoids bad (.ok a : Except ε α) Q :=
  ⟨fun _ he => (by cases he), Partial.ret h⟩

theorem error {e : ε} (h : ¬ bad e) : Avoids bad (.error e : Except ε α) Q :=
  ⟨fun _ he => (by cases he; exact h), Partial.error⟩

theorem mono (h : Avoids bad x Q) (hq : ∀ a, Q a → Q' a) : Avoids bad x Q' :=
  ⟨h.safe, h.post.mono hq⟩

theorem bind {f : α → Except ε β} {R : β → Prop} (h : Avoids bad x Q)
    (hf : ∀ a, Q a → Avoids bad (f a) R) : Avoids bad (x >>= f) R := by
  refine ⟨fun e he => ?_, h.post.bind fun a ha => (hf a ha).post⟩
  cases x with
  | error e' =>
    cases he
    exact h.safe e rfl
  | ok a => exact (hf a (h.post a rfl)).safe e he

theorem ensure {c : Prop} [Decidable c] {e : ε} (h : ¬ c → ¬ bad e) :
    Avoids bad (Outcome.ensure c e) fun _ => c := by
  unfold Outcome.ensure
  split
  · rename_i hc
    exact ret hc
  · rename_i hc
    exact error (h hc)

theorem foldlM {I : σ → Prop} {f : σ → α → Except ε σ} {l : List α} {s : σ} (h : I s)
    (step : ∀ s, I s → ∀ a ∈ l, Avoids bad (f s a) I) : Avoids bad (l.foldlM f s) I := by
  induction l generalizing s with
  | nil => exact ret h
  | cons a l ih =>
    rw [List.foldlM_cons]
    refine bind (step s h a (by simp)) fun s' hs' => ?_
    exact ih hs' fun s hs b hb => step s hs b (by simp [hb])

/-- A run whose steps satisfy `P`. -/
theorem always {I : σ → Prop} {P : σ → α → Prop} {f : σ → α → Except ε σ} {l : List α} {s : σ}
    (h : I s) (hP : Always f P s l) (step : ∀ s, I s → ∀ a ∈ l, P s a → Avoids bad (f s a) I) :
    Avoids bad (l.foldlM f s) I := by
  induction l generalizing s with
  | nil => exact ret h
  | cons a l ih =>
    rw [List.foldlM_cons]
    have hstep := step s h a (by simp) hP.1
    cases hs : f s a with
    | error e => exact error (hstep.safe e hs)
    | ok s' =>
      exact ih (hstep.post s' hs) (hP.2 s' hs) fun s hs b hb => step s hs b (by simp [hb])

end Avoids

end Outcome
