import Mathlib.Data.List.Induction
import Mathlib.Data.List.Nodup

/-!
# Histories of operations on an object

Operations of many clients overlap in time. An operation is invoked, acts on the object in one moment, its
effect, and then responds (`Event`); `WellFormed` says that its events come in this order and at most once.
The object is given by `spec`: the state after an operation, which names its argument and its result, or
nothing if the operation cannot have this result.

* `WellFormed.linearization`: if the effects replay, their order is a linearization: each operation that
  responded takes effect exactly once, after all that responded before it was invoked.
* `Linearization.read_write`: a read of a register gives the value of a write that responded before the
  read was invoked, if every other write responded before that write was invoked or was invoked after the
  read responded.
-/

namespace History

variable {ι ω σ : Type}

/-! ## The order of the members of a list -/

section Before

variable {α : Type} {l : List α} {a b : α}

/-- `a` stands somewhere before `b`. -/
def Before (l : List α) (a b : α) : Prop := ∃ l₁ l₂, l = l₁ ++ l₂ ∧ a ∈ l₁ ∧ b ∈ l₂

theorem Before.mem_left (h : Before l a b) : a ∈ l := by
  obtain ⟨l₁, l₂, rfl, ha, -⟩ := h
  exact List.mem_append_left _ ha

theorem Before.mem_right (h : Before l a b) : b ∈ l := by
  obtain ⟨l₁, l₂, rfl, -, hb⟩ := h
  exact List.mem_append_right _ hb

theorem Before.asymm (h : Before l a b) (hnd : l.Nodup) : ¬ Before l b a := by
  rintro ⟨m₁, m₂, hm, hb, ha⟩
  obtain ⟨l₁, l₂, rfl, ha', hb'⟩ := h
  have hnd' := hnd
  rw [hm] at hnd'
  have hl := List.disjoint_of_nodup_append hnd
  have hm' := List.disjoint_of_nodup_append hnd'
  obtain ⟨c, rfl, -⟩ | ⟨c, rfl, -⟩ := List.append_eq_append_iff.mp hm
  · exact hm' (List.mem_append_left _ ha') ha
  · exact hl (List.mem_append_left _ hb) hb'

theorem Before.map {β : Type} (h : Before l a b) (f : α → β) : Before (l.map f) (f a) (f b) := by
  obtain ⟨l₁, l₂, rfl, ha, hb⟩ := h
  exact ⟨l₁.map f, l₂.map f, List.map_append, List.mem_map_of_mem ha, List.mem_map_of_mem hb⟩

theorem Before.flatMap {β : Type} (h : Before l a b) {f : α → List β} {a' b' : β} (ha : a' ∈ f a)
    (hb : b' ∈ f b) : Before (l.flatMap f) a' b' := by
  obtain ⟨l₁, l₂, rfl, hma, hmb⟩ := h
  exact ⟨l₁.flatMap f, l₂.flatMap f, List.flatMap_append, List.mem_flatMap.mpr ⟨a, hma, ha⟩,
    List.mem_flatMap.mpr ⟨b, hmb, hb⟩⟩

theorem Before.of_filter {p : α → Bool} (h : Before (l.filter p) a b) : Before l a b := by
  obtain ⟨l₁, l₂, heq, ha, hb⟩ := h
  obtain ⟨m₁, m₂, rfl, rfl, rfl⟩ := List.filter_eq_append_iff.mp heq
  exact ⟨m₁, m₂, rfl, List.mem_of_mem_filter ha, List.mem_of_mem_filter hb⟩

theorem before_append (l₁ l₂ l₃ : List α) : Before (l₁ ++ a :: l₂ ++ b :: l₃) a b :=
  ⟨l₁ ++ a :: l₂, b :: l₃, rfl, by simp, List.mem_cons_self⟩

end Before

/-! ## Events -/

/-- What happens to operation `i`. -/
inductive Event (ι ω : Type) where
  | invoke (i : ι)
  | effect (i : ι) (op : ω)
  | respond (i : ι)

/-- The operation that takes effect. -/
def Event.effect? : Event ι ω → Option (ι × ω)
  | .effect i op => some (i, op)
  | .invoke _ | .respond _ => none

/-- The operations in the order of their effects. -/
def effects (log : List (Event ι ω)) : List (ι × ω) := log.filterMap Event.effect?

theorem mem_effects {log : List (Event ι ω)} {p : ι × ω} : p ∈ effects log ↔ .effect p.1 p.2 ∈ log := by
  unfold effects
  rw [List.mem_filterMap]
  constructor
  · rintro ⟨ev, hev, heq⟩
    cases ev with
    | effect i op =>
      cases heq
      exact hev
    | invoke i => cases heq
    | respond i => cases heq
  · intro h
    exact ⟨_, h, rfl⟩

/-- What stands in the log before an event. -/
def Justified (log : List (Event ι ω)) : Event ι ω → Prop
  | .invoke i => .invoke i ∉ log
  | .effect i _ => .invoke i ∈ log ∧ .respond i ∉ log ∧ ∀ op, .effect i op ∉ log
  | .respond i => ∃ op, .effect i op ∈ log

/-- A log in which every event is justified by those before it. -/
inductive WellFormed : List (Event ι ω) → Prop
  | nil : WellFormed []
  | concat {log : List (Event ι ω)} {ev : Event ι ω} : WellFormed log → Justified log ev →
      WellFormed (log ++ [ev])

/-- The sequential execution of operations. -/
def replay (spec : σ → ω → Option σ) (s : σ) (ops : List (ι × ω)) : Option σ :=
  ops.foldlM (fun s p => spec s p.2) s

/-- Operation `i` responded before `j` was invoked. -/
def Precedes (log : List (Event ι ω)) (i j : ι) : Prop := Before log (.respond i) (.invoke j)

/-- `order` is a sequential execution from `s₀` to `s` that explains the log. -/
structure Linearization (spec : σ → ω → Option σ) (s₀ : σ) (log : List (Event ι ω))
    (order : List (ι × ω)) (s : σ) : Prop where
  legal : replay spec s₀ order = some s
  once : (order.map Prod.fst).Nodup
  effects : ∀ p ∈ order, .effect p.1 p.2 ∈ log
  invoked : ∀ p ∈ order, .invoke p.1 ∈ log
  responded : ∀ i, .respond i ∈ log → ∃ op, (i, op) ∈ order
  realTime : ∀ i j op, Precedes log i j → (j, op) ∈ order → Before (order.map Prod.fst) i j

section WellFormed

variable {log l₁ l₂ : List (Event ι ω)} {ev : Event ι ω} {i j : ι} {op : ω}

theorem wellFormed_concat : WellFormed (log ++ [ev]) ↔ WellFormed log ∧ Justified log ev := by
  refine ⟨fun h => ?_, fun h => h.1.concat h.2⟩
  generalize heq : log ++ [ev] = l at h
  cases h with
  | nil => simp at heq
  | concat h hj =>
    obtain ⟨rfl, hev⟩ := List.append_inj' heq rfl
    obtain rfl := (List.cons.inj hev).1
    exact ⟨h, hj⟩

theorem WellFormed.of_append (h : WellFormed (l₁ ++ l₂)) : WellFormed l₁ := by
  induction l₂ using List.reverseRecOn with
  | nil => rwa [List.append_nil] at h
  | append_singleton l₂ ev ih =>
    rw [← List.append_assoc, wellFormed_concat] at h
    exact ih h.1

theorem WellFormed.justified (h : WellFormed (l₁ ++ ev :: l₂)) : Justified l₁ ev := by
  rw [List.append_cons] at h
  exact (wellFormed_concat.mp h.of_append).2

theorem WellFormed.justified_of_mem (h : WellFormed log) (hev : ev ∈ log) :
    ∃ l₁ l₂, log = l₁ ++ ev :: l₂ ∧ Justified l₁ ev := by
  obtain ⟨l₁, l₂, rfl⟩ := List.append_of_mem hev
  exact ⟨l₁, l₂, rfl, h.justified⟩

theorem WellFormed.invoke_mem (h : WellFormed log) (hop : .effect i op ∈ log) : .invoke i ∈ log := by
  obtain ⟨l₁, l₂, rfl, hinv, -⟩ := h.justified_of_mem hop
  exact List.mem_append_left _ hinv

theorem WellFormed.effect_mem (h : WellFormed log) (hr : .respond i ∈ log) :
    ∃ op, .effect i op ∈ log := by
  obtain ⟨l₁, l₂, rfl, op, hop⟩ := h.justified_of_mem hr
  exact ⟨op, List.mem_append_left _ hop⟩

/-- A new operation that takes effect and responds at once. -/
theorem WellFormed.instant (h : WellFormed log) (hnew : .invoke i ∉ log) :
    WellFormed (log ++ [.invoke i, .effect i op, .respond i]) := by
  have heffect : ∀ op', .effect i op' ∉ log := fun op' hmem => hnew (h.invoke_mem hmem)
  have hrespond : .respond i ∉ log := fun hmem => by
    obtain ⟨op', hmem'⟩ := h.effect_mem hmem
    exact heffect op' hmem'
  have h₁ : WellFormed (log ++ [.invoke i]) := h.concat hnew
  have h₂ : WellFormed (log ++ [.invoke i] ++ [.effect i op]) :=
    h₁.concat ⟨by simp, by simpa using hrespond, fun op' => by simpa using heffect op'⟩
  have h₃ : WellFormed (log ++ [.invoke i] ++ [.effect i op] ++ [.respond i]) := h₂.concat ⟨op, by simp⟩
  simpa using h₃

/-- Each operation takes effect at most once. -/
theorem WellFormed.nodup (h : WellFormed log) : ((effects log).map Prod.fst).Nodup := by
  induction h with
  | nil => exact List.nodup_nil
  | concat h hj ih =>
    rename_i log ev
    unfold History.effects at ih ⊢
    rw [List.filterMap_append, List.map_append]
    cases ev with
    | invoke i => exact List.append_nil _ ▸ ih
    | respond i => exact List.append_nil _ ▸ ih
    | effect i op =>
      refine List.nodup_append.mpr ⟨ih, by simp [Event.effect?], ?_⟩
      intro k hk k' hk'
      obtain rfl : k' = i := by simpa [Event.effect?] using hk'
      obtain ⟨p, hp, rfl⟩ := List.mem_map.mp hk
      rintro rfl
      exact hj.2.2 _ (mem_effects.mp hp)

/-- An operation that responded before another was invoked takes effect before it. -/
theorem WellFormed.before (h : WellFormed log) (hp : Precedes log i j) (hop : .effect j op ∈ log) :
    Before ((effects log).map Prod.fst) i j := by
  obtain ⟨l₁, l₂, rfl, hr, hinv⟩ := hp
  obtain ⟨op', hop'⟩ := h.of_append.effect_mem hr
  obtain ⟨m₁, m₂, rfl⟩ := List.append_of_mem hinv
  -- `j` takes effect behind its invocation, which is behind the response of `i`
  have hnot : .effect j op ∉ l₁ := by
    intro hin
    have hinv₁ := h.of_append.invoke_mem hin
    rw [← List.append_assoc] at h
    exact h.justified (List.mem_append_left _ hinv₁)
  refine ⟨(effects l₁).map Prod.fst, (effects (m₁ ++ .invoke j :: m₂)).map Prod.fst, ?_, ?_, ?_⟩
  · unfold effects
    rw [List.filterMap_append, List.map_append]
  · exact List.mem_map.mpr ⟨(i, op'), mem_effects.mpr hop', rfl⟩
  · exact List.mem_map.mpr ⟨(j, op), mem_effects.mpr ((List.mem_append.mp hop).resolve_left hnot), rfl⟩

/-- The order of the effects is a linearization. -/
theorem WellFormed.linearization {spec : σ → ω → Option σ} {s₀ s : σ} (h : WellFormed log)
    (hs : replay spec s₀ (effects log) = some s) : Linearization spec s₀ log (effects log) s where
  legal := hs
  once := h.nodup
  effects _ hp := mem_effects.mp hp
  invoked _ hp := h.invoke_mem (mem_effects.mp hp)
  responded i hi := by
    obtain ⟨op, hop⟩ := h.effect_mem hi
    exact ⟨op, mem_effects.mpr hop⟩
  realTime i j op hp hj := h.before hp (mem_effects.mp hj)

end WellFormed

/-! ## Registers -/

/-- A write, or a read with the value that it gives. -/
inductive RegisterOp (ν : Type) where
  | write (v : ν)
  | read (v : ν)

section Register

variable {ν : Type} [DecidableEq ν]

/-- A register. -/
def register (v : ν) : RegisterOp ν → Option ν
  | .write v' => some v'
  | .read v' => if v' = v then some v else none

theorem replay_append {spec : σ → ω → Option σ} (s : σ) (ops ops' : List (ι × ω)) :
    replay spec s (ops ++ ops') = (replay spec s ops).bind fun s' => replay spec s' ops' := by
  unfold replay
  rw [List.foldlM_append]
  rfl

theorem replay_cons {spec : σ → ω → Option σ} (s : σ) (p : ι × ω) (ops : List (ι × ω)) :
    replay spec s (p :: ops) = (spec s p.2).bind fun s' => replay spec s' ops := rfl

/-- Reads leave the register alone. -/
theorem replay_reads {ops : List (ι × RegisterOp ν)} (hr : ∀ p ∈ ops, ∀ v, p.2 ≠ .write v) {v v' : ν}
    (h : replay register v ops = some v') : v' = v := by
  induction ops generalizing v with
  | nil =>
    cases h
    rfl
  | cons p ops ih =>
    obtain ⟨i, op⟩ := p
    cases op with
    | write w => exact absurd rfl (hr (i, .write w) (by simp) w)
    | read w =>
      have hr' : ∀ p ∈ ops, ∀ v, p.2 ≠ .write v := fun p hp => hr p (by simp [hp])
      rw [replay_cons] at h
      dsimp only [register] at h
      by_cases hw : w = v
      · rw [if_pos hw] at h
        exact ih hr' h
      · rw [if_neg hw] at h
        cases h

variable {v₀ vₙ v v' : ν} {log : List (Event ι (RegisterOp ν))} {order : List (ι × RegisterOp ν)} {i j : ι}

/-- A write that precedes a read, and the operations between them. -/
theorem Linearization.between (h : Linearization register v₀ log order vₙ)
    (hi : (i, RegisterOp.write v) ∈ order) (hj : (j, RegisterOp.read v') ∈ order)
    (hij : Precedes log i j) :
    ∃ l₁ l₂ l₃, order = l₁ ++ (i, RegisterOp.write v) :: l₂ ++ (j, RegisterOp.read v') :: l₃ := by
  have hbefore := h.realTime i j _ hij hj
  obtain ⟨m₁, m₂, rfl⟩ := List.append_of_mem hi
  have hnd := h.once
  rw [List.mem_append, List.mem_cons] at hj
  obtain hj | hj | hj := hj
  · have hback : Before (m₁ ++ (i, RegisterOp.write v) :: m₂) (j, RegisterOp.read v') (i, .write v) :=
      ⟨m₁, (i, .write v) :: m₂, rfl, hj, List.mem_cons_self⟩
    exact absurd (hback.map Prod.fst) (hbefore.asymm hnd)
  · cases hj
  · obtain ⟨l₂, l₃, rfl⟩ := List.append_of_mem hj
    exact ⟨m₁, l₂, l₃, by simp⟩

theorem Linearization.read_write (h : Linearization register v₀ log order vₙ)
    (hi : (i, RegisterOp.write v) ∈ order) (hj : (j, RegisterOp.read v') ∈ order)
    (hij : Precedes log i j)
    (hothers : ∀ k w, (k, RegisterOp.write w) ∈ order → k = i ∨ Precedes log k i ∨ Precedes log j k) :
    v' = v := by
  obtain ⟨l₁, l₂, l₃, rfl⟩ := h.between hi hj hij
  have hnd := h.once
  -- no write stands between the two
  have hreads : ∀ p ∈ l₂, ∀ w, p.2 ≠ .write w := by
    rintro ⟨k, op⟩ hp w hw
    dsimp only at hw
    subst hw
    obtain ⟨n₁, n₂, rfl⟩ := List.append_of_mem hp
    have hik := (before_append l₁ n₁ (n₂ ++ (j, RegisterOp.read v') :: l₃)
      (a := (i, RegisterOp.write v)) (b := (k, .write w))).map Prod.fst
    have hkj := (before_append (l₁ ++ (i, RegisterOp.write v) :: n₁) n₂ l₃
      (a := (k, RegisterOp.write w)) (b := (j, .read v'))).map Prod.fst
    simp only [List.append_assoc, List.cons_append] at hik hkj hnd
    obtain rfl | hki | hjk := hothers k w (by simp)
    · exact hik.asymm hnd hik
    · have hback := h.realTime k i _ hki hi
      simp only [List.append_assoc, List.cons_append] at hback
      exact hik.asymm hnd hback
    · have hback := h.realTime j k (.write w) hjk (by simp)
      simp only [List.append_assoc, List.cons_append] at hback
      exact hkj.asymm hnd hback
  have hlegal := h.legal
  rw [List.append_assoc, replay_append] at hlegal
  obtain ⟨v₁, -, hafter⟩ := Option.bind_eq_some_iff.mp hlegal
  rw [List.cons_append, replay_cons, register, Option.bind_some, replay_append] at hafter
  obtain ⟨v₂, hv₂, hread⟩ := Option.bind_eq_some_iff.mp hafter
  have hsame := replay_reads hreads hv₂
  rw [replay_cons, register] at hread
  by_contra hne
  rw [if_neg (by rw [hsame]; exact hne)] at hread
  cases hread

end Register

end History
