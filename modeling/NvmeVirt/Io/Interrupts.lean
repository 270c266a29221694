import NvmeVirt.Lib.Runs

/-!
# Interrupts

A completion sets `interrupt_ready` of its queue (`__fill_cq_result`). After its walk over the requests, a
worker passes all completion queues (the second loop of `nvmev_io_worker`): it takes `irq_lock` if it is free,
and if `interrupt_ready` is set, clears it and raises the interrupt. `Irq.Sys` is any number of workers in any
interleaving of these steps; `log` records the completions and the interrupts.

`interrupts_signalled`: a worker that leaves the lock of a queue leaves no completion without an interrupt
that was posted before it took the lock; a completion without one has `interrupt_ready` set, or a worker is
about to raise the interrupt; and there are at most as many interrupts as completions.
-/

namespace Nvmev

open Function Runs

namespace Irq

/-- What the interrupts use of `struct nvmev_completion_queue`, and the worker that holds `irq_lock`. -/
structure Queue where
  irqEnabled : Bool
  irqVector : Nat
  interruptReady : Bool := false
  irqLock : Option Nat := none
  deriving DecidableEq, Repr

/-- Where a worker is in `nvmev_io_worker`. -/
inductive Pc where
  /-- In the walk over its requests. -/
  | walk
  /-- At the head of the loop over the completion queues. -/
  | look (qidx : Nat)
  /-- It has taken `irq_lock`. -/
  | locked (qidx : Nat)
  /-- It has seen `interrupt_ready`. -/
  | ready (qidx : Nat)
  /-- It has cleared `interrupt_ready`. -/
  | cleared (qidx : Nat)
  /-- It is about to release `irq_lock`. -/
  | done (qidx : Nat)
  deriving DecidableEq, Repr

/-- The queue whose lock a worker holds. -/
def Pc.holds : Pc → Option Nat
  | .locked qidx | .ready qidx | .cleared qidx | .done qidx => some qidx
  | .walk | .look _ => none

/-- A completion is posted, or an interrupt is raised. -/
inductive Event where
  | filled (cqid : Nat)
  | signalled (cqid irqVector : Nat)
  deriving DecidableEq, Repr

/-- Whether an event is an interrupt of a queue. -/
def Event.signals (cqid : Nat) : Event → Bool
  | .signalled cqid' _ => cqid' = cqid
  | .filled _ => false

/-- The completion queues and the workers; `acquired` is the length of the log when the worker took the lock
that it holds. -/
structure Sys where
  cqes : Nat → Option Queue := fun _ => none
  nrCq : Nat
  pc : Nat → Pc := fun _ => .walk
  log : List Event := []
  acquired : Nat → Nat := fun _ => 0

/-- What can happen next. -/
inductive Action where
  /-- `__nvmev_admin_create_cq`. -/
  | create (cqid : Nat) (irqEnabled : Bool) (irqVector : Nat)
  /-- Worker `i` posts a completion. -/
  | fill (i cqid : Nat)
  /-- Its walk ends. -/
  | endWalk (i : Nat)
  /-- Its next step in the loop over the completion queues. -/
  | irq (i : Nat)
  deriving DecidableEq, Repr

section Step

-- which worker raises the interrupts of which queue: every one, or the one of `__get_io_worker`
-- (`CONFIG_NVMEV_IO_WORKER_BY_SQ`)
variable (mine : Nat → Nat → Bool)

/-- The next step of worker `i` in the loop over the completion queues. -/
def Sys.irq (s : Sys) (i : Nat) : Sys :=
  match s.pc i with
  | .walk => s
  | .look qidx =>
    let next := { s with pc := update s.pc i (.look (qidx + 1)) }
    if s.nrCq < qidx then { s with pc := update s.pc i .walk }
    else if !mine i qidx then next
    else
      match s.cqes qidx with
      | none => next
      | some cq =>
        if !cq.irqEnabled then next
        else if cq.irqLock = none then
          { s with
            cqes := update s.cqes qidx (some { cq with irqLock := some i })
            pc := update s.pc i (.locked qidx)
            acquired := update s.acquired i s.log.length }
        else next
  | .locked qidx =>
    match s.cqes qidx with
    | none => s
    | some cq => { s with pc := update s.pc i (if cq.interruptReady then .ready qidx else .done qidx) }
  | .ready qidx =>
    match s.cqes qidx with
    | none => s
    | some cq =>
      { s with
        cqes := update s.cqes qidx (some { cq with interruptReady := false })
        pc := update s.pc i (.cleared qidx) }
  | .cleared qidx =>
    match s.cqes qidx with
    | none => s
    | some cq =>
      { s with
        log := s.log ++ [.signalled qidx cq.irqVector]
        pc := update s.pc i (.done qidx) }
  | .done qidx =>
    match s.cqes qidx with
    | none => s
    | some cq =>
      { s with
        cqes := update s.cqes qidx (some { cq with irqLock := none })
        pc := update s.pc i (.look (qidx + 1)) }

/-- One step. -/
def step (s : Sys) : Action → Sys
  | .create cqid irqEnabled irqVector =>
    match s.cqes cqid with
    | none => { s with cqes := update s.cqes cqid (some { irqEnabled, irqVector }) }
    | some _ => s
  | .fill i cqid =>
    match s.cqes cqid with
    | none => s
    | some cq =>
      if s.pc i = .walk then
        { s with
          cqes := update s.cqes cqid (some { cq with interruptReady := true })
          log := s.log ++ [.filled cqid] }
      else s
  | .endWalk i => if s.pc i = .walk then { s with pc := update s.pc i (.look 1) } else s
  | .irq i => s.irq mine i

end Step

/-- The steps of worker `i` in the loop over the completion queues. -/
inductive IrqStep (mine : Nat → Nat → Bool) (s : Sys) (i : Nat) : Sys → Prop
  | idle (hi : s.pc i = .walk ∨ ∃ q, (s.pc i).holds = some q ∧ s.cqes q = none) : IrqStep mine s i s
  | leave {q : Nat} (hi : s.pc i = .look q) (hlt : s.nrCq < q) :
    IrqStep mine s i { s with pc := update s.pc i .walk }
  | skip {q : Nat} (hi : s.pc i = .look q) (hle : q ≤ s.nrCq)
    (hskip : mine i q = false ∨ ∀ cq, s.cqes q = some cq → cq.irqEnabled = false ∨ cq.irqLock ≠ none) :
    IrqStep mine s i { s with pc := update s.pc i (.look (q + 1)) }
  | lock {q : Nat} {cq : Queue} (hi : s.pc i = .look q) (hle : q ≤ s.nrCq) (hq : s.cqes q = some cq)
    (hfree : cq.irqLock = none) : IrqStep mine s i { s with
      cqes := update s.cqes q (some { cq with irqLock := some i })
      pc := update s.pc i (.locked q)
      acquired := update s.acquired i s.log.length }
  | test {q : Nat} {cq : Queue} (hi : s.pc i = .locked q) (hq : s.cqes q = some cq) :
    IrqStep mine s i { s with pc := update s.pc i (if cq.interruptReady then .ready q else .done q) }
  | clear {q : Nat} {cq : Queue} (hi : s.pc i = .ready q) (hq : s.cqes q = some cq) :
    IrqStep mine s i { s with
      cqes := update s.cqes q (some { cq with interruptReady := false })
      pc := update s.pc i (.cleared q) }
  | signal {q : Nat} {cq : Queue} (hi : s.pc i = .cleared q) (hq : s.cqes q = some cq) :
    IrqStep mine s i { s with
      log := s.log ++ [.signalled q cq.irqVector]
      pc := update s.pc i (.done q) }
  | unlock {q : Nat} {cq : Queue} (hi : s.pc i = .done q) (hq : s.cqes q = some cq) :
    IrqStep mine s i { s with
      cqes := update s.cqes q (some { cq with irqLock := none })
      pc := update s.pc i (.look (q + 1)) }

theorem irq_step (mine : Nat → Nat → Bool) (s : Sys) (i : Nat) : IrqStep mine s i (s.irq mine i) := by
  unfold Sys.irq
  cases hi : s.pc i with
  | walk => exact .idle (.inl hi)
  | look q =>
    dsimp only
    split
    · rename_i hlt
      exact .leave hi hlt
    rename_i hle
    have hle := Nat.le_of_not_lt hle
    split
    · rename_i hmine
      exact .skip hi hle (.inl (by simpa using hmine))
    cases hq : s.cqes q with
    | none => exact .skip hi hle (.inr fun cq hc => by rw [hq] at hc; cases hc)
    | some cq =>
      have hthis {P : Queue → Prop} (hP : P cq) : ∀ cq', s.cqes q = some cq' → P cq' := by
        intro cq' hc
        rw [hq] at hc
        cases hc
        exact hP
      dsimp only
      split
      · rename_i henabled
        exact .skip hi hle (.inr (hthis (.inl (by simpa using henabled))))
      split
      · rename_i hfree
        exact .lock hi hle hq hfree
      · rename_i hheld
        exact .skip hi hle (.inr (hthis (.inr hheld)))
  | locked q =>
    have hhold : (s.pc i).holds = some q := by rw [hi]; rfl
    dsimp only
    cases hq : s.cqes q with
    | none => exact .idle (.inr ⟨q, hhold, hq⟩)
    | some cq => exact .test hi hq
  | ready q =>
    have hhold : (s.pc i).holds = some q := by rw [hi]; rfl
    dsimp only
    cases hq : s.cqes q with
    | none => exact .idle (.inr ⟨q, hhold, hq⟩)
    | some cq => exact .clear hi hq
  | cleared q =>
    have hhold : (s.pc i).holds = some q := by rw [hi]; rfl
    dsimp only
    cases hq : s.cqes q with
    | none => exact .idle (.inr ⟨q, hhold, hq⟩)
    | some cq => exact .signal hi hq
  | done q =>
    have hhold : (s.pc i).holds = some q := by rw [hi]; rfl
    dsimp only
    cases hq : s.cqes q with
    | none => exact .idle (.inr ⟨q, hhold, hq⟩)
    | some cq => exact .unlock hi hq

/-! ## The log -/

/-- A completion of the queue has no interrupt behind it. -/
def Unsignalled (log : List Event) (cqid : Nat) : Prop :=
  ∃ l₁ l₂, log = l₁ ++ .filled cqid :: l₂ ∧ ∀ ev ∈ l₂, ev.signals cqid = false

/-- All completions of the queue among the first `n` events have an interrupt behind them. -/
def SignalledTo (log : List Event) (n cqid : Nat) : Prop :=
  ∀ l₁ l₂, log = l₁ ++ .filled cqid :: l₂ → l₁.length < n → ∃ ev ∈ l₂, ev.signals cqid = true

section Log

variable {log : List Event} {ev : Event} {cqid n : Nat}

/-- The beginning of a log before a completion, and the events behind it. -/
theorem concat_cases {l₁ l₂ : List Event} (h : log ++ [ev] = l₁ ++ .filled cqid :: l₂) :
    (l₁ = log ∧ ev = .filled cqid ∧ l₂ = []) ∨ ∃ l₂', l₂ = l₂' ++ [ev] ∧ log = l₁ ++ .filled cqid :: l₂' := by
  rcases List.eq_nil_or_concat l₂ with rfl | ⟨l₂', x, rfl⟩
  · obtain ⟨rfl, hev⟩ := List.append_inj' h rfl
    exact .inl ⟨rfl, (List.cons.inj hev).1, rfl⟩
  · rw [List.concat_eq_append, ← List.cons_append, ← List.append_assoc] at h
    obtain ⟨rfl, hev⟩ := List.append_inj' h rfl
    exact .inr ⟨l₂', by rw [List.concat_eq_append, (List.cons.inj hev).1], rfl⟩

theorem unsignalled_concat : Unsignalled (log ++ [ev]) cqid ↔
    ev = .filled cqid ∨ ev.signals cqid = false ∧ Unsignalled log cqid := by
  constructor
  · rintro ⟨l₁, l₂, h, hev⟩
    obtain ⟨-, rfl, -⟩ | ⟨l₂', rfl, rfl⟩ := concat_cases h
    · exact .inl rfl
    · exact .inr ⟨hev ev (by simp), l₁, l₂', rfl, fun ev' hmem => hev ev' (by simp [hmem])⟩
  · rintro (rfl | ⟨hev, l₁, l₂, rfl, hl⟩)
    · exact ⟨log, [], rfl, nofun⟩
    · refine ⟨l₁, l₂ ++ [ev], by simp, fun ev' hmem => ?_⟩
      obtain hmem | hmem := List.mem_append.mp hmem
      · exact hl ev' hmem
      · rwa [List.mem_singleton.mp hmem]

theorem SignalledTo.concat (h : SignalledTo log n cqid) (hn : n ≤ log.length) (ev : Event) :
    SignalledTo (log ++ [ev]) n cqid := by
  intro l₁ l₂ heq hlt
  obtain ⟨rfl, -, -⟩ | ⟨l₂', rfl, rfl⟩ := concat_cases heq
  · omega
  · obtain ⟨ev', hmem, hev'⟩ := h l₁ l₂' rfl hlt
    exact ⟨ev', List.mem_append_left _ hmem, hev'⟩

/-- An interrupt is behind every completion. -/
theorem signalledTo_signalled (log : List Event) (irqVector : Nat) :
    SignalledTo (log ++ [.signalled cqid irqVector]) n cqid := by
  intro l₁ l₂ heq _
  obtain ⟨-, hev, -⟩ | ⟨l₂', rfl, -⟩ := concat_cases heq
  · cases hev
  · exact ⟨_, List.mem_append_right _ (List.mem_singleton.mpr rfl), by simp [Event.signals]⟩

/-- If no completion is without an interrupt. -/
theorem signalledTo_of_not (h : ¬ Unsignalled log cqid) : SignalledTo log n cqid := by
  intro l₁ l₂ heq _
  by_contra hno
  refine h ⟨l₁, l₂, heq, fun ev hmem => ?_⟩
  by_contra hev
  exact hno ⟨ev, hmem, by simpa using hev⟩

end Log

/-- How many completions are posted to a queue. -/
def fills (log : List Event) (cqid : Nat) : Nat := log.countP fun ev => ev = .filled cqid

/-- How many interrupts are raised for a queue. -/
def signals (log : List Event) (cqid : Nat) : Nat := log.countP (Event.signals cqid)

section Counts

variable {log : List Event} {cqid : Nat}

theorem fills_concat (log : List Event) (ev : Event) (cqid : Nat) :
    fills (log ++ [ev]) cqid = fills log cqid + if ev = .filled cqid then 1 else 0 := by
  unfold fills
  rw [List.countP_append, List.countP_singleton]
  simp

theorem signals_concat (log : List Event) (ev : Event) (cqid : Nat) :
    signals (log ++ [ev]) cqid = signals log cqid + if ev.signals cqid = true then 1 else 0 := by
  unfold signals
  rw [List.countP_append, List.countP_singleton]

end Counts

/-! ## The invariant -/

/-- The lock of a queue is held by the worker that is between taking and releasing it. The worker that has
cleared `interrupt_ready` owes an interrupt. -/
structure QueueOk (pc : Nat → Pc) (log : List Event) (acquired : Nat → Nat) (cqid : Nat) (cq : Queue) :
    Prop where
  locked : ∀ i, cq.irqLock = some i ↔ (pc i).holds = some cqid
  since : ∀ i, (pc i).holds = some cqid → acquired i ≤ log.length
  ready : ∀ i, pc i = .ready cqid → cq.interruptReady = true
  owed : Unsignalled log cqid → cq.interruptReady = true ∨ ∃ i, pc i = .cleared cqid
  done : ∀ i, pc i = .done cqid → SignalledTo log (acquired i) cqid
  count : signals log cqid + cq.interruptReady.toNat +
    (if cq.irqLock.any (fun i => pc i = .cleared cqid) then 1 else 0) ≤ fills log cqid

/-- Every queue is in order. Nothing has happened to the queues that do not exist. -/
structure Inv (s : Sys) : Prop where
  queue : ∀ cqid cq, s.cqes cqid = some cq → QueueOk s.pc s.log s.acquired cqid cq
  absent : ∀ cqid, s.cqes cqid = none →
    (∀ i, (s.pc i).holds ≠ some cqid) ∧ ¬ Unsignalled s.log cqid ∧ signals s.log cqid = 0

section Queues

variable {pc pc' : Nat → Pc} {log : List Event} {acquired acquired' : Nat → Nat} {cqid i : Nat} {cq : Queue}

/-- Two workers do not hold the same lock. -/
theorem QueueOk.unique (h : QueueOk pc log acquired cqid cq) {j : Nat} (hi : (pc i).holds = some cqid)
    (hj : (pc j).holds = some cqid) : i = j := by
  have := (h.locked i).mpr hi
  rw [(h.locked j).mpr hj] at this
  exact (Option.some.inj this).symm

/-- A worker moves outside the section of the queue. -/
theorem QueueOk.move (h : QueueOk pc log acquired cqid cq)
    (hpc : ∀ j, pc' j = pc j ∨ (pc j).holds ≠ some cqid ∧ (pc' j).holds ≠ some cqid)
    (hacq : ∀ j, (pc j).holds = some cqid → acquired' j = acquired j) :
    QueueOk pc' log acquired' cqid cq := by
  have hsame {j : Nat} (hj : (pc' j).holds = some cqid) : pc' j = pc j :=
    (hpc j).resolve_right fun hc => hc.2 hj
  have hsame' {j : Nat} (hj : (pc j).holds = some cqid) : pc' j = pc j :=
    (hpc j).resolve_right fun hc => hc.1 hj
  refine ⟨fun j => ?_, fun j hj => ?_, fun j hj => ?_, fun hun => ?_, fun j hj => ?_, ?_⟩
  · rw [h.locked]
    exact ⟨fun hj => by rwa [hsame' hj], fun hj => by rwa [← hsame hj]⟩
  · rw [hsame hj] at hj
    rw [hacq j hj]
    exact h.since j hj
  · exact h.ready j (by rw [← hsame (by rw [hj]; rfl), hj])
  · refine (h.owed hun).imp_right ?_
    rintro ⟨j, hj⟩
    exact ⟨j, by rw [hsame' (by rw [hj]; rfl), hj]⟩
  · have hj' : pc j = .done cqid := by rw [← hsame (by rw [hj]; rfl), hj]
    rw [hacq j (by rw [hj']; rfl)]
    exact h.done j hj'
  · have hcount := h.count
    cases hl : cq.irqLock with
    | none => rwa [hl] at hcount
    | some j =>
      rw [hl] at hcount
      rw [Option.any_some, hsame' ((h.locked j).mp hl)]
      exact hcount

/-- An event of another queue. -/
theorem QueueOk.other (h : QueueOk pc log acquired cqid cq) {ev : Event} (hfill : ev ≠ .filled cqid)
    (hsig : ev.signals cqid = false) : QueueOk pc (log ++ [ev]) acquired cqid cq := by
  refine ⟨h.locked, fun j hj => ?_, h.ready, fun hun => ?_, fun j hj => ?_, ?_⟩
  · rw [List.length_append]
    exact Nat.le_add_right_of_le (h.since j hj)
  · obtain hev | ⟨-, hun⟩ := unsignalled_concat.mp hun
    · exact absurd hev hfill
    · exact h.owed hun
  · exact (h.done j hj).concat (h.since j (by rw [hj]; rfl)) ev
  · rw [signals_concat, fills_concat, if_neg hfill, if_neg (by rw [hsig]; exact Bool.false_ne_true)]
    exact h.count

/-- A completion sets `interrupt_ready`. -/
theorem QueueOk.fill (h : QueueOk pc log acquired cqid cq) :
    QueueOk pc (log ++ [.filled cqid]) acquired cqid { cq with interruptReady := true } := by
  refine ⟨h.locked, fun j hj => ?_, fun _ _ => rfl, fun _ => .inl rfl, fun j hj => ?_, ?_⟩
  · rw [List.length_append]
    exact Nat.le_add_right_of_le (h.since j hj)
  · exact (h.done j hj).concat (h.since j (by rw [hj]; rfl)) _
  · have hcount := h.count
    rw [signals_concat, fills_concat, if_pos rfl, if_neg (by simp [Event.signals])]
    dsimp only
    rw [Bool.toNat_true]
    omega

/-- A worker takes the lock. -/
theorem QueueOk.lock (h : QueueOk pc log acquired cqid cq) (hfree : cq.irqLock = none) :
    QueueOk (update pc i (.locked cqid)) log (update acquired i log.length) cqid
      { cq with irqLock := some i } := by
  have hnone (j : Nat) : (pc j).holds ≠ some cqid := fun hj => by
    have := (h.locked j).mpr hj
    rw [hfree] at this
    cases this
  -- only worker `i` is in the section, where it took the lock
  have honly {j : Nat} (hj : (update pc i (.locked cqid) j).holds = some cqid) : j = i := by
    by_contra hne
    rw [update_of_ne hne] at hj
    exact hnone j hj
  have hpc {j : Nat} {p : Pc} (hj : update pc i (.locked cqid) j = p) (hp : p.holds = some cqid) :
      p = .locked cqid := by
    obtain rfl := honly (by rw [hj, hp])
    rw [update_self] at hj
    exact hj.symm
  refine ⟨fun j => ⟨fun hj => ?_, fun hj => ?_⟩, fun j hj => ?_, fun j hj => ?_, fun hun => ?_,
    fun j hj => ?_, ?_⟩
  · cases hj
    rw [update_self]
    rfl
  · rw [honly hj]
  · rw [honly hj, update_self]
  · cases hpc hj rfl
  · refine (h.owed hun).imp_right ?_
    rintro ⟨j, hj⟩
    exact absurd (by rw [hj]; rfl) (hnone j)
  · cases hpc hj rfl
  · have hcount := h.count
    rw [hfree] at hcount
    simpa using hcount

/-- The holder of the lock goes on within the section. -/
theorem holder_iff (hi : (pc i).holds = some cqid) {p : Pc} (hp : p.holds = some cqid) {j : Nat} :
    (update pc i p j).holds = some cqid ↔ (pc j).holds = some cqid := by
  by_cases hj : j = i
  · subst hj
    rw [update_self, hp, hi]
  · rw [update_of_ne hj]

/-- The place of the holder. -/
theorem QueueOk.holder_eq (h : QueueOk pc log acquired cqid cq) (hi : (pc i).holds = some cqid) {p q : Pc}
    {j : Nat} (hj : update pc i p j = q) (hq : q.holds = some cqid) : j = i ∧ q = p := by
  by_cases hne : j = i
  · subst hne
    rw [update_self] at hj
    exact ⟨rfl, hj.symm⟩
  · rw [update_of_ne hne] at hj
    exact absurd (h.unique (by rw [hj, hq]) hi) hne

/-- The holder looks at `interrupt_ready`. If it is not set, no completion is without an interrupt. -/
theorem QueueOk.test (h : QueueOk pc log acquired cqid cq) (hi : pc i = .locked cqid) :
    QueueOk (update pc i (if cq.interruptReady then .ready cqid else .done cqid)) log acquired cqid cq := by
  have hhold : (pc i).holds = some cqid := by rw [hi]; rfl
  have hp : (if cq.interruptReady then Pc.ready cqid else .done cqid).holds = some cqid := by
    split <;> rfl
  have hclear (j : Nat) : pc j ≠ .cleared cqid := fun hj => by
    obtain rfl := h.unique hhold (by rw [hj]; rfl : (pc j).holds = some cqid)
    rw [hi] at hj
    cases hj
  refine ⟨fun j => (h.locked j).trans (holder_iff hhold hp).symm, fun j hj => ?_, fun j hj => ?_,
    fun hun => .inl ((h.owed hun).resolve_right fun ⟨j, hj⟩ => hclear j hj), fun j hj => ?_, ?_⟩
  · exact h.since j ((holder_iff hhold hp).mp hj)
  · obtain ⟨-, heq⟩ := h.holder_eq hhold hj rfl
    by_contra hno
    rw [if_neg hno] at heq
    cases heq
  · obtain ⟨-, heq⟩ := h.holder_eq hhold hj rfl
    refine signalledTo_of_not fun hun => ?_
    rw [if_pos ((h.owed hun).resolve_right fun ⟨j, hj⟩ => hclear j hj)] at heq
    cases heq
  · have hcount := h.count
    rw [(h.locked i).mpr hhold] at hcount ⊢
    rw [Option.any_some, update_self]
    have hno : (if cq.interruptReady then Pc.ready cqid else .done cqid) ≠ .cleared cqid := by
      split <;> nofun
    simp only [hno, decide_false, Bool.false_eq_true, if_false]
    omega

/-- It clears `interrupt_ready`, and owes an interrupt. -/
theorem QueueOk.clear (h : QueueOk pc log acquired cqid cq) (hi : pc i = .ready cqid) :
    QueueOk (update pc i (.cleared cqid)) log acquired cqid { cq with interruptReady := false } := by
  have hhold : (pc i).holds = some cqid := by rw [hi]; rfl
  have hready := h.ready i hi
  refine ⟨fun j => (h.locked j).trans (holder_iff hhold rfl).symm, fun j hj => ?_, fun j hj => ?_,
    fun _ => .inr ⟨i, update_self ..⟩, fun j hj => ?_, ?_⟩
  · exact h.since j ((holder_iff hhold rfl).mp hj)
  · cases (h.holder_eq hhold hj rfl).2
  · cases (h.holder_eq hhold hj rfl).2
  · have hcount := h.count
    rw [(h.locked i).mpr hhold, Option.any_some, hi, hready] at hcount
    dsimp only
    rw [(h.locked i).mpr hhold, Option.any_some, update_self]
    simpa using hcount

/-- It raises the interrupt. -/
theorem QueueOk.signal (h : QueueOk pc log acquired cqid cq) (hi : pc i = .cleared cqid) (irqVector : Nat) :
    QueueOk (update pc i (.done cqid)) (log ++ [.signalled cqid irqVector]) acquired cqid cq := by
  have hhold : (pc i).holds = some cqid := by rw [hi]; rfl
  have hsig : (Event.signalled cqid irqVector).signals cqid = true := by simp [Event.signals]
  refine ⟨fun j => (h.locked j).trans (holder_iff hhold rfl).symm, fun j hj => ?_, fun j hj => ?_,
    fun hun => ?_, fun j hj => signalledTo_signalled log irqVector, ?_⟩
  · rw [List.length_append]
    exact Nat.le_add_right_of_le (h.since j ((holder_iff hhold rfl).mp hj))
  · cases (h.holder_eq hhold hj rfl).2
  · obtain hev | ⟨hno, -⟩ := unsignalled_concat.mp hun
    · cases hev
    · rw [hsig] at hno
      cases hno
  · have hcount := h.count
    rw [(h.locked i).mpr hhold, Option.any_some, hi] at hcount
    rw [signals_concat, fills_concat, if_pos hsig, (h.locked i).mpr hhold, Option.any_some, update_self]
    simp only [decide_true, if_true] at hcount
    simp only [reduceCtorEq, decide_false, Bool.false_eq_true, if_false]
    omega

/-- It releases the lock. -/
theorem QueueOk.unlock (h : QueueOk pc log acquired cqid cq) (hi : pc i = .done cqid) {p : Pc}
    (hp : p.holds = none) : QueueOk (update pc i p) log acquired cqid { cq with irqLock := none } := by
  have hhold : (pc i).holds = some cqid := by rw [hi]; rfl
  have hnone (j : Nat) : (update pc i p j).holds ≠ some cqid := by
    by_cases hj : j = i
    · subst hj
      rw [update_self, hp]
      nofun
    · rw [update_of_ne hj]
      exact fun hc => hj (h.unique hc hhold)
  refine ⟨fun j => ⟨nofun, fun hj => absurd hj (hnone j)⟩, fun j hj => absurd hj (hnone j),
    fun j hj => absurd (by rw [hj]; rfl) (hnone j), fun hun => .inl ?_,
    fun j hj => absurd (by rw [hj]; rfl) (hnone j), ?_⟩
  · refine (h.owed hun).resolve_right fun ⟨j, hj⟩ => ?_
    obtain rfl := h.unique hhold (by rw [hj]; rfl : (pc j).holds = some cqid)
    rw [hi] at hj
    cases hj
  · have hcount := h.count
    rw [Option.any_none]
    simp only [Bool.false_eq_true, if_false]
    omega

end Queues

section Steps

variable {s : Sys} (h : Inv s)

include h

/-- A worker moves outside the sections of the queues. -/
theorem Inv.move {i : Nat} {p : Pc} (hi : (s.pc i).holds = none) (hp : p.holds = none) :
    Inv { s with pc := update s.pc i p } := by
  have hpc (c j : Nat) : update s.pc i p j = s.pc j ∨
      (s.pc j).holds ≠ some c ∧ (update s.pc i p j).holds ≠ some c := by
    by_cases hj : j = i
    · subst hj
      rw [update_self, hi, hp]
      exact .inr ⟨nofun, nofun⟩
    · exact .inl (update_of_ne hj ..)
  refine ⟨fun c cq hc => (h.queue c cq hc).move (hpc c) fun _ _ => rfl, fun c hc => ?_⟩
  obtain ⟨hno, hrest⟩ := h.absent c hc
  refine ⟨fun j => ?_, hrest⟩
  obtain heq | hne := hpc c j
  · dsimp only
    rw [heq]
    exact hno j
  · exact hne.2

/-- A step of worker `i` at a queue. -/
theorem Inv.atQueue {i cqid : Nat} {p : Pc} {cq cq' : Queue} {log : List Event} {acquired : Nat → Nat}
    (hq : s.cqes cqid = some cq) (hold : ∀ c ≠ cqid, (s.pc i).holds ≠ some c)
    (hnew : ∀ c ≠ cqid, p.holds ≠ some c) (hok : QueueOk (update s.pc i p) log acquired cqid cq')
    (hlog : log = s.log ∨ ∃ irqVector, log = s.log ++ [.signalled cqid irqVector])
    (hacq : ∀ j ≠ i, acquired j = s.acquired j) :
    Inv { s with
      cqes := update s.cqes cqid (some cq'), pc := update s.pc i p, log, acquired } := by
  have hpc (c j : Nat) (hc : c ≠ cqid) : update s.pc i p j = s.pc j ∨
      (s.pc j).holds ≠ some c ∧ (update s.pc i p j).holds ≠ some c := by
    by_cases hj : j = i
    · subst hj
      rw [update_self]
      exact .inr ⟨hold c hc, hnew c hc⟩
    · exact .inl (update_of_ne hj ..)
  have hev {c irqVector : Nat} (hc : c ≠ cqid) : (Event.signalled cqid irqVector).signals c = false := by
    simp [Event.signals, Ne.symm hc]
  refine ⟨fun c cq₀ hc => ?_, fun c hc => ?_⟩
  · dsimp only at hc ⊢
    by_cases hcq : c = cqid
    · subst hcq
      rw [update_self] at hc
      cases hc
      exact hok
    · rw [update_of_ne hcq] at hc
      have hmove : QueueOk (update s.pc i p) s.log acquired c cq₀ := (h.queue c cq₀ hc).move
        (fun j => hpc c j hcq) fun j hj => hacq j fun hji => hold c hcq (hji ▸ hj)
      obtain rfl | ⟨irqVector, rfl⟩ := hlog
      · exact hmove
      · exact hmove.other nofun (hev hcq)
  · dsimp only at hc ⊢
    have hcq : c ≠ cqid := by
      rintro rfl
      rw [update_self] at hc
      cases hc
    rw [update_of_ne hcq] at hc
    obtain ⟨hno, hun, hsig⟩ := h.absent c hc
    refine ⟨fun j => ?_, ?_⟩
    · obtain heq | hne := hpc c j hcq
      · rw [heq]
        exact hno j
      · exact hne.2
    · obtain rfl | ⟨irqVector, rfl⟩ := hlog
      · exact ⟨hun, hsig⟩
      · rw [signals_concat, if_neg (by rw [hev hcq]; exact Bool.false_ne_true), unsignalled_concat]
        refine ⟨?_, hsig⟩
        rintro (hf | ⟨-, hf⟩)
        · cases hf
        · exact hun hf

theorem Inv.create (cqid irqVector : Nat) (irqEnabled : Bool) (hnone : s.cqes cqid = none) :
    Inv { s with cqes := update s.cqes cqid (some { irqEnabled, irqVector }) } := by
  obtain ⟨hno, hun, hsig⟩ := h.absent cqid hnone
  refine ⟨fun c cq hc => ?_, fun c hc => ?_⟩
  · dsimp only at hc ⊢
    by_cases hcq : c = cqid
    · subst hcq
      rw [update_self] at hc
      cases hc
      have hpc {j : Nat} {p : Pc} (hj : s.pc j = p) (hp : p.holds = some c) : False :=
        hno j (by rw [hj, hp])
      refine ⟨fun j => ⟨nofun, fun hj => absurd hj (hno j)⟩, fun j hj => absurd hj (hno j),
        fun j hj => (hpc hj rfl).elim, fun hf => absurd hf hun, fun j hj => (hpc hj rfl).elim, ?_⟩
      rw [hsig]
      exact Nat.zero_le _
    · rw [update_of_ne hcq] at hc
      exact h.queue c cq hc
  · dsimp only at hc
    by_cases hcq : c = cqid
    · rw [hcq, update_self] at hc
      cases hc
    · rw [update_of_ne hcq] at hc
      exact h.absent c hc

theorem Inv.fill {cqid : Nat} {cq : Queue} (hq : s.cqes cqid = some cq) :
    Inv { s with
      cqes := update s.cqes cqid (some { cq with interruptReady := true })
      log := s.log ++ [.filled cqid] } := by
  refine ⟨fun c cq₀ hc => ?_, fun c hc => ?_⟩
  · dsimp only at hc ⊢
    by_cases hcq : c = cqid
    · subst hcq
      rw [update_self] at hc
      cases hc
      exact (h.queue c cq hq).fill
    · rw [update_of_ne hcq] at hc
      exact (h.queue c cq₀ hc).other (fun hev => hcq (Event.filled.inj hev).symm) rfl
  · dsimp only at hc ⊢
    have hcq : c ≠ cqid := by
      rintro rfl
      rw [update_self] at hc
      cases hc
    rw [update_of_ne hcq] at hc
    obtain ⟨hno, hun, hsig⟩ := h.absent c hc
    rw [signals_concat, unsignalled_concat]
    refine ⟨hno, ?_, hsig⟩
    rintro (hev | ⟨-, hf⟩)
    · exact hcq (Event.filled.inj hev).symm
    · exact hun hf

/-- A step of a worker in the loop over the completion queues. -/
theorem Inv.irq (mine : Nat → Nat → Bool) (i : Nat) : Inv (s.irq mine i) := by
  have hsame {c q : Nat} {p : Pc} (hp : p.holds = some q) (hc : c ≠ q) : p.holds ≠ some c :=
    fun heq => hc (Option.some.inj (heq.symm.trans hp))
  have hstep := irq_step mine s i
  generalize s.irq mine i = s' at hstep ⊢
  cases hstep with
  | idle hi => exact h
  | leave hi hlt => exact h.move (by rw [hi]; rfl) rfl
  | skip hi hle hskip => exact h.move (by rw [hi]; rfl) rfl
  | lock hi hle hq hfree =>
    exact h.atQueue hq (fun c _ => by rw [hi]; nofun) (fun c hc => hsame rfl hc)
      ((h.queue _ _ hq).lock hfree) (.inl rfl) fun j hj => update_of_ne hj ..
  | @test q cq hi hq =>
    have hhold : (if cq.interruptReady then Pc.ready q else .done q).holds = some q := by split <;> rfl
    have hat := h.atQueue hq (fun c hc => hsame (by rw [hi]; rfl) hc) (fun c hc => hsame hhold hc)
      ((h.queue q cq hq).test hi) (.inl rfl) fun _ _ => rfl
    rwa [← hq, update_eq_self] at hat
  | clear hi hq =>
    exact h.atQueue hq (fun c hc => hsame (by rw [hi]; rfl) hc) (fun c hc => hsame rfl hc)
      ((h.queue _ _ hq).clear hi) (.inl rfl) fun _ _ => rfl
  | @signal q cq hi hq =>
    have hat := h.atQueue hq (fun c hc => hsame (by rw [hi]; rfl) hc) (fun c hc => hsame rfl hc)
      ((h.queue q cq hq).signal hi cq.irqVector) (.inr ⟨_, rfl⟩) fun _ _ => rfl
    rwa [← hq, update_eq_self] at hat
  | unlock hi hq =>
    exact h.atQueue hq (fun c hc => hsame (by rw [hi]; rfl) hc) (fun _ _ => nofun)
      ((h.queue _ _ hq).unlock hi rfl) (.inl rfl) fun _ _ => rfl

/-- Every step keeps the invariant. -/
theorem Inv.step (mine : Nat → Nat → Bool) (a : Action) : Inv (step mine s a) := by
  cases a with
  | create cqid irqEnabled irqVector =>
    unfold Irq.step
    dsimp only
    cases hq : s.cqes cqid with
    | none => exact h.create cqid irqVector irqEnabled hq
    | some cq => exact h
  | fill i cqid =>
    unfold Irq.step
    dsimp only
    cases hq : s.cqes cqid with
    | none => exact h
    | some cq =>
      dsimp only
      split
      · exact h.fill hq
      · exact h
  | endWalk i =>
    unfold Irq.step
    dsimp only
    split
    · rename_i hi
      exact h.move (by rw [hi]; rfl) rfl
    · exact h
  | irq i => exact h.irq mine i

end Steps

theorem inv_init (nrCq : Nat) : Inv { nrCq } where
  queue _ _ hc := by cases hc
  absent _ _ := by
    refine ⟨fun _ => nofun, ?_, rfl⟩
    rintro ⟨l₁, l₂, heq, -⟩
    simp at heq

theorem inv_run (mine : Nat → Nat → Bool) (nrCq : Nat) (actions : List Action) :
    Inv (actions.foldl (step mine) { nrCq }) :=
  invariant (P := fun _ _ => True) (inv_init nrCq) (fun _ _ _ => trivial)
    (fun _ a h _ => h.step mine a) actions (List.prefix_refl _)

end Irq

/-- Any number of workers and completion queues, in any interleaving: at most one worker at a time is between
taking and releasing the lock of a queue; the worker that is about to release it leaves no completion without
an interrupt that was posted before it took the lock; a completion without an interrupt has `interrupt_ready`
set, or a worker that has cleared it is about to raise the interrupt; and there are never more interrupts
than completions. -/
theorem interrupts_signalled (mine : Nat → Nat → Bool) (nrCq : Nat) (actions : List Irq.Action) :
    let s := actions.foldl (Irq.step mine) { nrCq }
    ∀ cqid, (∀ i j, (s.pc i).holds = some cqid → (s.pc j).holds = some cqid → i = j) ∧
      (∀ i, s.pc i = .done cqid → Irq.SignalledTo s.log (s.acquired i) cqid) ∧
      (Irq.Unsignalled s.log cqid →
        (∃ cq, s.cqes cqid = some cq ∧ cq.interruptReady = true) ∨ ∃ i, s.pc i = .cleared cqid) ∧
      Irq.signals s.log cqid ≤ Irq.fills s.log cqid := by
  intro s cqid
  have h : Irq.Inv s := Irq.inv_run mine nrCq actions
  cases hq : s.cqes cqid with
  | none =>
    obtain ⟨hno, hun, hsig⟩ := h.absent cqid hq
    refine ⟨fun i j hi _ => absurd hi (hno i), fun i hi => absurd (by rw [hi]; rfl) (hno i),
      fun hf => absurd hf hun, ?_⟩
    rw [hsig]
    exact Nat.zero_le _
  | some cq =>
    have hok := h.queue cqid cq hq
    refine ⟨fun i j hi hj => hok.unique hi hj, hok.done,
      fun hun => (hok.owed hun).imp_left fun hr => ⟨cq, rfl, hr⟩, ?_⟩
    have := hok.count
    omega

end Nvmev
