import NvmeVirt.Io.Interrupts
import NvmeVirt.Lib.Fair

/-!
# Every completion gets its interrupt

An infinite run of the `nr_io_workers` workers in which none stops (`Irq.Fair`): its walks over the requests
end, and it goes on in the loop over the completion queues. `interrupts_raised`: every completion of a queue
whose interrupts are enabled is followed by an interrupt.

A queue that is owed an interrupt and does not get one keeps `interrupt_ready`. Then no worker can take its
lock without raising the interrupt, so the lock becomes free and stays so, and the next worker that looks at
the queue takes it.
-/

namespace Nvmev

open Function

namespace Irq

variable {mine : Nat → Nat → Bool}

/-- The worker that takes a step. -/
def Action.worker : Action → Option Nat
  | .create .. => none
  | .fill i _ | .endWalk i | .irq i => some i

/-- The steps are those of the given number of workers, and none of these stops. -/
structure Fair (nrIoWorkers : Nat) (r : Fair.Run (step mine)) : Prop where
  only : ∀ n i, (r.act n).worker = some i → i < nrIoWorkers
  walk : ∀ n, ∀ i < nrIoWorkers, (r.state n).pc i = .walk → ∃ m, n ≤ m ∧ r.act m = .endWalk i
  irq : ∀ n, ∀ i < nrIoWorkers, (r.state n).pc i ≠ .walk → ∃ m, n ≤ m ∧ r.act m = .irq i

/-- A worker in the section of a queue is at a queue that it looks at. -/
def Bounded (s : Sys) : Prop := ∀ i qidx, (s.pc i).holds = some qidx → qidx ≤ s.nrCq

/-! ## What a step does to a worker and to a queue -/

section Steps

variable {s : Sys}

theorem irq_nrCq (i : Nat) : (s.irq mine i).nrCq = s.nrCq := by
  have hstep := irq_step mine s i
  generalize s.irq mine i = s' at hstep ⊢
  cases hstep <;> rfl

theorem step_nrCq (a : Action) : (step mine s a).nrCq = s.nrCq := by
  cases a with
  | create cqid irqEnabled irqVector =>
    unfold step
    dsimp only
    cases s.cqes cqid <;> rfl
  | fill i cqid =>
    unfold step
    dsimp only
    cases s.cqes cqid with
    | none => rfl
    | some cq =>
      dsimp only
      split <;> rfl
  | endWalk i =>
    unfold step
    dsimp only
    split <;> rfl
  | irq i => exact irq_nrCq i

/-- A step of a worker in the loop moves only this worker. -/
theorem irq_pc_of_ne {i j : Nat} (hj : j ≠ i) : (s.irq mine i).pc j = s.pc j := by
  have hstep := irq_step mine s i
  generalize s.irq mine i = s' at hstep ⊢
  cases hstep with
  | idle => rfl
  | _ => exact update_of_ne hj ..

/-- A worker stays where it is, unless it ends its walk there or goes on in the loop. -/
theorem step_pc_of_ne {a : Action} {i : Nat} (hwalk : a = .endWalk i → s.pc i ≠ .walk)
    (hirq : a = .irq i → s.pc i = .walk) : (step mine s a).pc i = s.pc i := by
  cases a with
  | create cqid irqEnabled irqVector =>
    unfold step
    dsimp only
    cases s.cqes cqid <;> rfl
  | fill j cqid =>
    unfold step
    dsimp only
    cases s.cqes cqid with
    | none => rfl
    | some cq =>
      dsimp only
      split <;> rfl
  | endWalk j =>
    unfold step
    dsimp only
    split
    · rename_i hj
      refine update_of_ne ?_ ..
      rintro rfl
      exact hwalk rfl hj
    · rfl
  | irq j =>
    by_cases hj : i = j
    · subst hj
      change (s.irq mine i).pc i = s.pc i
      unfold Sys.irq
      rw [hirq rfl]
      exact hirq rfl
    · exact irq_pc_of_ne hj

/-- The queues stay, and so do their flags for interrupts. -/
theorem step_enabled (a : Action) {q : Nat} (hq : ∃ cq, s.cqes q = some cq ∧ cq.irqEnabled = true) :
    ∃ cq, (step mine s a).cqes q = some cq ∧ cq.irqEnabled = true := by
  have hupdate {c : Nat} {cq cq' : Queue} (hc : s.cqes c = some cq) (he : cq'.irqEnabled = cq.irqEnabled) :
      ∃ cq₀, update s.cqes c (some cq') q = some cq₀ ∧ cq₀.irqEnabled = true := by
    by_cases hcq : q = c
    · subst hcq
      obtain ⟨cq₀, hq, hen⟩ := hq
      rw [hc] at hq
      cases hq
      exact ⟨cq', update_self .., he.trans hen⟩
    · rw [update_of_ne hcq]
      exact hq
  cases a with
  | create cqid irqEnabled irqVector =>
    unfold step
    dsimp only
    cases hc : s.cqes cqid with
    | some cq => exact hq
    | none =>
      obtain ⟨cq, hq, hen⟩ := hq
      refine ⟨cq, ?_, hen⟩
      dsimp only
      rw [update_of_ne, hq]
      rintro rfl
      rw [hq] at hc
      cases hc
  | fill i cqid =>
    unfold step
    dsimp only
    cases hc : s.cqes cqid with
    | none => exact hq
    | some cq =>
      dsimp only
      split
      · exact hupdate hc rfl
      · exact hq
  | endWalk i =>
    unfold step
    dsimp only
    split <;> exact hq
  | irq i =>
    change ∃ cq, (s.irq mine i).cqes q = some cq ∧ cq.irqEnabled = true
    have hstep := irq_step mine s i
    generalize s.irq mine i = s' at hstep ⊢
    cases hstep with
    | idle => exact hq
    | leave => exact hq
    | skip => exact hq
    | test => exact hq
    | signal => exact hq
    | lock hi hle hc hfree => exact hupdate hc rfl
    | clear hi hc => exact hupdate hc rfl
    | unlock hi hc => exact hupdate hc rfl

/-- Without an interrupt for the queue, its completions stay without one. -/
theorem step_unsignalled {a : Action} {q : Nat} (hun : Unsignalled s.log q)
    (hno : ∀ i, a = .irq i → s.pc i ≠ .cleared q) : Unsignalled (step mine s a).log q := by
  cases a with
  | create cqid irqEnabled irqVector =>
    unfold step
    dsimp only
    cases s.cqes cqid <;> exact hun
  | fill i cqid =>
    unfold step
    dsimp only
    cases s.cqes cqid with
    | none => exact hun
    | some cq =>
      dsimp only
      split
      · exact unsignalled_concat.mpr (.inr ⟨rfl, hun⟩)
      · exact hun
  | endWalk i =>
    unfold step
    dsimp only
    split <;> exact hun
  | irq i =>
    change Unsignalled (s.irq mine i).log q
    have hstep := irq_step mine s i
    generalize s.irq mine i = s' at hstep ⊢
    cases hstep with
    | @signal q' cq hi hq =>
      refine unsignalled_concat.mpr (.inr ⟨?_, hun⟩)
      have hne : q' ≠ q := by
        rintro rfl
        exact hno i rfl hi
      simp [Event.signals, hne]
    | _ => exact hun

/-- A worker outside the section of a queue enters it only by taking the lock. -/
theorem step_holds {a : Action} {i q : Nat} (h : (s.pc i).holds ≠ some q)
    (h' : ((step mine s a).pc i).holds = some q) : (step mine s a).pc i = .locked q := by
  by_cases ha : a = .irq i
  · subst ha
    change ((s.irq mine i).pc i).holds = some q at h'
    change (s.irq mine i).pc i = .locked q
    have hstep := irq_step mine s i
    generalize s.irq mine i = s' at hstep h' ⊢
    cases hstep with
    | idle => exact absurd h' h
    | leave hi =>
      dsimp only at h'
      rw [update_self] at h'
      cases h'
    | skip hi =>
      dsimp only at h'
      rw [update_self] at h'
      cases h'
    | lock hi =>
      dsimp only at h' ⊢
      rw [update_self] at h' ⊢
      cases h'
      rfl
    | @test q' cq hi hq =>
      have hold : (if cq.interruptReady then Pc.ready q' else .done q').holds = some q' := by split <;> rfl
      dsimp only at h'
      rw [update_self, hold] at h'
      rw [hi] at h
      exact absurd h' h
    | clear hi =>
      dsimp only at h'
      rw [update_self] at h'
      rw [hi] at h
      exact absurd h' h
    | signal hi =>
      dsimp only at h'
      rw [update_self] at h'
      rw [hi] at h
      exact absurd h' h
    | unlock hi =>
      dsimp only at h'
      rw [update_self] at h'
      cases h'
  · by_cases hw : a = .endWalk i ∧ s.pc i = .walk
    · obtain ⟨rfl, hw⟩ := hw
      unfold step at h'
      dsimp only at h'
      rw [if_pos hw] at h'
      dsimp only at h'
      rw [update_self] at h'
      cases h'
    · rw [step_pc_of_ne (fun he hc => hw ⟨he, hc⟩) (fun he => absurd he ha)] at h'
      exact absurd h' h

/-- It takes the lock of a queue that exists. -/
theorem step_lock_le {a : Action} {i q : Nat} (h : (s.pc i).holds ≠ some q)
    (h' : (step mine s a).pc i = .locked q) : q ≤ s.nrCq := by
  by_cases ha : a = .irq i
  · subst ha
    change (s.irq mine i).pc i = .locked q at h'
    have hstep := irq_step mine s i
    generalize s.irq mine i = s' at hstep h'
    cases hstep with
    | idle => exact absurd (by rw [h']; rfl) h
    | lock hi hle =>
      dsimp only at h'
      rw [update_self] at h'
      cases h'
      exact hle
    | @test q' cq hi hq =>
      dsimp only at h'
      rw [update_self] at h'
      split at h' <;> cases h'
    | _ =>
      dsimp only at h'
      rw [update_self] at h'
      cases h'
  · by_cases hw : a = .endWalk i ∧ s.pc i = .walk
    · obtain ⟨rfl, hw⟩ := hw
      unfold step at h'
      dsimp only at h'
      rw [if_pos hw] at h'
      dsimp only at h'
      rw [update_self] at h'
      cases h'
    · rw [step_pc_of_ne (fun he hc => hw ⟨he, hc⟩) (fun he => absurd he ha)] at h'
      exact absurd (by rw [h']; rfl) h

end Steps

section Runs

variable {r : Fair.Run (step mine)} {nrCq nrIoWorkers n q : Nat}

theorem run_inv (h0 : r.state 0 = { nrCq }) (n : Nat) : Inv (r.state n) := by
  induction n with
  | zero =>
    rw [h0]
    exact inv_init nrCq
  | succ n ih =>
    rw [r.next]
    exact ih.step mine _

theorem run_nrCq (h0 : r.state 0 = { nrCq }) (n : Nat) : (r.state n).nrCq = nrCq := by
  induction n with
  | zero => rw [h0]
  | succ n ih => rw [r.next, step_nrCq, ih]

/-- A worker looks at no queue past the last. -/
theorem run_bounded (h0 : r.state 0 = { nrCq }) (n : Nat) : Bounded (r.state n) := by
  induction n with
  | zero =>
    rw [h0]
    exact fun _ _ hq => by cases hq
  | succ n ih =>
    intro i q hq
    rw [r.next] at hq ⊢
    rw [step_nrCq]
    by_cases hold : ((r.state n).pc i).holds = some q
    · exact ih i q hold
    · exact step_lock_le hold (step_holds hold hq)

/-- Whoever is in the loop over the completion queues is one of the workers. -/
theorem Fair.lt_of_irq (h0 : r.state 0 = { nrCq }) (hf : Fair nrIoWorkers r) {i : Nat}
    (hi : (r.state n).pc i ≠ .walk) : i < nrIoWorkers := by
  induction n with
  | zero =>
    rw [h0] at hi
    exact absurd rfl hi
  | succ n ih =>
    by_cases hw : (r.state n).pc i = .walk
    · by_contra hlt
      have hne {a : Action} (ha : a.worker = some i) : r.act n ≠ a := fun he =>
        hlt (hf.only n i (by rw [he]; exact ha))
      refine hi ?_
      rw [r.next, step_pc_of_ne (fun he => absurd he (hne rfl)) (fun he => absurd he (hne rfl)), hw]
    · exact ih hw

/-- A worker goes on from where it is. -/
theorem Fair.advance (hf : Fair nrIoWorkers r) (n : Nat) {i : Nat} (hlt : i < nrIoWorkers) : ∃ m, n ≤ m ∧ (r.state m).pc i = (r.state n).pc i ∧
    ((r.state n).pc i = .walk → r.act m = .endWalk i) ∧
    ((r.state n).pc i ≠ .walk → r.act m = .irq i) := by
  by_cases hw : (r.state n).pc i = .walk
  · have hkeep (m : Nat) (heq : (r.state m).pc i = (r.state n).pc i) (ha : r.act m ≠ .endWalk i) :
        (r.state (m + 1)).pc i = (r.state m).pc i := by
      rw [r.next]
      exact step_pc_of_ne (fun he => absurd he ha) fun _ => heq.trans hw
    obtain ⟨m, hm, ha, hpc⟩ := r.wait (f := fun s => s.pc i)
      (A := fun a => a = .endWalk i) hkeep (hf.walk n i hlt hw)
    exact ⟨m, hm, hpc, fun _ => ha, fun hne => absurd hw hne⟩
  · have hkeep (m : Nat) (heq : (r.state m).pc i = (r.state n).pc i) (ha : r.act m ≠ .irq i) :
        (r.state (m + 1)).pc i = (r.state m).pc i := by
      rw [r.next]
      exact step_pc_of_ne (fun _ hc => hw (heq.symm.trans hc)) fun he => absurd he ha
    obtain ⟨m, hm, ha, hpc⟩ := r.wait (f := fun s => s.pc i)
      (A := fun a => a = .irq i) hkeep (hf.irq n i hlt hw)
    exact ⟨m, hm, hpc, fun hc => absurd hc hw, fun _ => ha⟩

/-- A worker in the section of a queue, or in front of one, and its next step. -/
theorem Fair.advance_irq (h0 : r.state 0 = { nrCq }) (hf : Fair nrIoWorkers r) {n i : Nat} {p : Pc}
    (hp : (r.state n).pc i = p) (hne : p ≠ .walk) :
    ∃ m, n ≤ m ∧ (r.state m).pc i = p ∧ r.act m = .irq i ∧
      r.state (m + 1) = (r.state m).irq mine i := by
  obtain ⟨m, hm, hpc, -, ha⟩ := hf.advance n (hf.lt_of_irq h0 (by rwa [hp]))
  have ha := ha (by rwa [hp])
  refine ⟨m, hm, hpc.trans hp, ha, ?_⟩
  rw [r.next, ha]
  rfl

/-! ## A queue that is owed an interrupt -/

/-- From time `n` on, a completion of the queue has no interrupt, and none is raised. -/
structure Stuck (r : Fair.Run (step mine)) (n q : Nat) : Prop where
  unsignalled : ∀ m, n ≤ m → Unsignalled (r.state m).log q
  cleared : ∀ m, n ≤ m → ∀ i, (r.state m).pc i ≠ .cleared q

theorem stuck_of (h0 : r.state 0 = { nrCq }) (hf : Fair nrIoWorkers r)
    (hun : Unsignalled (r.state n).log q)
    (hno : ∀ m, n ≤ m → ∀ i, r.act m = .irq i → (r.state m).pc i ≠ .cleared q) : Stuck r n q where
  unsignalled := Fair.always (fun m hm h => by
    rw [r.next]
    exact step_unsignalled h (hno m hm)) hun
  cleared m hm i hi := by
    obtain ⟨m', hm', hpc, ha, -⟩ := hf.advance_irq h0 hi nofun
    exact hno m' (Nat.le_trans hm hm') i ha hpc

section Stuck

variable (h0 : r.state 0 = { nrCq }) (hf : Fair nrIoWorkers r) (hs : Stuck r n q)

include h0 hs

/-- The queue keeps `interrupt_ready`. -/
theorem Stuck.ready {m : Nat} (hm : n ≤ m) :
    ∃ cq, (r.state m).cqes q = some cq ∧ cq.interruptReady = true := by
  cases hq : (r.state m).cqes q with
  | none => exact absurd (hs.unsignalled m hm) ((run_inv h0 m).absent q hq).2.1
  | some cq =>
    refine ⟨cq, rfl, (((run_inv h0 m).queue q cq hq).owed (hs.unsignalled m hm)).resolve_right ?_⟩
    rintro ⟨i, hi⟩
    exact hs.cleared m hm i hi

include hf

/-- No worker has seen `interrupt_ready`. -/
theorem Stuck.not_ready {m i : Nat} (hm : n ≤ m) : (r.state m).pc i ≠ .ready q := by
  intro hi
  obtain ⟨m', hm', hpc, -, hnext⟩ := hf.advance_irq h0 hi nofun
  obtain ⟨cq, hq, -⟩ := hs.ready h0 (Nat.le_trans hm hm')
  refine hs.cleared (m' + 1) (by omega) i ?_
  rw [hnext]
  unfold Sys.irq
  rw [hpc]
  dsimp only
  rw [hq]
  exact update_self ..

/-- No worker has taken the lock, and is to look at `interrupt_ready`. -/
theorem Stuck.not_locked {m i : Nat} (hm : n ≤ m) : (r.state m).pc i ≠ .locked q := by
  intro hi
  obtain ⟨m', hm', hpc, -, hnext⟩ := hf.advance_irq h0 hi nofun
  obtain ⟨cq, hq, hready⟩ := hs.ready h0 (Nat.le_trans hm hm')
  refine hs.not_ready h0 hf (m := m' + 1) (i := i) (by omega) ?_
  rw [hnext]
  unfold Sys.irq
  rw [hpc]
  dsimp only
  rw [hq]
  dsimp only
  rw [update_self, if_pos hready]

/-- The lock becomes free and stays so. -/
theorem Stuck.free : ∃ m, n ≤ m ∧ ∀ m', m ≤ m' → ∀ i, ((r.state m').pc i).holds ≠ some q := by
  have hstay {m : Nat} (hm : n ≤ m) (h : ∀ i, ((r.state m).pc i).holds ≠ some q) :
      ∀ m', m ≤ m' → ∀ i, ((r.state m').pc i).holds ≠ some q := by
    refine Fair.always (fun m' hm' h i hi => ?_) h
    rw [r.next] at hi
    have hlocked := step_holds (h i) hi
    rw [← r.next] at hlocked
    exact hs.not_locked h0 hf (by omega) hlocked
  by_cases hnone : ∀ i, ((r.state n).pc i).holds ≠ some q
  · exact ⟨n, Nat.le_refl _, hstay (Nat.le_refl _) hnone⟩
  -- the worker in the section is about to release the lock
  obtain ⟨i, hi⟩ := not_forall.mp hnone
  have hi := not_not.mp hi
  have hdone : (r.state n).pc i = .done q := by
    cases hp : (r.state n).pc i with
    | walk => rw [hp] at hi; cases hi
    | look q' => rw [hp] at hi; cases hi
    | locked q' =>
      rw [hp] at hi
      cases hi
      exact absurd hp (hs.not_locked h0 hf (Nat.le_refl _))
    | ready q' =>
      rw [hp] at hi
      cases hi
      exact absurd hp (hs.not_ready h0 hf (Nat.le_refl _))
    | cleared q' =>
      rw [hp] at hi
      cases hi
      exact absurd hp (hs.cleared n (Nat.le_refl _) i)
    | done q' =>
      rw [hp] at hi
      cases hi
      rfl
  obtain ⟨m, hm, hpc, -, hnext⟩ := hf.advance_irq h0 hdone nofun
  obtain ⟨cq, hq, -⟩ := hs.ready h0 hm
  refine ⟨m + 1, by omega, hstay (by omega) fun j hj => ?_⟩
  rw [hnext] at hj
  by_cases hji : j = i
  · subst hji
    unfold Sys.irq at hj
    rw [hpc] at hj
    dsimp only at hj
    rw [hq] at hj
    dsimp only at hj
    rw [update_self] at hj
    cases hj
  · rw [irq_pc_of_ne hji] at hj
    exact hji (((run_inv h0 m).queue q cq hq).unique hj (by rw [hpc]; rfl))

end Stuck

/-! ## The next look at a queue -/

/-- How far a worker is from its next look at queue `q`. -/
def distance (nrCq q : Nat) : Pc → Nat
  | .walk => 6 * q
  | .look k => base k + 5
  | .locked k => base k + 4
  | .ready k => base k + 3
  | .cleared k => base k + 2
  | .done k => base k + 1
where
  base (k : Nat) : Nat := if k ≤ q then 6 * (q - k) else 6 * (q + 1 + (nrCq + 1 - k))

/-- A step of a worker that is not at the queue brings it closer. -/
theorem distance_irq {s : Sys} (hinv : Inv s) (hb : Bounded s) {i : Nat} (hw : s.pc i ≠ .walk)
    (hlook : s.pc i ≠ .look q) (hhold : (s.pc i).holds ≠ some q) (hq : q ≤ s.nrCq) :
    distance s.nrCq q ((s.irq mine i).pc i) < distance s.nrCq q (s.pc i) := by
  have hstep := irq_step mine s i
  generalize s.irq mine i = s' at hstep ⊢
  have hbi := hb i
  cases hstep with
  | idle hi =>
    obtain hi | ⟨k, hk, hnone⟩ := hi
    · exact absurd hi hw
    · exact absurd hk ((hinv.absent k hnone).1 i)
  | @leave k hi hlt =>
    dsimp only
    rw [update_self, hi]
    dsimp only [distance, distance.base]
    rw [if_neg (by omega)]
    omega
  | @skip k hi hle =>
    rw [hi] at hlook
    have hne : k ≠ q := fun he => hlook (by rw [he])
    dsimp only
    rw [update_self, hi]
    dsimp only [distance, distance.base]
    split <;> split <;> omega
  | @lock k cq hi =>
    dsimp only
    rw [update_self, hi]
    dsimp only [distance]
    omega
  | @test k cq hi =>
    dsimp only
    rw [update_self, hi]
    split
    · dsimp only [distance]
      omega
    · dsimp only [distance]
      omega
  | @clear k cq hi =>
    dsimp only
    rw [update_self, hi]
    dsimp only [distance]
    omega
  | @signal k cq hi =>
    dsimp only
    rw [update_self, hi]
    dsimp only [distance]
    omega
  | @unlock k cq hi =>
    rw [hi] at hhold hbi
    have hne : k ≠ q := fun he => hhold (by rw [he]; rfl)
    have hk := hbi k rfl
    dsimp only
    rw [update_self, hi]
    dsimp only [distance, distance.base]
    split <;> split <;> omega

/-- While no worker is in the section of a queue, each worker comes to look at it. -/
theorem Fair.looks (h0 : r.state 0 = { nrCq }) (hf : Fair nrIoWorkers r) (hpos : 1 ≤ q) (hle : q ≤ nrCq)
    {i : Nat} (hlt : i < nrIoWorkers) (hfree : ∀ m, n ≤ m → ((r.state m).pc i).holds ≠ some q) :
    ∃ m, n ≤ m ∧ (r.state m).pc i = .look q := by
  refine Fair.reach (P := fun m => n ≤ m) (fun m => distance nrCq q ((r.state m).pc i)) (fun m hm => ?_)
    (Nat.le_refl n)
  by_cases hlook : (r.state m).pc i = .look q
  · exact .inl hlook
  right
  obtain ⟨m', hm', hpc, hwalk, hirq⟩ := hf.advance m hlt
  refine ⟨m' + 1, by omega, by omega, ?_⟩
  rw [r.next, ← hpc]
  by_cases hw : (r.state m).pc i = .walk
  · rw [hwalk hw]
    rw [hw] at hpc
    unfold step
    dsimp only
    rw [if_pos hpc, hpc]
    dsimp only
    rw [update_self]
    dsimp only [distance, distance.base]
    rw [if_pos hpos]
    omega
  · rw [hirq hw]
    rw [← hpc] at hw hlook
    have hd : distance _ q ((Sys.irq mine _ _).pc _) < _ := distance_irq (run_inv h0 m')
      (run_bounded h0 m') hw hlook (hfree m' (by omega)) (by rw [run_nrCq h0]; exact hle)
    rwa [run_nrCq h0] at hd

end Runs

end Irq

/-- An infinite run of any number of workers of which none stops: when completions have been posted to a
queue that one of them serves, and its interrupts are enabled, an interrupt follows behind all of them. -/
theorem interrupts_raised {mine : Nat → Nat → Bool} {r : Fair.Run (Irq.step mine)} {nrCq nrIoWorkers : Nat}
    (h0 : r.state 0 = { nrCq }) (hf : Irq.Fair nrIoWorkers r) {q : Nat} (hpos : 1 ≤ q) (hle : q ≤ nrCq)
    (hmine : ∃ i < nrIoWorkers, mine i q = true) {n : Nat}
    (henabled : ∃ cq, (r.state n).cqes q = some cq ∧ cq.irqEnabled = true) :
    ∃ m, n ≤ m ∧ Irq.SignalledTo (r.state m).log (r.state n).log.length q := by
  have hinv := Irq.run_inv h0
  by_cases hun : Irq.Unsignalled (r.state n).log q
  swap
  · exact ⟨n, Nat.le_refl _, Irq.signalledTo_of_not hun⟩
  by_contra hnot
  have hs : Irq.Stuck r n q := by
    refine Irq.stuck_of h0 hf hun fun m hm i ha hi => hnot ⟨m + 1, by omega, ?_⟩
    cases hq : (r.state m).cqes q with
    | none => exact absurd (by rw [hi]; rfl) (((hinv m).absent q hq).1 i)
    | some cq =>
      rw [r.next, ha]
      unfold Irq.step Irq.Sys.irq
      dsimp only
      rw [hi]
      dsimp only
      rw [hq]
      exact Irq.signalledTo_signalled _ _
  obtain ⟨m₁, hm₁, hfree⟩ := hs.free h0 hf
  obtain ⟨i, hlt, hi⟩ := hmine
  obtain ⟨m₂, hm₂, hlook⟩ := hf.looks h0 hpos hle hlt fun m hm => hfree m hm i
  obtain ⟨m, hm, hpc, -, hnext⟩ := hf.advance_irq h0 hlook nofun
  -- the lock is free when the worker looks at the queue, so it takes the lock
  have hen := Fair.always (P := fun m => ∃ cq, (r.state m).cqes q = some cq ∧ cq.irqEnabled = true)
    (fun m' _ h => by rw [r.next]; exact Irq.step_enabled _ h) henabled m (by omega)
  obtain ⟨cq, hq, hen⟩ := hen
  have hunlocked : cq.irqLock = none := by
    cases hl : cq.irqLock with
    | none => rfl
    | some j => exact absurd ((((hinv m).queue q cq hq).locked j).mp hl) (hfree m (by omega) j)
  refine hs.not_locked h0 hf (m := m + 1) (i := i) (by omega) ?_
  rw [hnext]
  unfold Irq.Sys.irq
  rw [hpc]
  dsimp only
  rw [if_neg (by rw [Irq.run_nrCq h0]; omega), if_neg (by simp [hi]), hq]
  dsimp only
  rw [if_neg (by simp [hen]), if_pos hunlocked]
  exact update_self ..

namespace Irq

/-- A queue is created and gets a completion; then two workers take turns with both kinds of steps. -/
def turns : Nat → Action
  | 0 => .create 1 true 0
  | 1 => .fill 0 1
  | n + 2 => if n % 4 < 2 then .endWalk (n % 2) else .irq (n % 2)

/-- The run of these steps. -/
def turnsRun : Fair.Run (step fun i q => (q - 1) % 2 == i) := .ofActs _ { nrCq := 1 } turns

/-- Both workers get their turns. -/
theorem fair_turnsRun : Fair 2 turnsRun where
  only n i hi := by
    change (turns n).worker = some i at hi
    unfold turns at hi
    split at hi
    · cases hi
    · cases hi
      decide
    · split at hi <;> cases hi <;> omega
  walk n i hlt _ := by
    refine ⟨4 * n + i + 2, by omega, ?_⟩
    change turns (4 * n + i + 2) = _
    unfold turns
    dsimp only
    rw [if_pos (by omega)]
    congr 1
    omega
  irq n i hlt _ := by
    refine ⟨4 * n + i + 4, by omega, ?_⟩
    change turns (4 * n + i + 2 + 2) = _
    unfold turns
    dsimp only
    rw [if_neg (by omega)]
    congr 1
    omega

end Irq

/-- The completion of the first steps gets its interrupt, from the worker of the submission queue. -/
theorem interrupts_raised_turns :
    ∃ m, 2 ≤ m ∧ Irq.SignalledTo (Irq.turnsRun.state m).log (Irq.turnsRun.state 2).log.length 1 :=
  interrupts_raised rfl Irq.fair_turnsRun (Nat.le_refl 1) (Nat.le_refl 1) ⟨0, by decide, rfl⟩ ⟨_, rfl, rfl⟩

end Nvmev
