import Mathlib.Logic.Function.Iterate
import NvmeVirt.Io.WorkQueue
import NvmeVirt.Lib.PhaseRing
import NvmeVirt.Lib.Runs

/-!
# Completion queues

`struct nvmev_completion_queue`, `__fill_cq_result` and `nvmev_proc_io_cq` (`io.c`), and a host that
takes the entries by the phase tag. `Cq.Sys` is a queue in any interleaving (`Cq.Action`) of completions
that the workers post, of the host and of the dispatcher, which reads the head doorbell.

`completions_observed_iff`: the host gets every completion once and in order exactly if each one is
posted with a slot free. Nothing in the code looks: `cq_tail` is set from the doorbell, but not read.
-/

namespace Nvmev

open CInt Function PhaseRing Runs

/-- `struct nvme_completion`. -/
structure NvmeCompletion where
  result0 : Nat
  result1 : Nat
  sqHead : Nat
  sqId : Nat
  commandId : Nat
  status : Nat
  deriving DecidableEq, Repr

/-- The phase tag is bit 0 of `status`. -/
def NvmeCompletion.phaseTag (cqe : NvmeCompletion) : Bool := cqe.status % 2 == 1

/-- `struct nvmev_completion_queue`, without the interrupt. -/
structure CompletionQueue where
  queueSize : Nat
  phase : Bool
  cqHead : Nat
  cqTail : Int
  cq : Nat → NvmeCompletion

/-- `__nvmev_admin_create_cq` with the queue memory `cq`. -/
def adminCreateCq (qsize : Nat) (cq : Nat → NvmeCompletion) : CompletionQueue :=
  { queueSize := qsize + 1, phase := true, cqHead := 0, cqTail := -1, cq }

/-- The entry that `__fill_cq_result` writes. Its fields are 16 bits wide, apart from the results. -/
def Completion.entry (cqe : Completion) (phase : Bool) : NvmeCompletion :=
  { result0 := cqe.result0, result1 := cqe.result1, sqHead := u16 cqe.sqHead, sqId := u16 cqe.sqId
    commandId := u16 cqe.commandId, status := u16 (phase.toNat ||| u32 (cqe.status <<< 1)) }

/-- `__fill_cq_result` on its queue. -/
def CompletionQueue.fill (cq : CompletionQueue) (cqe : Completion) : CompletionQueue :=
  let cqHead := cq.cqHead + 1
  let filled := { cq with cq := update cq.cq cq.cqHead (cqe.entry cq.phase) }
  if cqHead = cq.queueSize then { filled with cqHead := 0, phase := !cq.phase }
  else { filled with cqHead }

/-- The state of the loop of `nvmev_proc_io_cq`: the entries it read, and `nr_in_flight` of the
submission queues, without those that are null. -/
structure CqScan where
  reads : List Int
  sqes : Nat → Option Nat

/-- `sqes[sqid]->stat.nr_in_flight--`. -/
def CqScan.decrement (s : CqScan) (sqid : Nat) : CqScan :=
  match s.sqes sqid with
  | none => s
  | some nrInFlight => { s with sqes := update s.sqes sqid (some (u32 (nrInFlight + (2 ^ 32 - 1)))) }

/-- The loop of `nvmev_proc_io_cq`. -/
def procIoCqLoop (cq : CompletionQueue) (newDb : Int) : Nat → Int → CqScan → CqScan
  | 0, _, s => s
  | fuel + 1, i, s =>
    if i = newDb then s
    else
      let sqid := (cq.cq i.toNat).sqId
      let s := { s with reads := s.reads ++ [i] }
      if (cq.queueSize : Int) ≤ i then procIoCqLoop cq newDb fuel (-1 + 1) s
      else procIoCqLoop cq newDb fuel (i + 1) (s.decrement sqid)

/-- `nvmev_proc_io_cq`. From one doorbell value of the queue to another there are fewer turns than
`queue_size + 2`. -/
def nvmevProcIoCq (cq : CompletionQueue) (newDb oldDb : Int) (sqes : Nat → Option Nat) :
    CompletionQueue × CqScan :=
  let s := procIoCqLoop cq newDb (cq.queueSize + 2) oldDb { reads := [], sqes }
  ({ cq with cqTail := if newDb = -1 then cq.queueSize - 1 else newDb - 1 }, s)

namespace Cq

/-- The host: the slot it looks at, the tag it expects there and the entries it took. -/
structure Host where
  head : Nat := 0
  phase : Bool := true
  observed : List NvmeCompletion := []

/-- The host looks at its slot. It takes the entry if the tag is the expected one. -/
def Host.consume (host : Host) (queueSize : Nat) (mem : Nat → NvmeCompletion) : Host :=
  if (mem host.head).phaseTag = host.phase then
    { head := next queueSize host.head, phase := nextTag queueSize host.head host.phase
      observed := host.observed ++ [mem host.head] }
  else host

/-- A completion queue with its doorbell, the host, and the entries that were posted. -/
structure Sys where
  cq : CompletionQueue
  sqes : Nat → Option Nat
  dbs : Nat := 0
  oldDbs : Nat := 0
  host : Host := {}
  posted : List NvmeCompletion := []

/-- What can happen next. -/
inductive Action where
  /-- A worker posts a completion of a submission queue of this completion queue. -/
  | fill (cqe : Completion)
  /-- The host looks at its slot. -/
  | consume
  /-- The host writes its slot into the doorbell. -/
  | ring
  /-- The dispatcher looks at the doorbell. -/
  | procDbs
  /-- A submission queue is created or deleted, or commands of it are dispatched. -/
  | submission (sqid : Nat) (nrInFlight : Option Nat)

/-- The host looks at its slot. -/
def Sys.consume (s : Sys) : Sys := { s with host := s.host.consume s.cq.queueSize s.cq.cq }

/-- One step. -/
def step (s : Sys) : Action → Sys
  | .fill cqe =>
    { s with cq := s.cq.fill cqe, posted := s.posted ++ [cqe.entry s.cq.phase] }
  | .consume => s.consume
  | .ring => { s with dbs := s.host.head }
  | .procDbs =>
    if s.dbs = s.oldDbs then s
    else
      let (cq, scan) := nvmevProcIoCq s.cq s.dbs s.oldDbs s.sqes
      { s with cq, sqes := scan.sqes, oldDbs := s.dbs }
  | .submission sqid nrInFlight => { s with sqes := update s.sqes sqid nrInFlight }

/-- The host has observed what was posted first, and when it looks `n` times more it observes the next
`n` completions, as far as there are any. -/
def Observes (s : Sys) : Prop :=
  ∀ n, (Sys.consume^[n] s).host.observed = s.posted.take (s.host.observed.length + n)

/-- A completion is posted only if the host has taken all but `queue_size - 1` of the posted ones, or
more. -/
def Room (s : Sys) : Action → Prop
  | .fill _ => s.posted.length < s.host.observed.length + s.cq.queueSize
  | _ => True

instance (s : Sys) : DecidablePred (Room s)
  | .fill _ => inferInstanceAs (Decidable (_ < _))
  | .consume | .ring | .procDbs | .submission _ _ => .isTrue trivial

/-- The queue and the host go around the ring, the queue less than a lap ahead. -/
structure Inv (s : Sys) : Prop where
  pos : 0 < s.cq.queueSize
  ring : Ring NvmeCompletion.phaseTag s.cq.queueSize s.cq.cq s.posted s.host.observed.length
  observed : s.host.observed = s.posted.take s.host.observed.length
  cqHead : s.cq.cqHead = s.posted.length % s.cq.queueSize
  phase : s.cq.phase = lap s.cq.queueSize s.posted.length
  head : s.host.head = s.host.observed.length % s.cq.queueSize
  expects : s.host.phase = lap s.cq.queueSize s.host.observed.length

theorem entry_phaseTag (cqe : Completion) (phase : Bool) : (cqe.entry phase).phaseTag = phase := by
  have hbit : u16 (phase.toNat ||| u32 (cqe.status <<< 1)) % 2 = phase.toNat := by
    unfold u16 u32
    rw [Nat.mod_mod_of_dvd _ (by decide), show (2 : Nat) = 2 ^ 1 from rfl, Nat.or_mod_two_pow,
      Nat.mod_mod_of_dvd _ (by decide), Nat.shiftLeft_eq, Nat.mul_mod_left, Nat.or_zero]
    cases phase <;> rfl
  unfold NvmeCompletion.phaseTag Completion.entry
  rw [hbit]
  cases phase <;> rfl

/-- The head and the phase after a completion. -/
theorem fill_eq (cq : CompletionQueue) (cqe : Completion) : cq.fill cqe =
    { cq with
      cq := update cq.cq cq.cqHead (cqe.entry cq.phase)
      cqHead := next cq.queueSize cq.cqHead
      phase := nextTag cq.queueSize cq.cqHead cq.phase } := by
  unfold CompletionQueue.fill PhaseRing.next nextTag
  by_cases h : cq.cqHead + 1 = cq.queueSize
  · simp [h]
  · simp [h]

section Steps

variable {s : Sys} (h : Inv s)

include h

theorem Inv.consume : Inv s.consume ∧
    s.consume.host.observed = s.posted.take (s.host.observed.length + 1) := by
  have hsees := h.ring.tag_iff h.pos
  rw [← h.head, ← h.expects] at hsees
  unfold Sys.consume Host.consume
  split
  · rename_i htag
    have hlt := hsees.mp htag
    have hmem := (h.ring.held _ hlt (Nat.le_refl _)).1
    rw [← h.head] at hmem
    have htake : s.posted.take s.host.observed.length ++ [s.cq.cq s.host.head] =
        s.posted.take (s.host.observed.length + 1) := by
      rw [List.take_succ_eq_append_getElem hlt, hmem]
    have hobs : s.host.observed ++ [s.cq.cq s.host.head] =
        s.posted.take (s.host.observed.length + 1) := by
      rw [← htake, ← h.observed]
    refine ⟨⟨h.pos, ?_, ?_, h.cqHead, h.phase, ?_, ?_⟩, hobs⟩
    · simp only [List.length_append, List.length_singleton]
      exact h.ring.read h.pos hlt
    · simp only [List.length_append, List.length_singleton]
      exact hobs
    · simp only [List.length_append, List.length_singleton, mod_succ h.pos, h.head]
    · simp only [List.length_append, List.length_singleton, lap_succ h.pos, h.head, h.expects]
  · rename_i htag
    have hle : s.posted.length ≤ s.host.observed.length := by
      by_contra hlt
      exact htag (hsees.mpr (by omega))
    have hobs := h.observed
    rw [List.take_of_length_le hle] at hobs
    refine ⟨h, ?_⟩
    rw [List.take_of_length_le (by omega)]
    exact hobs

omit h in
@[simp] theorem consume_posted : s.consume.posted = s.posted := rfl

theorem Inv.observes : Observes s := by
  intro n
  induction n generalizing s with
  | zero => exact h.observed
  | succ n ih =>
    obtain ⟨hinv, hobs⟩ := h.consume
    rw [iterate_succ_apply, ih hinv, hobs, consume_posted, List.length_take]
    obtain hle | hle := Nat.le_total (s.host.observed.length + 1) s.posted.length
    · rw [Nat.min_eq_left hle]
      congr 1
      omega
    · rw [Nat.min_eq_right hle, List.take_of_length_le (by omega), List.take_of_length_le (by omega)]

theorem Inv.fill (cqe : Completion) (hroom : Room s (.fill cqe)) : Inv (step s (.fill cqe)) := by
  have hring := h.ring.write hroom (x := cqe.entry s.cq.phase) (by rw [entry_phaseTag, h.phase])
  have hle := h.ring.le
  unfold step
  dsimp only
  rw [fill_eq]
  refine ⟨h.pos, ?_, ?_, ?_, ?_, h.head, h.expects⟩
  · dsimp only
    rw [h.cqHead]
    exact hring
  · dsimp only
    rw [List.take_append_of_le_length hle]
    exact h.observed
  · simp only [List.length_append, List.length_singleton, mod_succ h.pos, h.cqHead]
  · simp only [List.length_append, List.length_singleton, lap_succ h.pos, h.cqHead, h.phase]

/-- A completion that is posted with no slot free takes the place of one that the host has not
observed. -/
theorem Inv.overrun (cqe : Completion) (hroom : ¬ Room s (.fill cqe)) :
    ¬ Observes (step s (.fill cqe)) := by
  have hfull : s.posted.length = s.host.observed.length + s.cq.queueSize := by
    have hle := h.ring.room
    change ¬ s.posted.length < s.host.observed.length + s.cq.queueSize at hroom
    omega
  have hx : NvmeCompletion.phaseTag (cqe.entry s.cq.phase) = lap s.cq.queueSize s.posted.length := by
    rw [entry_phaseTag, h.phase]
  have htag := Ring.tag_overrun s.cq.cq h.pos hfull hx
  rw [← h.cqHead, ← h.head, ← h.expects] at htag
  intro hobs
  have hlook := hobs 1
  unfold step at hlook
  dsimp only at hlook
  rw [fill_eq, iterate_one] at hlook
  unfold Sys.consume Host.consume at hlook
  dsimp only at hlook
  rw [if_neg htag] at hlook
  have hlen := congrArg List.length hlook
  rw [List.length_take, List.length_append, List.length_singleton] at hlen
  omega

theorem Inv.step (a : Action) (hroom : Room s a) : Inv (step s a) := by
  cases a with
  | fill cqe => exact h.fill cqe hroom
  | consume => exact h.consume.1
  | ring => exact ⟨h.pos, h.ring, h.observed, h.cqHead, h.phase, h.head, h.expects⟩
  | procDbs =>
    unfold Cq.step
    dsimp only
    split
    · exact h
    · exact ⟨h.pos, h.ring, h.observed, h.cqHead, h.phase, h.head, h.expects⟩
  | submission sqid nrInFlight => exact ⟨h.pos, h.ring, h.observed, h.cqHead, h.phase, h.head, h.expects⟩

end Steps

theorem inv_init (qsize : Nat) {mem : Nat → NvmeCompletion} (hmem : ∀ i, (mem i).phaseTag = false)
    (sqes : Nat → Option Nat) : Inv { cq := adminCreateCq qsize mem, sqes } :=
  ⟨Nat.succ_pos _, Ring.empty hmem, rfl, (Nat.zero_mod _).symm, (lap_of_lt (Nat.succ_pos _)).symm,
    (Nat.zero_mod _).symm, (lap_of_lt (Nat.succ_pos _)).symm⟩

end Cq

/-- A completion queue of any size whose memory the host has cleared, and any interleaving of
completions of any submission queues, of the host and of the dispatcher: in every state the host has
observed the first completions that were posted and will observe the others, each once and in the order
of posting, exactly if every completion is posted while the host has still fewer than `queue_size`
completions to observe. -/
theorem completions_observed_iff (qsize : Nat) (mem : Nat → NvmeCompletion)
    (hmem : ∀ i, (mem i).phaseTag = false) (sqes : Nat → Option Nat) (actions : List Cq.Action) :
    AllStates Cq.step Cq.Observes { cq := adminCreateCq qsize mem, sqes } actions ↔
      AllSteps Cq.step Cq.Room { cq := adminCreateCq qsize mem, sqes } actions := by
  refine good_iff (Cq.inv_init qsize hmem sqes) (fun s h => h.observes) (fun s a h => h.step a) ?_
  intro s a h hroom
  cases a with
  | fill cqe => exact h.overrun cqe hroom
  | _ => exact absurd trivial hroom

/-- A completion of submission queue `sqId`. -/
def completionOf (sqId : Nat) : Completion :=
  { commandId := 0, sqId, sqHead := 0, status := 0, result0 := 0, result1 := 0 }

/-- A queue memory that the host has cleared. -/
def clearedQueue (_ : Nat) : NvmeCompletion :=
  { result0 := 0, result1 := 0, sqHead := 0, sqId := 0, commandId := 0, status := 0 }

/-- Three completions of two submission queues on a queue of two entries, with the host in between. -/
theorem completions_observed_iff_twoSlots :
    AllStates Cq.step Cq.Observes { cq := adminCreateCq 1 clearedQueue, sqes := fun _ => some 2 }
      [.fill (completionOf 1), .fill (completionOf 2), .consume, .ring, .procDbs, .fill (completionOf 1)] :=
  (completions_observed_iff 1 clearedQueue (fun _ => rfl) (fun _ => some 2) _).mpr (by decide)

/-- The same three completions before the host looks: the third one takes the place of the first. -/
theorem completions_overrun : ¬
    AllStates Cq.step Cq.Observes { cq := adminCreateCq 1 clearedQueue, sqes := fun _ => some 2 }
      [.fill (completionOf 1), .fill (completionOf 2), .fill (completionOf 1)] := by
  intro h
  have hlook := h _ (List.prefix_refl _) 1
  revert hlook
  decide

end Nvmev
