import Mathlib.Data.List.Iterate
import NvmeVirt.Io.Dispatch
import NvmeVirt.Lib.PhaseRing
import NvmeVirt.Lib.Runs

/-!
# Polling the submission queues

The doorbells of the submission queues (`nvmev_proc_dbs` in `main.c`), with a host that submits commands
by moving the tail doorbell of a queue. `Poll.Sys` is the device with its doorbells, in any interleaving
(`Poll.Action`) of the host, of the turns of `nvmev_proc_dbs` and of the workers; the handler can refuse
any command at any time.

`sq_consumed_in_order`: the slots whose commands were accepted are those that were submitted, in order,
up to the slot in `old_dbs`; a turn stops before the doorbell only where the handler refused.
-/

namespace Nvmev

open Function PhaseRing Runs

namespace Poll

variable {σ β : Type}

/-- The device, its submission queues with their doorbells (`dbs[qid * 2]`), and for each queue the slots
that the host submitted and those whose commands the handler accepted. -/
structure Sys (σ β : Type) where
  dev : Io.Dev σ β
  sqes : Nat → Option Io.SubmissionQueue
  dbs : Nat → Nat := fun _ => 0
  oldDbs : Nat → Nat := fun _ => 0
  submitted : Nat → List Nat := fun _ => []
  accepted : Nat → List Nat := fun _ => []

/-- What can happen next. -/
inductive Action where
  /-- The host writes the tail doorbell of a queue. -/
  | ring (qid newDb : Nat)
  /-- The turn of `nvmev_proc_dbs` for a submission queue. -/
  | procSq (qid : Nat)
  /-- A step of a worker. -/
  | scan (worker : Nat)
  | visit (worker currNsecs : Nat) (kv : Option (Nat × Nat))

/-- The number of slots from `oldDb` to `newDb`. -/
def numProc (sq : Io.SubmissionQueue) (newDb oldDb : Nat) : Nat :=
  if newDb < oldDb then newDb + sq.queueSize - oldDb else newDb - oldDb

/-- The slots that a run of `nvmev_proc_io_sq` accepts: the ones it enqueues. -/
def acceptedSlots (o : Io.SqOutcome σ β) : List Nat := o.trace.filterMap fun p => p.2.requestEntry

/-- The host writes the doorbell of a queue. The slots before it are submitted. -/
def Sys.ring (s : Sys σ β) (qid newDb : Nat) : Sys σ β :=
  match s.sqes qid with
  | none => s
  | some sq => { s with
      dbs := update s.dbs qid newDb
      submitted := update s.submitted qid
        (s.submitted qid ++ List.iterate sq.next (s.dbs qid) (numProc sq newDb (s.dbs qid))) }

/-- The turn of `nvmev_proc_dbs` for a submission queue. -/
def Sys.procSq (E : Io.Env σ β) (s : Sys σ β) (qid : Nat) : Sys σ β :=
  match s.sqes qid with
  | none => s
  | some sq =>
    let newDb := s.dbs qid
    let oldDb := s.oldDbs qid
    if newDb ≠ oldDb then
      let o := Io.nvmevProcIoSq E sq qid newDb oldDb s.dev
      { s with
        dev := o.dev
        oldDbs := update s.oldDbs qid (Io.latestDb sq oldDb o)
        accepted := update s.accepted qid (s.accepted qid ++ acceptedSlots o) }
    else s

/-- One step. -/
def step (E : Io.Env σ β) (s : Sys σ β) : Action → Sys σ β
  | .ring qid newDb => s.ring qid newDb
  | .procSq qid => s.procSq E qid
  | .scan worker => { s with dev := s.dev.step E (.scan worker) }
  | .visit worker currNsecs kv => { s with dev := s.dev.step E (.visit worker currNsecs kv) }

/-- The host writes a doorbell in the range of the queue, and does not overrun the head: fewer than
`queue_size` slots are submitted and not accepted. -/
def Obeys (s : Sys σ β) : Action → Prop
  | .ring qid newDb => ∀ sq ∈ s.sqes qid, newDb < sq.queueSize ∧
      numProc sq (s.dbs qid) (s.oldDbs qid) + numProc sq newDb (s.dbs qid) < sq.queueSize
  | _ => True

instance (s : Sys σ β) : DecidablePred (Obeys s)
  | .ring qid newDb =>
    match h : s.sqes qid with
    | none => .isTrue (by simp [Obeys, h])
    | some sq => decidable_of_iff (newDb < sq.queueSize ∧
        numProc sq (s.dbs qid) (s.oldDbs qid) + numProc sq newDb (s.dbs qid) < sq.queueSize) (by
      simp [Obeys, h])
  | .procSq _ | .scan _ | .visit _ _ _ => .isTrue trivial

/-- The handler refuses the command in `slot`, in some state. -/
def Refused (E : Io.Env σ β) (sq : Io.SubmissionQueue) (qid slot : Nat) : Prop :=
  ∃ d, (Io.nvmevProcIo E sq qid slot d).1 = false

/-- The accepted slots are the submitted ones, in order, as far as the one in `old_dbs`. -/
def InOrder (s : Sys σ β) (qid : Nat) : Prop :=
  ∀ sq ∈ s.sqes qid, s.submitted qid = s.accepted qid ++
    List.iterate sq.next (s.oldDbs qid) (numProc sq (s.dbs qid) (s.oldDbs qid))

/-! ## A run of `nvmev_proc_io_sq` -/

section Loop

variable (E : Io.Env σ β) (sq : Io.SubmissionQueue) (qid : Nat)

/-- The loop passes at most `numProc` entries, and stops before only at a refusal. -/
theorem procLoop_stops (d : Io.Dev σ β) (n sqEntry : Nat) :
    (Io.procLoop E sq qid n sqEntry d).seq = n ∨
      (Io.procLoop E sq qid n sqEntry d).seq < n ∧
        Refused E sq qid (sq.next^[(Io.procLoop E sq qid n sqEntry d).seq] sqEntry) := by
  induction n generalizing d sqEntry with
  | zero => exact .inl rfl
  | succ n ih =>
    unfold Io.procLoop
    split
    · rename_i heq
      exact .inr ⟨Nat.succ_pos n, d, by rw [iterate_zero, id, heq]⟩
    · rename_i d' trace heq
      obtain hall | ⟨hlt, hr⟩ := ih d' (sq.next sqEntry)
      · exact .inl (congrArg (· + 1) hall)
      · exact .inr ⟨Nat.succ_lt_succ hlt, hr⟩

end Loop

/-- The queue goes around its ring, `numProc` slots behind the host. -/
structure QueueInv (sq : Io.SubmissionQueue) (s : Sys σ β) (qid : Nat) : Prop where
  dbs_lt : s.dbs qid < sq.queueSize
  oldDbs_lt : s.oldDbs qid < sq.queueSize
  submitted : s.submitted qid = s.accepted qid ++
    List.iterate sq.next (s.oldDbs qid) (numProc sq (s.dbs qid) (s.oldDbs qid))

variable {sq : Io.SubmissionQueue} {s : Sys σ β} {qid : Nat}

theorem next_iterate {k : Nat} (hk : k < sq.queueSize) (n : Nat) :
    sq.next^[n] k = (k + n) % sq.queueSize := by
  induction n with
  | zero => exact (Nat.mod_eq_of_lt hk).symm
  | succ n ih =>
    rw [iterate_succ_apply', ih, ← Nat.add_assoc]
    exact (mod_succ (Nat.zero_lt_of_lt hk)).symm

theorem numProc_lt {newDb oldDb : Nat} (hnew : newDb < sq.queueSize) (hold : oldDb < sq.queueSize) :
    numProc sq newDb oldDb < sq.queueSize := by
  unfold numProc
  split <;> omega

/-- The tail is `numProc` slots after the head. -/
theorem iterate_numProc {newDb oldDb : Nat} (hnew : newDb < sq.queueSize) (hold : oldDb < sq.queueSize) :
    sq.next^[numProc sq newDb oldDb] oldDb = newDb := by
  rw [next_iterate hold]
  unfold numProc
  split
  · rename_i hlt
    rw [show oldDb + (newDb + sq.queueSize - oldDb) = newDb + sq.queueSize by omega, Nat.add_mod_right,
      Nat.mod_eq_of_lt hnew]
  · rw [show oldDb + (newDb - oldDb) = newDb by omega, Nat.mod_eq_of_lt hnew]

/-- The head after `n` of the slots. -/
theorem numProc_add {newDb oldDb n : Nat} (hnew : newDb < sq.queueSize) (hold : oldDb < sq.queueSize)
    (hn : n ≤ numProc sq newDb oldDb) :
    numProc sq newDb ((oldDb + n) % sq.queueSize) = numProc sq newDb oldDb - n := by
  have hlt := numProc_lt hnew hold
  unfold numProc at hn hlt ⊢
  by_cases hwrap : oldDb + n < sq.queueSize
  · rw [Nat.mod_eq_of_lt hwrap]
    split_ifs at hn hlt ⊢ <;> omega
  · rw [Nat.mod_eq_sub_mod (by omega), Nat.mod_eq_of_lt (by omega)]
    split_ifs at hn hlt ⊢ <;> omega

theorem QueueInv.ring (h : QueueInv sq s qid) (hsq : s.sqes qid = some sq) {newDb : Nat}
    (hnew : newDb < sq.queueSize)
    (hroom : numProc sq (s.dbs qid) (s.oldDbs qid) + numProc sq newDb (s.dbs qid) < sq.queueSize) :
    QueueInv sq (s.ring qid newDb) qid := by
  have hdbs := h.dbs_lt
  have hold := h.oldDbs_lt
  have hnum : numProc sq newDb (s.oldDbs qid) =
      numProc sq (s.dbs qid) (s.oldDbs qid) + numProc sq newDb (s.dbs qid) := by
    unfold numProc at hroom ⊢
    split_ifs at hroom ⊢ <;> omega
  unfold Sys.ring
  rw [hsq]
  refine ⟨by simpa using hnew, hold, ?_⟩
  simp only [update_self]
  rw [h.submitted, List.append_assoc, hnum, List.iterate_add, iterate_numProc hdbs hold]

/-- A turn accepts the next slots, and leaves others only where the handler refused. -/
theorem QueueInv.procSq (E : Io.Env σ β) (h : QueueInv sq s qid) (hsq : s.sqes qid = some sq) :
    QueueInv sq (s.procSq E qid) qid ∧ ((s.procSq E qid).submitted qid = (s.procSq E qid).accepted qid ∨
      Refused E sq qid ((s.procSq E qid).oldDbs qid)) := by
  have hdbs := h.dbs_lt
  have hold := h.oldDbs_lt
  unfold Sys.procSq
  rw [hsq]
  dsimp only
  split
  · rename_i hne
    have hslots := Io.procLoop_requests E sq qid s.dev (numProc sq (s.dbs qid) (s.oldDbs qid)) (s.oldDbs qid)
    have hstops := procLoop_stops E sq qid s.dev (numProc sq (s.dbs qid) (s.oldDbs qid)) (s.oldDbs qid)
    rw [show Io.procLoop E sq qid (numProc sq (s.dbs qid) (s.oldDbs qid)) (s.oldDbs qid) s.dev =
      Io.nvmevProcIoSq E sq qid (s.dbs qid) (s.oldDbs qid) s.dev from rfl] at hslots hstops
    generalize Io.nvmevProcIoSq E sq qid (s.dbs qid) (s.oldDbs qid) s.dev = o at hslots hstops ⊢
    have hle : o.seq ≤ numProc sq (s.dbs qid) (s.oldDbs qid) := by
      obtain heq | ⟨hlt, -⟩ := hstops <;> omega
    have hrest := numProc_add hdbs hold hle
    refine ⟨⟨hdbs, ?_, ?_⟩, ?_⟩
    · simp only [update_self]
      exact Nat.mod_lt _ (Nat.zero_lt_of_lt hold)
    · simp only [update_self, Io.latestDb]
      rw [hrest, h.submitted, List.append_assoc, acceptedSlots, hslots, ← next_iterate hold,
        ← List.iterate_add, Nat.add_sub_cancel' hle]
    · simp only [update_self, Io.latestDb]
      obtain heq | ⟨-, hr⟩ := hstops
      · left
        rw [h.submitted, acceptedSlots, hslots, heq]
      · right
        rw [next_iterate hold] at hr
        exact hr
  · rename_i heq
    refine ⟨h, .inl ?_⟩
    rw [h.submitted, not_not.mp heq, numProc, if_neg (Nat.lt_irrefl _), Nat.sub_self, List.iterate,
      List.append_nil]

/-- A step for another queue, or of a worker. -/
theorem QueueInv.frame {s' : Sys σ β} (h : QueueInv sq s qid) (hdbs : s'.dbs qid = s.dbs qid)
    (hold : s'.oldDbs qid = s.oldDbs qid) (hs : s'.submitted qid = s.submitted qid)
    (ha : s'.accepted qid = s.accepted qid) : QueueInv sq s' qid :=
  ⟨by rw [hdbs]; exact h.dbs_lt, by rw [hold]; exact h.oldDbs_lt,
    by rw [hs, ha, hold, hdbs]; exact h.submitted⟩

/-- Every queue satisfies `QueueInv`. -/
def Inv (sqes : Nat → Option Io.SubmissionQueue) (s : Sys σ β) : Prop :=
  s.sqes = sqes ∧ ∀ qid, ∀ sq ∈ sqes qid, QueueInv sq s qid

variable {sqes : Nat → Option Io.SubmissionQueue}

theorem Inv.step (E : Io.Env σ β) (h : Inv sqes s) (a : Action) (ha : Obeys s a) : Inv sqes (step E s a) := by
  obtain ⟨rfl, hq⟩ := h
  cases a with
  | ring qid newDb =>
    refine ⟨?_, fun q sq hsq => ?_⟩
    · unfold Poll.step Sys.ring
      dsimp only
      split <;> rfl
    by_cases hqq : q = qid
    · subst hqq
      obtain ⟨hnew, hroom⟩ := ha sq hsq
      exact (hq q sq hsq).ring hsq hnew hroom
    · unfold Poll.step Sys.ring
      dsimp only
      split
      · exact hq q sq hsq
      · refine (hq q sq hsq).frame ?_ rfl ?_ rfl <;> exact update_of_ne hqq _ _
  | procSq qid =>
    refine ⟨?_, fun q sq hsq => ?_⟩
    · unfold Poll.step Sys.procSq
      dsimp only
      split
      · rfl
      · split <;> rfl
    by_cases hqq : q = qid
    · subst hqq
      exact ((hq q sq hsq).procSq E hsq).1
    · unfold Poll.step Sys.procSq
      dsimp only
      split
      · exact hq q sq hsq
      · split
        · refine (hq q sq hsq).frame rfl ?_ rfl ?_ <;> exact update_of_ne hqq _ _
        · exact hq q sq hsq
  | scan | visit => exact ⟨rfl, fun q sq hsq => (hq q sq hsq).frame rfl rfl rfl rfl⟩

theorem Inv.start (dev : Io.Dev σ β) (hsize : ∀ qid, ∀ sq ∈ sqes qid, 0 < sq.queueSize) :
    Inv sqes ({ dev, sqes } : Sys σ β) := by
  refine ⟨rfl, fun qid sq hsq => ⟨hsize qid sq hsq, hsize qid sq hsq, ?_⟩⟩
  simp [numProc]

end Poll

/-- For queues of any sizes, and every run in which the host keeps its doorbells in range and does not
overrun a head: in every state, the slots of a queue whose commands were accepted are the submitted ones,
in order, up to the slot in `old_dbs`. After a turn for a queue, either all submitted slots are accepted,
or the handler refused the command in the slot that `old_dbs` names. -/
theorem sq_consumed_in_order {σ β : Type} (E : Io.Env σ β) (dev : Io.Dev σ β)
    (sqes : Nat → Option Io.SubmissionQueue) (hsize : ∀ qid, ∀ sq ∈ sqes qid, 0 < sq.queueSize)
    (actions : List Poll.Action) (hhost : AllSteps (Poll.step E) Poll.Obeys { dev, sqes } actions) :
    AllStates (Poll.step E) (fun s => ∀ qid, Poll.InOrder s qid) { dev, sqes } actions ∧
    ∀ l qid, l ++ [.procSq qid] <+: actions → ∀ sq ∈ sqes qid,
      let s := (l ++ [.procSq qid]).foldl (Poll.step E) { dev, sqes }
      s.submitted qid = s.accepted qid ∨ Poll.Refused E sq qid (s.oldDbs qid) := by
  have hinv : AllStates (Poll.step E) (Poll.Inv sqes) { dev, sqes } actions :=
    invariant (Poll.Inv.start dev hsize) hhost fun s a h ha => h.step E a ha
  refine ⟨fun l hl qid sq hsq => ?_, fun l qid hl sq hsq => ?_⟩
  · obtain ⟨hs, hq⟩ := hinv l hl
    rw [hs] at hsq
    exact (hq qid sq hsq).submitted
  · obtain ⟨hs, hq⟩ := hinv l ((List.prefix_append l _).trans hl)
    rw [List.foldl_append]
    exact ((hq qid sq hsq).procSq E (by rw [hs]; exact hsq)).2

namespace Poll

/-- One queue, of three slots. -/
def threeSlots (qid : Nat) : Option Io.SubmissionQueue :=
  if qid = 1 then some { cqid := 1, queueSize := 3 } else none

theorem threeSlots_pos : ∀ qid, ∀ sq ∈ threeSlots qid, 0 < sq.queueSize := by
  intro qid sq hsq
  unfold threeSlots at hsq
  split at hsq
  · obtain rfl := Option.some.inj hsq
    exact Nat.succ_pos 2
  · cases hsq

/-- The host submits two commands, and when they are accepted two more, over the end of the ring. -/
def wrapAround : List Action := [.ring 1 2, .procSq 1, .ring 1 1, .procSq 1]

theorem sq_consumed_in_order_wrap :
    InOrder (wrapAround.foldl (step Io.Env.accepting) { dev := Io.Dev.init 1 (), sqes := threeSlots }) 1 :=
  (sq_consumed_in_order Io.Env.accepting _ threeSlots threeSlots_pos wrapAround (by decide)).1 _
    (List.prefix_refl _) 1

end Poll

end Nvmev
