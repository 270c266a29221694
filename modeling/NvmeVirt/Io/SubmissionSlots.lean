import NvmeVirt.Io.Interleaving
import NvmeVirt.Lib.PhaseRing
import NvmeVirt.Lib.Runs

/-!
# The slots of a submission queue

The worker reads a command from its slot when it copies the data (`__do_perform_io`), long after the
dispatcher read it. `Sq.Sys` is one submission queue, with the host that fills its slots and any number of
workers, in any interleaving (`Sq.Action`).

The commands of the queue are numbered as the host submits them; command `k` is in slot `k % queue_size`.
A completion reports the slot of its own command as `sq_head`, which tells the host that the commands
before it are consumed: the host may use the slot of command `k` again when the completion of a later one
has been posted.

`copies_read_dispatched_command`: a copy reads the command that was dispatched, as long as a completion
is posted only when the commands before it have been copied.
-/

namespace Nvmev

open Function PhaseRing Runs

namespace Sq

variable {γ β : Type}

/-- A submission queue, the workers, and a record of the run: `origin i item` is the number of the command
of an item of worker `i` and the command at its dispatch, `uncopied` the commands with an item that was
not copied, `posted` the completions with the numbers of their commands, and `copies` for each copy the
command at the dispatch and the one that was read. -/
structure Sys (γ β : Type) where
  sqid : Nat
  queueSize : Nat
  slots : Nat → γ
  workers : Nat → Io.Sys β := fun _ => Io.Sys.init
  submitted : Nat := 0
  dispatched : Nat := 0
  origin : Nat → Nat → Option (Nat × γ) := fun _ _ => none
  uncopied : List Nat := []
  posted : List (Option Nat × Completion) := []
  copies : List (Option γ × γ) := []

/-- What can happen next. -/
inductive Action (γ β : Type) where
  /-- The host puts a command into the next slot. -/
  | submit (cmd : γ)
  /-- The handler refuses the next command. It can write to the slot. -/
  | refuse (cmd : γ)
  /-- `__nvmev_proc_io` of the next command, which the handler leaves as `cmd`, on worker `i`. -/
  | dispatch (i : Nat) (cmd : γ) (cqid commandId nsecsStart nsecsEnqueue : Nat) (ret : Result)
  /-- A step of the dispatcher on worker `i` that is not for this queue. -/
  | other (i : Nat) (action : Io.Action β)
  /-- Worker `i` at the entry of its cursor. -/
  | visit (i currNsecs : Nat) (kv : Option (Nat × Nat))

/-- Some completion that was posted reports an `sq_head` that has advanced past command `k`. -/
def Released (s : Sys γ β) (k : Nat) : Prop := ∃ p ∈ s.posted, ∃ j, p.1 = some j ∧ k < j

instance (s : Sys γ β) (k : Nat) : Decidable (Released s k) :=
  decidable_of_iff (∃ p ∈ s.posted, p.1.any (fun j => k < j) = true) (by
    unfold Released
    simp [Option.any_eq_true])

/-- The host puts a command into the next slot, if the slot was not used or the command there is
released. -/
def Sys.submit (s : Sys γ β) (cmd : γ) : Sys γ β :=
  if s.submitted < s.queueSize ∨ Released s (s.submitted - s.queueSize) then
    { s with slots := update s.slots (s.submitted % s.queueSize) cmd, submitted := s.submitted + 1 }
  else s

/-- `__nvmev_proc_io` of the next command. No item comes of it if the list of the worker is full. -/
def Sys.dispatch (s : Sys γ β) (i : Nat) (cmd : γ) (cqid commandId nsecsStart nsecsEnqueue : Nat)
    (ret : Result) : Sys γ β :=
  if s.dispatched < s.submitted then
    let slot := s.dispatched % s.queueSize
    let worker := Io.step (s.workers i) (.enqueue s.sqid cqid slot commandId nsecsStart nsecsEnqueue ret)
    let s' := { s with
      slots := update s.slots slot cmd
      workers := update s.workers i worker
      dispatched := s.dispatched + 1 }
    if worker.nrItems = (s.workers i).nrItems then s'
    else
      { s' with
        origin := update s.origin i
          (update (s.origin i) (s.workers i).nrItems (some (s.dispatched, cmd)))
        uncopied := s.uncopied ++ [s.dispatched] }
  else s

/-- What an effect of the worker at an item of the queue adds to the record. -/
def Sys.record (s : Sys γ β) (sqEntry : Nat) (origin : Option (Nat × γ)) : Effect β → Sys γ β
  | .copy _ _ =>
    { s with
      copies := s.copies ++ [(origin.map Prod.snd, s.slots sqEntry)]
      uncopied := s.uncopied.filter fun k => origin.map Prod.fst ≠ some k }
  | .post cqe => { s with posted := s.posted ++ [(origin.map Prod.fst, cqe)] }
  | .release _ _ => s

/-- Worker `i` at the entry of its cursor. -/
def Sys.visit (s : Sys γ β) (i currNsecs : Nat) (kv : Option (Nat × Nat)) : Sys γ β :=
  let worker := s.workers i
  if worker.curr = noEntry then s
  else
    let w := worker.worker.workQueue worker.curr
    let effects := (visitEntry worker.worker worker.curr currNsecs kv).2.2
    let origin := s.origin i (worker.owner worker.curr)
    let s' := { s with workers := update s.workers i (Io.step worker (.visit currNsecs kv)) }
    if w.sqid = s.sqid then effects.foldl (fun s => s.record w.sqEntry origin) s' else s'

/-- The steps of the dispatcher that are not for queue `sqid`. -/
def Foreign (sqid : Nat) : Io.Action β → Prop
  | .enqueue sqid' _ _ _ _ _ _ => sqid' ≠ sqid
  | .internal _ _ _ _ _ | .reclaim | .scan => True
  | .visit _ _ => False

instance (sqid : Nat) : DecidablePred (Foreign (β := β) sqid)
  | .enqueue _ _ _ _ _ _ _ => inferInstanceAs (Decidable (_ ≠ _))
  | .internal _ _ _ _ _ | .reclaim | .scan => .isTrue trivial
  | .visit _ _ => .isFalse id

/-- One step. -/
def step (s : Sys γ β) : Action γ β → Sys γ β
  | .submit cmd => s.submit cmd
  | .refuse cmd =>
    if s.dispatched < s.submitted then
      { s with slots := update s.slots (s.dispatched % s.queueSize) cmd }
    else s
  | .dispatch i cmd cqid commandId nsecsStart nsecsEnqueue ret =>
    s.dispatch i cmd cqid commandId nsecsStart nsecsEnqueue ret
  | .other i action =>
    if Foreign s.sqid action then { s with workers := update s.workers i (Io.step (s.workers i) action) }
    else s
  | .visit i currNsecs kv => s.visit i currNsecs kv

/-- A completion of the queue is posted only when the commands before it have been copied. -/
def CopiedFirst (s : Sys γ β) : Action γ β → Prop
  | .visit i currNsecs _ =>
    let worker := s.workers i
    let w := worker.worker.workQueue worker.curr
    worker.curr ≠ noEntry → w.sqid = s.sqid → w.isInternal = false → w.isCompleted = false →
      w.nsecsTarget ≤ currNsecs → ∀ k ∈ s.uncopied, ∀ p ∈ s.origin i (worker.owner worker.curr), p.1 ≤ k
  | _ => True

/-! ## What an entry holds of the queue -/

/-- The item of the queue in an entry, its slot, and whether it is copied. -/
structure Held where
  item : Nat
  slot : Nat
  copied : Bool

/-- What entry `e` of a worker holds of queue `sqid`. -/
def heldBy (sqid : Nat) (s : Io.Sys β) (e : Nat) : Option Held :=
  let w := s.worker.workQueue e
  if w.sqid = sqid ∧ w.isInternal = false then some ⟨s.owner e, w.sqEntry, w.isCopied⟩ else none

section Entries

variable {sqid : Nat} {s s' : Io.Sys β} {e : Nat}

theorem payload_fields {w w' : IoWork β} (hp : w'.payload = w.payload) : w'.sqid = w.sqid ∧
    w'.isInternal = w.isInternal ∧ w'.sqEntry = w.sqEntry ∧ w'.isCopied = w.isCopied :=
  ⟨(congrArg IoWork.sqid hp :), (congrArg IoWork.isInternal hp :), (congrArg IoWork.sqEntry hp :),
    (congrArg IoWork.isCopied hp :)⟩

theorem heldBy_congr (hp : (s'.worker.workQueue e).payload = (s.worker.workQueue e).payload)
    (ho : s'.owner e = s.owner e) : heldBy sqid s' e = heldBy sqid s e := by
  obtain ⟨h1, h2, h3, h4⟩ := payload_fields hp
  unfold heldBy
  simp only [h1, h2, h3, h4, ho]

variable (s) in
/-- An enqueue does nothing, or it puts a new item into one entry. -/
theorem enqueue_cases (work : IoWork β → IoWork β) : s.enqueue work = s ∨
    ∃ e, (s.enqueue work).nrItems = s.nrItems + 1 ∧
      (s.enqueue work).owner = update s.owner e s.nrItems ∧
      ((s.enqueue work).worker.workQueue e).payload = (work (s.worker.workQueue e)).payload ∧
      ∀ a ≠ e, ((s.enqueue work).worker.workQueue a).payload = (s.worker.workQueue a).payload := by
  unfold Io.Sys.enqueue enqueueWork allocateWorkQueueEntry
  dsimp only
  by_cases hfull : nrMaxParallelIo ≤ (s.worker.workQueue s.worker.freeSeq).next
  · left
    rw [if_pos hfull]
  · right
    rw [if_neg hfull]
    refine ⟨s.worker.freeSeq, rfl, rfl, ?_, fun a ha => ?_⟩
    · dsimp only
      rw [IoWorker.insertReqSorted_payload]
      simp
    · dsimp only
      rw [IoWorker.insertReqSorted_payload]
      simp [ha]

/-- Where the items of the queue are after a step of the dispatcher that is not for it. -/
theorem heldBy_foreign {action : Io.Action β} (hf : Foreign sqid action) :
    s.nrItems ≤ (Io.step s action).nrItems ∧
      (heldBy sqid (Io.step s action) e = heldBy sqid s e ∨ heldBy sqid (Io.step s action) e = none) := by
  have henq (work : IoWork β → IoWork β)
      (hw : ∀ w, ¬ ((work w).sqid = sqid ∧ (work w).isInternal = false)) :
      s.nrItems ≤ (s.enqueue work).nrItems ∧
        (heldBy sqid (s.enqueue work) e = heldBy sqid s e ∨ heldBy sqid (s.enqueue work) e = none) := by
    obtain he | ⟨e', hn, ho, hpe, hp⟩ := enqueue_cases s work
    · rw [he]
      exact ⟨Nat.le_refl _, .inl rfl⟩
    · refine ⟨by omega, ?_⟩
      by_cases hee : e = e'
      · subst hee
        right
        obtain ⟨h1, h2, -, -⟩ := payload_fields hpe
        unfold heldBy
        dsimp only
        rw [h1, h2, if_neg (hw _)]
      · exact .inl (heldBy_congr (hp e hee) (by rw [ho, update_of_ne hee]))
  cases action with
  | enqueue sqid' cqid sqEntry commandId nsecsStart nsecsEnqueue ret => exact henq _ fun w hw => hf hw.1
  | internal sqid' nsecsTarget now writeBuffer buffsToRelease =>
    exact henq _ fun w hw => by cases hw.2
  | reclaim => exact ⟨Nat.le_refl _, .inl (heldBy_congr (IoWorker.Lists.reclaimCompletedReqs_payload _ e) rfl)⟩
  | scan =>
    unfold Io.step
    dsimp only
    split
    · exact ⟨Nat.le_refl _, .inl rfl⟩
    · exact ⟨Nat.le_refl _, .inl rfl⟩
  | visit => cases hf

/-- A dispatch of the queue: no item, or a new one in one entry. -/
theorem heldBy_enqueue (sqid : Nat) (s : Io.Sys β)
    (cqid sqEntry commandId nsecsStart nsecsEnqueue : Nat) (ret : Result) :
    Io.step s (.enqueue sqid cqid sqEntry commandId nsecsStart nsecsEnqueue ret) = s ∨
      ∃ e, (Io.step s (.enqueue sqid cqid sqEntry commandId nsecsStart nsecsEnqueue ret)).nrItems =
          s.nrItems + 1 ∧
        heldBy sqid (Io.step s (.enqueue sqid cqid sqEntry commandId nsecsStart nsecsEnqueue ret)) e =
          some ⟨s.nrItems, sqEntry, false⟩ ∧
        ∀ a ≠ e,
          heldBy sqid (Io.step s (.enqueue sqid cqid sqEntry commandId nsecsStart nsecsEnqueue ret)) a =
            heldBy sqid s a := by
  unfold Io.step
  dsimp only
  obtain he | ⟨e, hn, ho, hpe, hp⟩ := enqueue_cases s fun old =>
    requestWork old sqid cqid sqEntry commandId nsecsStart nsecsEnqueue ret
  · exact .inl he
  · refine .inr ⟨e, hn, ?_, fun a ha => heldBy_congr (hp a ha) (by rw [ho, update_of_ne ha])⟩
    obtain ⟨h1, h2, h3, h4⟩ := payload_fields hpe
    unfold heldBy
    simp only [h1, h2, h3, h4, ho, update_self]
    exact if_pos ⟨rfl, rfl⟩

theorem visitWork_copy (w : IoWork β) (kv : Option (Nat × Nat)) :
    (copyWork w kv).1.sqid = w.sqid ∧ (copyWork w kv).1.isInternal = w.isInternal ∧
      (copyWork w kv).1.sqEntry = w.sqEntry ∧ (copyWork w kv).1.isCopied = true ∧
      (copyWork w kv).1.nsecsTarget = w.nsecsTarget := by
  unfold copyWork
  split
  · rename_i hc
    exact ⟨rfl, rfl, rfl, hc, rfl⟩
  split
  · exact ⟨rfl, rfl, rfl, rfl, rfl⟩
  · cases kv <;> exact ⟨rfl, rfl, rfl, rfl, rfl⟩

/-- What a visit leaves of the work at an entry that is not completed. -/
theorem visitWork_fields (w : IoWork β) (now : Nat) (kv : Option (Nat × Nat)) :
    (completeWork (copyWork w kv).1 now).1.sqid = w.sqid ∧
      (completeWork (copyWork w kv).1 now).1.isInternal = w.isInternal ∧
      (completeWork (copyWork w kv).1 now).1.sqEntry = w.sqEntry ∧
      (completeWork (copyWork w kv).1 now).1.isCopied = true := by
  obtain ⟨h1, h2, h3, h4, -⟩ := visitWork_copy w kv
  unfold completeWork
  split
  · exact ⟨h1, h2, h3, h4⟩
  · exact ⟨h1, h2, h3, h4⟩

variable (sqid) in
/-- The entry of the cursor after a visit, and the others. -/
theorem heldBy_visit (hne : s.curr ≠ noEntry) (now : Nat) (kv : Option (Nat × Nat)) :
    (Io.step s (.visit now kv)).nrItems = s.nrItems ∧
      (∀ a ≠ s.curr, heldBy sqid (Io.step s (.visit now kv)) a = heldBy sqid s a) ∧
      heldBy sqid (Io.step s (.visit now kv)) s.curr = (heldBy sqid s s.curr).map fun h =>
        { h with copied := h.copied || !(s.worker.workQueue s.curr).isCompleted } := by
  unfold Io.step visitEntry
  dsimp only
  rw [if_neg hne]
  by_cases hcomp : (s.worker.workQueue s.curr).isCompleted = true
  · rw [if_pos hcomp]
    refine ⟨rfl, fun a _ => rfl, ?_⟩
    simp only [hcomp, Bool.not_true, Bool.or_false]
    change heldBy sqid s s.curr = _
    cases heldBy sqid s s.curr <;> rfl
  rw [if_neg hcomp]
  refine ⟨rfl, fun a ha => ?_, ?_⟩
  · unfold heldBy
    simp [ha]
  · have hcomp : (s.worker.workQueue s.curr).isCompleted = false := by simpa using hcomp
    obtain ⟨h1, h2, h3, h4⟩ := visitWork_fields (s.worker.workQueue s.curr) now kv
    unfold heldBy
    simp only [IoWorker.setWork_workQueue, update_self, h1, h2, h3, h4, hcomp, Bool.not_false, Bool.or_true]
    split
    · rfl
    · rfl

/-- The effects of a visit at an item of a queue. -/
theorem visit_effects (wk : IoWorker β) (curr now : Nat) (kv : Option (Nat × Nat))
    (hint : (wk.workQueue curr).isInternal = false) : ∃ status cqe,
      cqe.sqHead = (wk.workQueue curr).sqEntry ∧ (visitEntry wk curr now kv).2.2 =
        if (wk.workQueue curr).isCompleted then []
        else (if (wk.workQueue curr).isCopied then [] else [.copy kv status]) ++
          if (wk.workQueue curr).nsecsTarget ≤ now then [.post cqe] else [] := by
  generalize hw : wk.workQueue curr = w at hint ⊢
  refine ⟨(copyWork w kv).1.status, fillCqResult (copyWork w kv).1, ?_, ?_⟩
  · exact (visitWork_copy w kv).2.2.1
  · unfold visitEntry
    dsimp only
    rw [hw]
    split
    · rfl
    · dsimp only
      congr 1
      · unfold copyWork
        split
        · rfl
        · simp only [hint, Bool.false_eq_true, if_false]
      · obtain ⟨-, h2, -, -, h5⟩ := visitWork_copy w kv
        unfold completeWork
        rw [h5]
        split
        · simp [h2, hint]
        · rfl

/-- An internal operation leaves nothing but a release. -/
theorem visit_internal (wk : IoWorker β) (curr now : Nat) (kv : Option (Nat × Nat))
    (hint : (wk.workQueue curr).isInternal = true) :
    ∀ effect ∈ (visitEntry wk curr now kv).2.2, ∃ writeBuffer bytes, effect = .release writeBuffer bytes := by
  generalize hw : wk.workQueue curr = w at hint
  have hnone : (copyWork w kv).2 = [] := by
    unfold copyWork
    split
    · rfl
    · rfl
  unfold visitEntry
  dsimp only
  rw [hw]
  split
  · intro effect h
    cases h
  · obtain ⟨-, h2, -, -, -⟩ := visitWork_copy w kv
    dsimp only
    rw [hnone, List.nil_append]
    unfold completeWork
    split
    · intro effect h
      rw [h2, hint, if_pos rfl, List.mem_singleton] at h
      exact ⟨_, _, h⟩
    · intro effect h
      cases h

end Entries

/-! ## The invariant -/

/-- The slots of the commands that are to be copied keep them, since no later command has a completion. -/
structure Inv (s : Sys γ β) : Prop where
  pos : 0 < s.queueSize
  le : s.dispatched ≤ s.submitted
  window : s.submitted ≤ s.dispatched + s.queueSize
  owned : ∀ i e h, heldBy s.sqid (s.workers i) e = some h → h.item < (s.workers i).nrItems ∧
    ∃ k cmd, s.origin i h.item = some (k, cmd) ∧ k < s.dispatched ∧ h.slot = k % s.queueSize ∧
      (h.copied = true → k ∉ s.uncopied) ∧
      (h.copied = false → k ∈ s.uncopied ∧ s.slots (k % s.queueSize) = cmd)
  inj : ∀ i e h i' e' h', heldBy s.sqid (s.workers i) e = some h →
    heldBy s.sqid (s.workers i') e' = some h' → ∀ k cmd cmd', s.origin i h.item = some (k, cmd) →
    s.origin i' h'.item = some (k, cmd') → i = i' ∧ e = e'
  waiting : ∀ k ∈ s.uncopied, k < s.dispatched ∧ s.submitted ≤ k + s.queueSize ∧
    ∀ p ∈ s.posted, ∀ j, p.1 = some j → j < k
  posted : ∀ p ∈ s.posted, ∃ j, p.1 = some j ∧ j < s.dispatched ∧ p.2.sqHead = j % s.queueSize
  copies : ∀ p ∈ s.copies, p.1 = some p.2

section Steps

variable {s : Sys γ β} (h : Inv s)

include h

/-- A completion is for a command that was dispatched. -/
theorem Inv.posted_lt {p : Option Nat × Completion} (hp : p ∈ s.posted) {j : Nat} (hj : p.1 = some j) :
    j < s.dispatched := by
  obtain ⟨j', hj', hlt, -⟩ := h.posted p hp
  rw [hj] at hj'
  cases hj'
  exact hlt

/-- The host does not write to the slot of a command that is to be copied or dispatched. -/
theorem Inv.submit (cmd : γ) : Inv (s.submit cmd) := by
  have hle := h.le
  have hpos := h.pos
  unfold Sys.submit
  split
  · rename_i hfree
    -- nobody past command `k` is posted, so command `k + queue_size` is not submitted
    have hlimit (k : Nat) (hk : ∀ p ∈ s.posted, ∀ j, p.1 = some j → j ≤ k)
        (hsub : s.submitted ≤ k + s.queueSize) : s.submitted < k + s.queueSize := by
      obtain hlt | ⟨p, hp, j, hj, hkj⟩ := hfree
      · omega
      · have := hk p hp j hj
        omega
    refine ⟨hpos, Nat.le_succ_of_le hle, ?_, ?_, h.inj, ?_, h.posted, h.copies⟩
    · exact hlimit s.dispatched (fun p hp j hj => Nat.le_of_lt (h.posted_lt hp hj)) h.window
    · intro i e hd hheld
      obtain ⟨hitem, k, cmd', horig, hk, hslot, hcop, hun⟩ := h.owned i e hd hheld
      refine ⟨hitem, k, cmd', horig, hk, hslot, hcop, fun hc => ?_⟩
      obtain ⟨hmem, hcmd⟩ := hun hc
      obtain ⟨-, hsub, hposted⟩ := h.waiting k hmem
      have hlt := hlimit k (fun p hp j hj => Nat.le_of_lt (hposted p hp j hj)) hsub
      refine ⟨hmem, ?_⟩
      dsimp only
      rw [update_of_ne, hcmd]
      intro he
      have := eq_of_mod_eq he (by omega) (by omega)
      omega
    · intro k hmem
      obtain ⟨hk, hsub, hposted⟩ := h.waiting k hmem
      exact ⟨hk, hlimit k (fun p hp j hj => Nat.le_of_lt (hposted p hp j hj)) hsub, hposted⟩
  · exact h

/-- The next command to be dispatched is not in the slot of a command that is to be copied. -/
theorem Inv.slot_ne {k : Nat} (hmem : k ∈ s.uncopied) (hlt : s.dispatched < s.submitted) :
    k % s.queueSize ≠ s.dispatched % s.queueSize := by
  obtain ⟨hk, hsub, -⟩ := h.waiting k hmem
  intro he
  have := eq_of_mod_eq he (by omega) (by omega)
  omega

/-- The slot of the next command is written. -/
theorem Inv.overwrite (hlt : s.dispatched < s.submitted) (cmd : γ) :
    Inv { s with slots := update s.slots (s.dispatched % s.queueSize) cmd } := by
  refine ⟨h.pos, h.le, h.window, ?_, h.inj, h.waiting, h.posted, h.copies⟩
  intro i e hd hheld
  obtain ⟨hitem, k, cmd', horig, hk, hslot, hcop, hun⟩ := h.owned i e hd hheld
  refine ⟨hitem, k, cmd', horig, hk, hslot, hcop, fun hc => ?_⟩
  obtain ⟨hmem, hcmd⟩ := hun hc
  refine ⟨hmem, ?_⟩
  dsimp only
  rw [update_of_ne (h.slot_ne hmem hlt), hcmd]

theorem Inv.refuse (cmd : γ) : Inv (step s (.refuse cmd)) := by
  unfold step
  dsimp only
  split
  · rename_i hlt
    exact h.overwrite hlt cmd
  · exact h

/-- Steps that only take items of the queue out of entries. -/
theorem Inv.fewer {workers : Nat → Io.Sys β}
    (hn : ∀ i, (s.workers i).nrItems ≤ (workers i).nrItems)
    (hheld : ∀ i e, heldBy s.sqid (workers i) e = heldBy s.sqid (s.workers i) e ∨
      heldBy s.sqid (workers i) e = none) : Inv { s with workers } := by
  have hold (i e : Nat) (hd : Held) (he : heldBy s.sqid (workers i) e = some hd) :
      heldBy s.sqid (s.workers i) e = some hd := by
    obtain heq | hnone := hheld i e
    · rw [← heq, he]
    · rw [he] at hnone
      cases hnone
  refine ⟨h.pos, h.le, h.window, fun i e hd he => ?_, fun i e hd i' e' hd' he he' => ?_, h.waiting,
    h.posted, h.copies⟩
  · obtain ⟨hitem, hrest⟩ := h.owned i e hd (hold i e hd he)
    exact ⟨Nat.lt_of_lt_of_le hitem (hn i), hrest⟩
  · exact h.inj i e hd i' e' hd' (hold i e hd he) (hold i' e' hd' he')

theorem Inv.other (i : Nat) (action : Io.Action β) : Inv (step s (.other i action)) := by
  unfold step
  dsimp only
  split
  · rename_i hf
    have hstep (j : Nat) : (s.workers j).nrItems ≤
        (update s.workers i (Io.step (s.workers i) action) j).nrItems ∧ ∀ e,
        heldBy s.sqid (update s.workers i (Io.step (s.workers i) action) j) e =
            heldBy s.sqid (s.workers j) e ∨
          heldBy s.sqid (update s.workers i (Io.step (s.workers i) action) j) e = none := by
      by_cases hj : j = i
      · subst hj
        rw [update_self]
        exact ⟨(heldBy_foreign hf (e := 0)).1, fun e => (heldBy_foreign hf).2⟩
      · rw [update_of_ne hj]
        exact ⟨Nat.le_refl _, fun e => .inl rfl⟩
    exact h.fewer (fun j => (hstep j).1) fun j e => (hstep j).2 e
  · exact h

/-- The next command is taken from its slot. -/
theorem Inv.consume (hlt : s.dispatched < s.submitted) :
    Inv { s with dispatched := s.dispatched + 1 } := by
  refine ⟨h.pos, hlt, ?_, fun i e hd he => ?_, h.inj, fun k hmem => ?_, fun p hp => ?_, h.copies⟩
  · have := h.window
    dsimp only
    omega
  · obtain ⟨hitem, k, cmd', horig, hk, hrest⟩ := h.owned i e hd he
    exact ⟨hitem, k, cmd', horig, Nat.lt_succ_of_lt hk, hrest⟩
  · obtain ⟨hk, hrest⟩ := h.waiting k hmem
    exact ⟨Nat.lt_succ_of_lt hk, hrest⟩
  · obtain ⟨j, hj, hjlt, hrest⟩ := h.posted p hp
    exact ⟨j, hj, Nat.lt_succ_of_lt hjlt, hrest⟩

/-- No item is for a command that was not dispatched. -/
theorem Inv.origin_ne {k j e : Nat} {hd : Held} {cmd : γ} (hk : s.dispatched ≤ k)
    (he : heldBy s.sqid (s.workers j) e = some hd) : s.origin j hd.item ≠ some (k, cmd) := by
  intro ho
  obtain ⟨-, k', cmd', horig, hlt, -⟩ := h.owned j e hd he
  rw [ho] at horig
  cases horig
  omega

section NewItem

variable {worker : Io.Sys β} {i e₀ k : Nat} {cmd : γ}
  (hn : worker.nrItems = (s.workers i).nrItems + 1)
  (hnew : heldBy s.sqid worker e₀ = some ⟨(s.workers i).nrItems, k % s.queueSize, false⟩)
  (hothers : ∀ e ≠ e₀, heldBy s.sqid worker e = heldBy s.sqid (s.workers i) e)

include hnew hothers

/-- An entry holds the new item, or what it held before. -/
theorem Inv.held_cases (cmd : γ) {j e : Nat} {hd : Held}
    (he : heldBy s.sqid (update s.workers i worker j) e = some hd) :
    (j = i ∧ e = e₀ ∧ hd = ⟨(s.workers i).nrItems, k % s.queueSize, false⟩ ∧
      update s.origin i (update (s.origin i) (s.workers i).nrItems (some (k, cmd))) j hd.item =
        some (k, cmd)) ∨
    (heldBy s.sqid (s.workers j) e = some hd ∧
      update s.origin i (update (s.origin i) (s.workers i).nrItems (some (k, cmd))) j hd.item =
        s.origin j hd.item) := by
  by_cases hj : j = i
  · subst hj
    rw [update_self] at he ⊢
    by_cases hee : e = e₀
    · subst hee
      rw [hnew] at he
      cases he
      exact .inl ⟨rfl, rfl, rfl, update_self ..⟩
    · rw [hothers e hee] at he
      have hitem := (h.owned j e hd he).1
      exact .inr ⟨he, update_of_ne (by omega) _ _⟩
  · rw [update_of_ne hj] at he ⊢
    exact .inr ⟨he, rfl⟩

include hn

/-- Command `k`, which has no item yet, gets one. -/
theorem Inv.newItem (hk : k < s.dispatched) (hsub : s.submitted ≤ k + s.queueSize)
    (hposted : ∀ p ∈ s.posted, ∀ j, p.1 = some j → j < k) (hslot : s.slots (k % s.queueSize) = cmd)
    (hfresh : ∀ {j e : Nat} {hd : Held} {cmd' : γ}, heldBy s.sqid (s.workers j) e = some hd →
      s.origin j hd.item ≠ some (k, cmd')) :
    Inv { s with
      workers := update s.workers i worker
      origin := update s.origin i (update (s.origin i) (s.workers i).nrItems (some (k, cmd)))
      uncopied := s.uncopied ++ [k] } := by
  have hcases {j e : Nat} {hd : Held}
      (he : heldBy s.sqid (update s.workers i worker j) e = some hd) :=
    h.held_cases hnew hothers cmd he
  refine ⟨h.pos, h.le, h.window, fun j e hd he => ?_,
    fun j e hd j' e' hd' he he' k' c c' ho ho' => ?_, fun k' hmem => ?_, h.posted, h.copies⟩
  · obtain ⟨rfl, rfl, rfl, ho⟩ | ⟨hold, ho⟩ := hcases he
    · refine ⟨?_, k, cmd, ho, hk, rfl, nofun, fun _ => ⟨by simp, hslot⟩⟩
      dsimp only
      rw [update_self, hn]
      exact Nat.lt_succ_self _
    · obtain ⟨hitem, k', cmd', horig, hk', hslot', hcop, hun⟩ := h.owned j e hd hold
      refine ⟨?_, k', cmd', ho.trans horig, hk', hslot', fun hc hmem => ?_, fun hc => ?_⟩
      · dsimp only
        by_cases hj : j = i
        · subst hj
          rw [update_self, hn]
          omega
        · rw [update_of_ne hj]
          exact hitem
      · rw [List.mem_append, List.mem_singleton] at hmem
        obtain hmem | rfl := hmem
        · exact hcop hc hmem
        · exact hfresh hold horig
      · obtain ⟨hmem, hcmd⟩ := hun hc
        exact ⟨List.mem_append_left _ hmem, hcmd⟩
  · dsimp only at he he' ho ho'
    obtain ⟨hj, hje, hhd, hnum⟩ | ⟨hold, heq⟩ := hcases he <;>
      obtain ⟨hj', hje', hhd', hnum'⟩ | ⟨hold', heq'⟩ := hcases he'
    · exact ⟨hj.trans hj'.symm, hje.trans hje'.symm⟩
    · rw [hnum] at ho
      cases ho
      rw [heq'] at ho'
      exact absurd ho' (hfresh hold')
    · rw [hnum'] at ho'
      cases ho'
      rw [heq] at ho
      exact absurd ho (hfresh hold)
    · rw [heq] at ho
      rw [heq'] at ho'
      exact h.inj j e hd j' e' hd' hold hold' k' c c' ho ho'
  · rw [List.mem_append, List.mem_singleton] at hmem
    obtain hmem | rfl := hmem
    · exact h.waiting k' hmem
    · exact ⟨hk, hsub, hposted⟩

end NewItem

theorem Inv.dispatch (i : Nat) (cmd : γ) (cqid commandId nsecsStart nsecsEnqueue : Nat) (ret : Result) :
    Inv (s.dispatch i cmd cqid commandId nsecsStart nsecsEnqueue ret) := by
  unfold Sys.dispatch
  split
  rotate_left
  · exact h
  rename_i hlt
  dsimp only
  have htaken := (h.overwrite hlt cmd).consume hlt
  obtain hsame | ⟨e₀, hn, hnew, hothers⟩ := heldBy_enqueue s.sqid (s.workers i) cqid
    (s.dispatched % s.queueSize) commandId nsecsStart nsecsEnqueue ret
  · -- the list of the worker is full: no item
    rw [hsame, if_pos rfl, update_eq_self]
    exact htaken
  · rw [if_neg (by omega)]
    exact htaken.newItem hn hnew hothers (Nat.lt_succ_self _) h.window (fun p hp j hj => h.posted_lt hp hj)
      (update_self ..) fun he => h.origin_ne (Nat.le_refl _) he

/-- The workers after a visit. -/
theorem Inv.visited {i : Nat} (hne : (s.workers i).curr ≠ noEntry) (now : Nat) (kv : Option (Nat × Nat))
    (hquiet : (heldBy s.sqid (s.workers i) (s.workers i).curr).map (fun hd =>
      { hd with copied := hd.copied || !((s.workers i).worker.workQueue (s.workers i).curr).isCompleted }) =
      heldBy s.sqid (s.workers i) (s.workers i).curr) :
    Inv { s with workers := update s.workers i (Io.step (s.workers i) (.visit now kv)) } := by
  obtain ⟨hn, hothers, hcurr⟩ := heldBy_visit s.sqid hne now kv
  refine h.fewer (fun j => ?_) fun j e => .inl ?_
  · by_cases hj : j = i
    · subst hj
      rw [update_self, hn]
    · rw [update_of_ne hj]
  · by_cases hj : j = i
    · subst hj
      rw [update_self]
      by_cases he : e = (s.workers j).curr
      · subst he
        rw [hcurr, hquiet]
      · exact hothers e he
    · rw [update_of_ne hj]

omit h in
/-- After a visit with a copy, the entry of the cursor is copied; the others hold what they held. -/
theorem heldBy_copied {i : Nat} (hne : (s.workers i).curr ≠ noEntry) (now : Nat)
    (kv : Option (Nat × Nat))
    (hcomp : ((s.workers i).worker.workQueue (s.workers i).curr).isCompleted = false) {hd : Held}
    (hheld : heldBy s.sqid (s.workers i) (s.workers i).curr = some hd) {j e : Nat} {hd' : Held}
    (he : heldBy s.sqid (update s.workers i (Io.step (s.workers i) (.visit now kv)) j) e = some hd') :
    (j = i ∧ e = (s.workers i).curr ∧ hd' = { hd with copied := true }) ∨
      (¬ (j = i ∧ e = (s.workers i).curr) ∧ heldBy s.sqid (s.workers j) e = some hd') := by
  obtain ⟨-, hothers, hcurr⟩ := heldBy_visit s.sqid hne now kv
  rw [hheld, hcomp] at hcurr
  by_cases hj : j = i
  · subst hj
    rw [update_self] at he
    by_cases hee : e = (s.workers j).curr
    · subst hee
      rw [hcurr] at he
      refine .inl ⟨rfl, rfl, ?_⟩
      simpa using he.symm
    · rw [hothers e hee] at he
      exact .inr ⟨fun hc => hee hc.2, he⟩
  · rw [update_of_ne hj] at he
    exact .inr ⟨fun hc => hj hc.1, he⟩

/-- A visit that copies the item of the cursor, if it is not copied. -/
theorem Inv.copy {i : Nat} (hne : (s.workers i).curr ≠ noEntry) (now : Nat) (kv : Option (Nat × Nat))
    (hcomp : ((s.workers i).worker.workQueue (s.workers i).curr).isCompleted = false) {hd : Held}
    (hheld : heldBy s.sqid (s.workers i) (s.workers i).curr = some hd) {k : Nat} {cmd : γ}
    (horig : s.origin i hd.item = some (k, cmd)) :
    Inv { s with
      workers := update s.workers i (Io.step (s.workers i) (.visit now kv))
      copies := s.copies ++ (if hd.copied then [] else [(some cmd, s.slots hd.slot)])
      uncopied := s.uncopied.filter fun k' => some k ≠ some k' } := by
  obtain ⟨hn, -, -⟩ := heldBy_visit s.sqid hne now kv
  obtain ⟨-, k', cmd', horig', hk, hslot, hcop, hun⟩ := h.owned i _ hd hheld
  rw [horig] at horig'
  cases horig'
  have hnr (j : Nat) : (update s.workers i (Io.step (s.workers i) (.visit now kv)) j).nrItems =
      (s.workers j).nrItems := by
    by_cases hj : j = i
    · subst hj
      rw [update_self, hn]
    · rw [update_of_ne hj]
  have hbefore (j e : Nat) (hd' : Held)
      (he : heldBy s.sqid (update s.workers i (Io.step (s.workers i) (.visit now kv)) j) e = some hd') :
      ∃ hd₀, heldBy s.sqid (s.workers j) e = some hd₀ ∧ hd₀.item = hd'.item := by
    obtain ⟨rfl, rfl, rfl⟩ | ⟨-, he⟩ := heldBy_copied hne now kv hcomp hheld he
    · exact ⟨hd, hheld, rfl⟩
    · exact ⟨hd', he, rfl⟩
  refine ⟨h.pos, h.le, h.window, fun j e hd' he => ?_, fun j e hd' j' e' hd'' he he' k₁ c c' ho ho' => ?_,
    fun k' hmem => h.waiting k' (List.mem_filter.mp hmem).1, h.posted, fun p hp => ?_⟩
  · dsimp only at he ⊢
    rw [hnr]
    obtain ⟨rfl, rfl, rfl⟩ | ⟨hother, he⟩ := heldBy_copied hne now kv hcomp hheld he
    · exact ⟨(h.owned j _ hd hheld).1, k, cmd, horig, hk, hslot, fun _ hmem => by simp at hmem, nofun⟩
    · obtain ⟨hitem, k', cmd', horig', hk', hslot', hcop', hun'⟩ := h.owned j e hd' he
      refine ⟨hitem, k', cmd', horig', hk', hslot', fun hc hmem => hcop' hc (List.mem_filter.mp hmem).1,
        fun hc => ?_⟩
      obtain ⟨hmem, hcmd⟩ := hun' hc
      refine ⟨List.mem_filter.mpr ⟨hmem, ?_⟩, hcmd⟩
      simp only [ne_eq, Option.some.injEq, decide_not, Bool.not_eq_true', decide_eq_false_iff_not]
      rintro rfl
      exact hother (h.inj j e hd' i _ hd he hheld k cmd' cmd horig' horig)
  · obtain ⟨hd₀, hold, hitem⟩ := hbefore j e hd' he
    obtain ⟨hd₀', hold', hitem'⟩ := hbefore j' e' hd'' he'
    dsimp only at ho ho'
    rw [← hitem] at ho
    rw [← hitem'] at ho'
    exact h.inj j e hd₀ j' e' hd₀' hold hold' k₁ c c' ho ho'
  · rw [List.mem_append] at hp
    obtain hp | hp := hp
    · exact h.copies p hp
    · split at hp
      · cases hp
      · rename_i hc
        rw [List.mem_singleton] at hp
        subst hp
        obtain ⟨-, hcmd⟩ := hun (by simpa using hc)
        rw [hslot, hcmd]

/-- A completion of a command before which all are copied. -/
theorem Inv.post {k : Nat} {cqe : Completion} (hk : k < s.dispatched)
    (hhead : cqe.sqHead = k % s.queueSize) (hfirst : ∀ k' ∈ s.uncopied, k < k') :
    Inv { s with posted := s.posted ++ [(some k, cqe)] } := by
  refine ⟨h.pos, h.le, h.window, h.owned, h.inj, fun k' hmem => ?_, fun p hp => ?_, h.copies⟩
  · obtain ⟨hlt, hsub, hposted⟩ := h.waiting k' hmem
    refine ⟨hlt, hsub, fun p hp j hj => ?_⟩
    rw [List.mem_append, List.mem_singleton] at hp
    obtain hp | rfl := hp
    · exact hposted p hp j hj
    · cases hj
      exact hfirst k' hmem
  · rw [List.mem_append, List.mem_singleton] at hp
    obtain hp | rfl := hp
    · exact h.posted p hp
    · exact ⟨k, rfl, hk, hhead⟩

omit h in
theorem foldl_record_release {sqEntry : Nat} {origin : Option (Nat × γ)} {effects : List (Effect β)}
    (hrel : ∀ effect ∈ effects, ∃ writeBuffer bytes, effect = .release writeBuffer bytes) :
    effects.foldl (fun s => s.record sqEntry origin) s = s := by
  induction effects with
  | nil => rfl
  | cons effect effects ih =>
    obtain ⟨writeBuffer, bytes, rfl⟩ := hrel effect (by simp)
    exact ih fun effect he => hrel effect (by simp [he])

theorem Inv.visit (i now : Nat) (kv : Option (Nat × Nat)) (hfirst : CopiedFirst s (.visit i now kv)) :
    Inv (s.visit i now kv) := by
  unfold Sys.visit
  dsimp only
  split
  · exact h
  rename_i hne
  have hnone (hno : ¬ (((s.workers i).worker.workQueue (s.workers i).curr).sqid = s.sqid ∧
      ((s.workers i).worker.workQueue (s.workers i).curr).isInternal = false)) :
      heldBy s.sqid (s.workers i) (s.workers i).curr = none := if_neg hno
  split
  rotate_left
  · rename_i hq
    exact h.visited hne now kv (by rw [hnone fun hc => hq hc.1]; rfl)
  rename_i hq
  by_cases hint : ((s.workers i).worker.workQueue (s.workers i).curr).isInternal = true
  · rw [foldl_record_release (visit_internal _ _ _ _ hint)]
    refine h.visited hne now kv ?_
    rw [hnone fun hc => by rw [hint] at hc; cases hc.2]
    rfl
  have hint : ((s.workers i).worker.workQueue (s.workers i).curr).isInternal = false := by
    simpa using hint
  have hheld : heldBy s.sqid (s.workers i) (s.workers i).curr =
      some ⟨(s.workers i).owner (s.workers i).curr,
        ((s.workers i).worker.workQueue (s.workers i).curr).sqEntry,
        ((s.workers i).worker.workQueue (s.workers i).curr).isCopied⟩ := if_pos ⟨hq, hint⟩
  obtain ⟨status, cqe, hhead, heff⟩ := visit_effects (s.workers i).worker (s.workers i).curr now kv hint
  obtain ⟨-, k, cmd, horig, hk, hslot, hcop, -⟩ := h.owned i _ _ hheld
  rw [heff]
  by_cases hcomp : ((s.workers i).worker.workQueue (s.workers i).curr).isCompleted = true
  · rw [if_pos hcomp]
    refine h.visited hne now kv ?_
    rw [hheld, hcomp]
    simp
  rw [if_neg hcomp]
  have hcomp : ((s.workers i).worker.workQueue (s.workers i).curr).isCompleted = false := by
    simpa using hcomp
  dsimp only at horig hslot hcop
  -- the completion comes after the copy
  have hpost (s₁ : Sys γ β) (h₁ : Inv s₁) (hd : s₁.dispatched = s.dispatched)
      (hsize : s₁.queueSize = s.queueSize) (hun : ∀ k' ∈ s₁.uncopied, k' ∈ s.uncopied ∧ k ≠ k') :
      Inv ((if ((s.workers i).worker.workQueue (s.workers i).curr).nsecsTarget ≤ now then
          [Effect.post cqe] else []).foldl (fun s₂ => s₂.record
            ((s.workers i).worker.workQueue (s.workers i).curr).sqEntry (some (k, cmd))) s₁) := by
    split
    · rename_i htarget
      refine h₁.post (by rw [hd]; exact hk) (by rw [hhead, hslot, hsize]) fun k' hmem => ?_
      obtain ⟨hold, hk'⟩ := hun k' hmem
      have := hfirst hne hq hint hcomp htarget k' hold (k, cmd) horig
      dsimp only at this
      omega
    · exact h₁
  have hcopied := h.copy hne now kv hcomp hheld horig
  dsimp only at hcopied
  rw [horig, List.foldl_append]
  by_cases hc : ((s.workers i).worker.workQueue (s.workers i).curr).isCopied = true
  · have hsame : s.uncopied.filter (fun k' => some k ≠ some k') = s.uncopied := by
      refine List.filter_eq_self.mpr fun k' hmem => ?_
      simp only [ne_eq, Option.some.injEq, decide_not, Bool.not_eq_true', decide_eq_false_iff_not]
      rintro rfl
      exact hcop hc hmem
    rw [hc, if_pos rfl, List.append_nil, hsame] at hcopied
    rw [if_pos hc]
    refine hpost _ hcopied rfl rfl fun k' hmem => ⟨hmem, ?_⟩
    rintro rfl
    exact hcop hc hmem
  · rw [if_neg hc] at hcopied ⊢
    refine hpost _ hcopied rfl rfl fun k' hmem => ?_
    obtain ⟨hold, hne'⟩ := List.mem_filter.mp hmem
    exact ⟨hold, by simpa using hne'⟩

theorem Inv.step (a : Action γ β) (hfirst : CopiedFirst s a) : Inv (step s a) := by
  cases a with
  | submit cmd => exact h.submit cmd
  | refuse cmd => exact h.refuse cmd
  | dispatch i cmd cqid commandId nsecsStart nsecsEnqueue ret =>
    exact h.dispatch i cmd cqid commandId nsecsStart nsecsEnqueue ret
  | other i action => exact h.other i action
  | visit i now kv => exact h.visit i now kv hfirst

end Steps

theorem inv_init {sqid queueSize : Nat} (hsqid : sqid ≠ 0) (hpos : 0 < queueSize) (slots : Nat → γ) :
    Inv ({ sqid, queueSize, slots } : Sys γ β) := by
  have hnone (i e : Nat) (hd : Held) (he : heldBy sqid (Io.Sys.init : Io.Sys β) e = some hd) : False := by
    unfold heldBy Io.Sys.init ioWorkerInit at he
    rw [if_neg fun hc => hsqid hc.1.symm] at he
    cases he
  exact ⟨hpos, Nat.le_refl _, Nat.zero_le _, fun i e hd he => (hnone i e hd he).elim,
    fun i e hd _ _ _ he => (hnone i e hd he).elim, fun _ hk => (by cases hk), fun _ hp => (by cases hp),
    fun _ hp => (by cases hp)⟩

end Sq

/-- A submission queue of any size, any number of workers, and any interleaving of the host, which uses
the slot of a command again when a posted completion reports an `sq_head` past it, the dispatcher and the
workers: in every state, each copy has read the command that was in the slot when its item was
dispatched, if each completion of the queue is posted only when the commands dispatched before it have
been copied. A completion reports the slot of its own command. -/
theorem copies_read_dispatched_command {γ β : Type} {sqid queueSize : Nat} (hsqid : sqid ≠ 0)
    (hpos : 0 < queueSize) (slots : Nat → γ) (actions : List (Sq.Action γ β))
    (hfirst : AllSteps Sq.step Sq.CopiedFirst { sqid, queueSize, slots } actions) :
    AllStates Sq.step (fun s => (∀ p ∈ s.copies, p.1 = some p.2) ∧
      ∀ p ∈ s.posted, ∃ k, p.1 = some k ∧ p.2.sqHead = k % s.queueSize)
      { sqid, queueSize, slots } actions := by
  intro l hl
  have h := invariant (Sq.inv_init hsqid hpos slots) hfirst (fun s a h hP => h.step a hP) l hl
  refine ⟨h.copies, fun p hp => ?_⟩
  obtain ⟨k, hk, -, hhead⟩ := h.posted p hp
  exact ⟨k, hk, hhead⟩

/-- Three commands in the list of one worker, the first with the latest target time. -/
def threeCommands : List (Sq.Action Nat Unit) :=
  [.submit 10, .submit 11, .submit 12, .dispatch 0 10 1 0 0 0 { status := 0, nsecsTarget := 100 },
    .dispatch 0 11 1 1 0 0 { status := 0, nsecsTarget := 5 },
    .dispatch 0 12 1 2 0 0 { status := 0, nsecsTarget := 6 }, .other 0 .scan]

instance : ∀ s a, Decidable (Sq.CopiedFirst (γ := Nat) (β := Unit) s a)
  | _, .visit _ _ _ => by unfold Sq.CopiedFirst; infer_instance
  | _, .submit _ | _, .refuse _ | _, .dispatch _ _ _ _ _ _ _ | _, .other _ _ => .isTrue trivial

/-- The worker walks the list once before the first target time, so everything is copied when the second
and the third command complete. -/
theorem copies_read_dispatched_command_walk :
    AllStates Sq.step (fun s : Sq.Sys Nat Unit => (∀ p ∈ s.copies, p.1 = some p.2) ∧
      ∀ p ∈ s.posted, ∃ k, p.1 = some k ∧ p.2.sqHead = k % s.queueSize)
      { sqid := 1, queueSize := 4, slots := fun _ => 0 }
      (threeCommands ++ [.visit 0 1 none, .visit 0 1 none, .visit 0 1 none, .other 0 .scan,
        .visit 0 10 none, .visit 0 10 none, .submit 13, .submit 14]) :=
  copies_read_dispatched_command (by decide) (by decide) _ _ (by decide +kernel)

/-- The second and the third command complete in the same walk in which they are copied. The host puts
another command into the first slot, and the worker copies that one. -/
theorem slot_reused_before_copy : ¬
    AllStates Sq.step (fun s : Sq.Sys Nat Unit => ∀ p ∈ s.copies, p.1 = some p.2)
      { sqid := 1, queueSize := 4, slots := fun _ => 0 }
      (threeCommands ++ [.visit 0 10 none, .visit 0 10 none, .submit 13, .submit 14,
        .visit 0 10 none]) := by
  intro h
  have hlast := h _ (List.prefix_refl _)
  revert hlast
  decide

end Nvmev
