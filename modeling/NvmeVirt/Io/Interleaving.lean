import NvmeVirt.Io.Lists

/-!
# A worker and the dispatcher, interleaved

`Io.Sys` is a worker with its cursor, in any interleaving (`Io.Action`) with the dispatcher. The
cursor can stand on an entry that was reclaimed, or allocated again, since the worker read it.

Each enqueue makes a new work item; `owner` is the item that an entry holds, and `log` what
happened to the items, in order. Both only record the run. `work_items_at_most_once`: an item is
copied at most once and completed at most once, a completion is justified by what stands before
it in the log, and the cursor is never on an entry that was not allocated. The reason is the order
of the free list: the entries that were never allocated stand before the reclaimed ones, which are
all completed, so a cursor that is left behind on a reclaimed entry runs to the end of the list.
-/

namespace Nvmev

open Function Linked

namespace Io

variable {β : Type}

/-- What happened to a work item. -/
inductive Event (β : Type) where
  | enqueued (item entry : Nat) (work : IoWork β)
  | copied (item : Nat) (kv : Option (Nat × Nat)) (status : Nat)
  | posted (item currNsecs : Nat) (cqe : Completion)
  | released (item currNsecs : Nat) (writeBuffer : Option β) (buffsToRelease : Nat)

/-- The three things that happen to an item. -/
inductive Kind where
  | enqueue | copy | completion
  deriving DecidableEq, Repr

def Event.item : Event β → Nat
  | .enqueued item .. | .copied item .. | .posted item .. | .released item .. => item

def Event.kind : Event β → Kind
  | .enqueued .. => .enqueue
  | .copied .. => .copy
  | .posted .. | .released .. => .completion

/-- How often `kind` happened to `item`. -/
def count (log : List (Event β)) (kind : Kind) (item : Nat) : Nat :=
  log.countP fun ev => ev.kind = kind ∧ ev.item = item

/-- What must stand in the log before an event. A copy leaves the status that the item was enqueued
with, or the one of the KV handler; a completion comes after the copy, at or after the target time,
and has the data that the item was enqueued with. -/
def Justified (log : List (Event β)) : Event β → Prop
  | .enqueued .. => True
  | .copied item kv status =>
    ∃ entry work, .enqueued item entry work ∈ log ∧ work.isInternal = false ∧
      status = (kv.map Prod.fst).getD work.status
  | .posted item currNsecs cqe =>
    ∃ entry work kv, .enqueued item entry work ∈ log ∧ work.isInternal = false ∧
      .copied item kv cqe.status ∈ log ∧ work.nsecsTarget ≤ currNsecs ∧
      cqe.commandId = work.commandId ∧ cqe.sqId = work.sqid
  | .released item currNsecs writeBuffer buffsToRelease =>
    ∃ entry work, .enqueued item entry work ∈ log ∧ work.isInternal = true ∧
      work.nsecsTarget ≤ currNsecs ∧ writeBuffer = work.writeBuffer ∧
      buffsToRelease = work.buffsToRelease

/-- The steps of the dispatcher and of the worker. -/
inductive Action (β : Type) where
  /-- `__enqueue_io_req`. -/
  | enqueue (sqid cqid sqEntry commandId nsecsStart nsecsEnqueue : Nat) (ret : Result)
  /-- `schedule_internal_operation`. -/
  | internal (sqid nsecsTarget now : Nat) (writeBuffer : β) (buffsToRelease : Nat)
  /-- `__reclaim_completed_reqs`. -/
  | reclaim
  /-- The worker starts a new walk. -/
  | scan
  /-- The worker at the entry of its cursor. -/
  | visit (currNsecs : Nat) (kv : Option (Nat × Nat))

/-- A worker, its cursor and the record of the run. -/
structure Sys (β : Type) where
  worker : IoWorker β
  curr : Nat
  owner : Nat → Nat
  nrItems : Nat
  log : List (Event β)

/-- After `NVMEV_IO_WORKER_INIT`. -/
def Sys.init : Sys β :=
  { worker := ioWorkerInit, curr := noEntry, owner := fun _ => 0, nrItems := 0, log := [] }

/-- An enqueue. -/
def Sys.enqueue (s : Sys β) (work : IoWork β → IoWork β) : Sys β :=
  match enqueueWork s.worker work with
  | none => s
  | some (entry, worker) =>
    { s with
      worker
      owner := update s.owner entry s.nrItems
      nrItems := s.nrItems + 1
      log := s.log ++ [.enqueued s.nrItems entry (work (s.worker.workQueue entry))] }

/-- An effect as an event of `item`. -/
def eventOf (item currNsecs : Nat) : Effect β → Event β
  | .copy kv status => .copied item kv status
  | .post cqe => .posted item currNsecs cqe
  | .release writeBuffer buffsToRelease => .released item currNsecs writeBuffer buffsToRelease

/-- One step. -/
def step (s : Sys β) : Action β → Sys β
  | .enqueue sqid cqid sqEntry commandId nsecsStart nsecsEnqueue ret =>
    s.enqueue fun old => requestWork old sqid cqid sqEntry commandId nsecsStart nsecsEnqueue ret
  | .internal sqid nsecsTarget now writeBuffer buffsToRelease =>
    s.enqueue fun old => internalWork old sqid nsecsTarget now writeBuffer buffsToRelease
  | .reclaim => { s with worker := reclaimCompletedReqs s.worker }
  | .scan => if s.curr = noEntry then { s with curr := s.worker.ioSeq } else s
  | .visit currNsecs kv =>
    if s.curr = noEntry then s
    else
      let (worker, curr, effects) := visitEntry s.worker s.curr currNsecs kv
      { s with
        worker, curr, log := s.log ++ effects.map (eventOf (s.owner s.curr) currNsecs) }

/-! ## The log -/

/-- A log in which everything happened at most once and was justified. -/
structure LogOk (log : List (Event β)) (nrItems : Nat) : Prop where
  known : ∀ ev ∈ log, ev.item < nrItems
  once : ∀ kind item, count log kind item ≤ 1
  justified : ∀ before ev after, log = before ++ ev :: after → Justified before ev

variable {log : List (Event β)} {nrItems : Nat}

theorem count_concat (log : List (Event β)) (ev : Event β) (kind : Kind) (item : Nat) :
    count (log ++ [ev]) kind item =
      count log kind item + if ev.kind = kind ∧ ev.item = item then 1 else 0 := by
  unfold count
  rw [List.countP_append, List.countP_singleton]
  simp

theorem count_eq_zero (h : ∀ ev ∈ log, ev.item < nrItems) (kind : Kind) {item : Nat}
    (hi : nrItems ≤ item) : count log kind item = 0 := by
  unfold count
  rw [List.countP_eq_zero]
  intro ev hev
  have := h ev hev
  simp only [decide_eq_true_eq, not_and]
  omega

theorem LogOk.mono {n : Nat} (h : LogOk log nrItems) (hn : nrItems ≤ n) : LogOk log n :=
  ⟨fun ev hev => Nat.lt_of_lt_of_le (h.known ev hev) hn, h.once, h.justified⟩

/-- One more event, which did not happen before. -/
theorem LogOk.concat (h : LogOk log nrItems) {ev : Event β} (hi : ev.item < nrItems)
    (hj : Justified log ev) (h0 : count log ev.kind ev.item = 0) : LogOk (log ++ [ev]) nrItems := by
  refine ⟨?_, ?_, ?_⟩
  · intro e he
    rcases List.mem_append.mp he with he | he
    · exact h.known e he
    · rw [List.mem_singleton.mp he]; exact hi
  · intro kind item
    rw [count_concat]
    split
    · rename_i heq
      rw [← heq.1, ← heq.2, h0]
    · exact h.once kind item
  · intro before e after heq
    rcases List.eq_nil_or_concat after with rfl | ⟨l, x, rfl⟩
    · obtain ⟨rfl, hev⟩ := List.append_inj' heq rfl
      rw [← (List.cons.inj hev).1]; exact hj
    · rw [List.concat_eq_append, ← List.cons_append, ← List.append_assoc] at heq
      exact h.justified before e l (List.append_inj' heq rfl).1

/-! ## An entry and its item -/

/-- What the log says about the item in an entry. -/
structure Entry (log : List (Event β)) (item e : Nat) (w : IoWork β) : Prop where
  enqueued : ∃ work, .enqueued item e work ∈ log ∧ work.sqid = w.sqid ∧
    work.commandId = w.commandId ∧ work.nsecsTarget = w.nsecsTarget ∧
    work.isInternal = w.isInternal ∧ work.writeBuffer = w.writeBuffer ∧
    work.buffsToRelease = w.buffsToRelease ∧ (w.isCopied = false → work.status = w.status)
  internal : w.isInternal = true → w.isCopied = true
  copied : w.isInternal = false → w.isCopied = true → ∃ kv, .copied item kv w.status ∈ log
  notCopied : w.isCopied = false → count log .copy item = 0
  notCompleted : w.isCompleted = false → count log .completion item = 0

theorem Entry.payload {item e : Nat} {w w' : IoWork β} (h : Entry log item e w)
    (hp : w'.payload = w.payload) : Entry log item e w' := by
  cases w
  cases w'
  simp only [IoWork.payload, IoWork.mk.injEq] at hp
  obtain ⟨rfl, rfl, rfl, rfl, rfl, rfl, rfl, rfl, rfl, rfl, rfl, rfl, rfl, rfl, rfl, -, -⟩ := hp
  exact ⟨h.enqueued, h.internal, h.copied, h.notCopied, h.notCompleted⟩

/-- Events of other items. -/
theorem Entry.append_of_ne {item e : Nat} {w : IoWork β} (h : Entry log item e w)
    {evs : List (Event β)} (hne : ∀ ev ∈ evs, ev.item ≠ item) : Entry (log ++ evs) item e w := by
  obtain ⟨work, hm, hw⟩ := h.enqueued
  have hcount (kind : Kind) : count (log ++ evs) kind item = count log kind item := by
    unfold count
    rw [List.countP_append, Nat.add_eq_left, List.countP_eq_zero]
    intro ev hev
    simp [hne ev hev]
  refine ⟨⟨work, List.mem_append_left _ hm, hw⟩, h.internal, fun h1 h2 => ?_, ?_, ?_⟩
  · obtain ⟨kv, hc⟩ := h.copied h1 h2
    exact ⟨kv, List.mem_append_left _ hc⟩
  · rw [hcount]; exact h.notCopied
  · rw [hcount]; exact h.notCompleted

/-- The copy at an entry that is not completed. -/
theorem Entry.copyWork {item e : Nat} {w w' : IoWork β} {kv : Option (Nat × Nat)}
    {effects : List (Effect β)} (hl : LogOk log nrItems) (hi : item < nrItems)
    (h : Entry log item e w) (hc : copyWork w kv = (w', effects)) (now : Nat) :
    LogOk (log ++ effects.map (eventOf item now)) nrItems ∧
      Entry (log ++ effects.map (eventOf item now)) item e w' ∧ w'.isCopied = true ∧
      w'.isCompleted = w.isCompleted ∧ w'.next = w.next ∧ w'.prev = w.prev := by
  obtain ⟨work, hm, h1, h2, h3, h4, h5, h6, h7⟩ := h.enqueued
  unfold Nvmev.copyWork at hc
  split at hc
  · rename_i hcop
    cases hc
    simpa [hcop] using ⟨hl, h⟩
  rename_i hcop
  rw [Bool.not_eq_true] at hcop
  split at hc
  · rename_i hint
    exact absurd (h.internal hint) (by simp [hcop])
  rename_i hint
  rw [Bool.not_eq_true] at hint
  have h0 := h.notCopied hcop
  have hst := h7 hcop
  have hj {status : Nat} (hs : status = (kv.map Prod.fst).getD w.status) :
      Justified log (.copied item kv status) :=
    ⟨e, work, hm, by rw [h4, hint], by rw [hs, hst]⟩
  cases hc
  refine ⟨hl.concat hi (hj (by cases kv <;> rfl)) h0, ⟨⟨work, List.mem_append_left _ hm, ?_⟩, fun _ => rfl, fun _ _ => ?_,
    by simp, ?_⟩, rfl, ?_, ?_, ?_⟩
  · cases kv <;> simp_all
  · exact ⟨kv, List.mem_append_right _ (List.mem_singleton.mpr rfl)⟩
  · intro hcomp
    have hcomp' : w.isCompleted = false := by cases kv <;> simpa using hcomp
    rw [List.map_singleton, count_concat, h.notCompleted hcomp']
    rfl
  all_goals cases kv <;> rfl

/-- The completion at an entry that is copied and not completed. -/
theorem Entry.completeWork {item e now : Nat} {w w' : IoWork β} {effects : List (Effect β)}
    (hl : LogOk log nrItems) (hi : item < nrItems) (h : Entry log item e w)
    (hcop : w.isCopied = true) (hcomp : w.isCompleted = false)
    (hc : completeWork w now = (w', effects)) :
    LogOk (log ++ effects.map (eventOf item now)) nrItems ∧
      Entry (log ++ effects.map (eventOf item now)) item e w' ∧ w'.next = w.next ∧
      w'.prev = w.prev := by
  obtain ⟨work, hm, h1, h2, h3, h4, h5, h6, h7⟩ := h.enqueued
  have h0 := h.notCompleted hcomp
  unfold Nvmev.completeWork at hc
  split at hc
  · rename_i hle
    cases hc
    -- whichever event it is, it completes the item and leaves the rest of the entry alone
    have hentry (ev : Event β) :
        Entry (log ++ [ev]) item e { w with isCompleted := true } := by
      refine ⟨⟨work, List.mem_append_left _ hm, h1, h2, h3, h4, h5, h6, h7⟩, h.internal,
        fun hint hcp => ?_, by simp [hcop], by simp⟩
      obtain ⟨kv, hk⟩ := h.copied hint hcp
      exact ⟨kv, List.mem_append_left _ hk⟩
    by_cases hint : w.isInternal = true
    · rw [if_pos hint]
      refine ⟨hl.concat hi ?_ h0, hentry _, rfl, rfl⟩
      exact ⟨e, work, hm, by rw [h4, hint], by omega, h5.symm, h6.symm⟩
    · rw [Bool.not_eq_true] at hint
      obtain ⟨kv, hk⟩ := h.copied hint hcop
      rw [if_neg (by simp [hint])]
      refine ⟨hl.concat hi ?_ h0, hentry _, rfl, rfl⟩
      exact ⟨e, work, kv, hm, by rw [h4, hint], hk, by omega, h2.symm, h1.symm⟩
  · cases hc
    simpa using ⟨hl, h⟩

/-! ## The system -/

/-- The invariant: the free entries are first those that were never allocated, then the reclaimed
ones. -/
structure SysInv (s : Sys β) (virgin reclaimed io : List Nat) : Prop where
  lists : s.worker.Lists (virgin ++ reclaimed) io
  length : virgin.length + reclaimed.length + io.length = nrMaxParallelIo
  log : LogOk s.log s.nrItems
  owner : ∀ a ∈ reclaimed ++ io, ∀ b ∈ reclaimed ++ io, s.owner a = s.owner b → a = b
  entry : ∀ a ∈ reclaimed ++ io, Entry s.log (s.owner a) a (s.worker.workQueue a)
  completed : ∀ a ∈ reclaimed, (s.worker.workQueue a).isCompleted = true
  curr : s.curr = noEntry ∨ s.curr ∈ reclaimed ++ io

variable {s : Sys β} {virgin reclaimed io : List Nat}

theorem SysInv.init : SysInv (Sys.init : Sys β) (List.range nrMaxParallelIo) [] [] where
  lists := by rw [List.append_nil]; exact IoWorker.Lists.init
  length := by simp
  log := ⟨by simp [Sys.init], by simp [Sys.init, count], by simp [Sys.init]⟩
  owner := by simp
  entry := by simp
  completed := by simp
  curr := .inl rfl

theorem SysInv.owner_lt (h : SysInv s virgin reclaimed io) {a : Nat} (ha : a ∈ reclaimed ++ io) :
    s.owner a < s.nrItems := by
  obtain ⟨work, hm, -⟩ := (h.entry a ha).enqueued
  exact h.log.known _ hm

/-- A new request or internal operation: not completed, and copied only if internal. -/
structure NewWork (w : IoWork β) : Prop where
  isCompleted : w.isCompleted = false
  isCopied : w.isCopied = w.isInternal
  next : w.next = noEntry
  prev : w.prev = noEntry

theorem NewWork.entry {w : IoWork β} (hw : NewWork w) (hl : LogOk log nrItems) (e : Nat) :
    Entry (log ++ [.enqueued nrItems e w]) nrItems e w := by
  have h0 (kind : Kind) (hk : kind ≠ .enqueue) :
      count (log ++ [.enqueued nrItems e w]) kind nrItems = 0 := by
    rw [count_concat, count_eq_zero hl.known kind (Nat.le_refl _), if_neg fun hh => hk hh.1.symm]
  refine ⟨⟨w, by simp⟩, fun hi => hw.isCopied.trans hi, fun hi hc => ?_, fun _ => h0 _ (by simp),
    fun _ => h0 _ (by simp)⟩
  rw [hw.isCopied, hi] at hc
  cases hc

/-- The first free entry is one that was never allocated, or else the first reclaimed one. -/
theorem split_free {e : Nat} {free : List Nat} (h : virgin ++ reclaimed = e :: free) :
    ∃ virgin' reclaimed', free = virgin' ++ reclaimed' ∧
      (∀ a ∈ reclaimed', a ∈ reclaimed) ∧ (∀ a ∈ reclaimed, a = e ∨ a ∈ reclaimed') := by
  cases virgin with
  | nil =>
    rw [List.nil_append] at h
    subst h
    exact ⟨[], free, rfl, fun a ha => List.mem_cons_of_mem _ ha, fun a ha => List.mem_cons.mp ha⟩
  | cons b virgin =>
    obtain ⟨-, rfl⟩ := List.cons.inj h
    exact ⟨virgin, reclaimed, rfl, fun a ha => ha, fun a ha => .inr ha⟩

theorem SysInv.exists_free (h : SysInv s virgin reclaimed io) :
    ∃ e free, virgin ++ reclaimed = e :: free := by
  refine List.exists_cons_of_ne_nil fun hnil => ?_
  have := h.lists.freeLast
  rw [hnil] at this
  cases this

theorem SysInv.length_free (h : SysInv s virgin reclaimed io) {e : Nat} {free : List Nat}
    (hf : virgin ++ reclaimed = e :: free) : free.length + 1 + io.length = nrMaxParallelIo := by
  have hlen := congrArg List.length hf
  have := h.length
  simp only [List.length_append, List.length_cons] at hlen
  omega

/-- With one free entry left, an enqueue changes nothing. -/
theorem SysInv.enqueue_full (h : SysInv s virgin reclaimed io)
    (hfull : io.length = nrMaxParallelIo - 1) (work : IoWork β → IoWork β) : s.enqueue work = s := by
  obtain ⟨e, free, hfree⟩ := h.exists_free
  have hlen := h.length_free hfree
  have hl := h.lists
  rw [hfree] at hl
  obtain rfl : free = [] := List.eq_nil_of_length_eq_zero (by omega)
  rw [Sys.enqueue, hl.enqueueWork_none]

/-- With more, it makes a new item and puts it into an entry of its own. -/
theorem SysInv.enqueue_room (h : SysInv s virgin reclaimed io)
    (hroom : io.length < nrMaxParallelIo - 1) {work : IoWork β → IoWork β}
    (hw : ∀ w, NewWork (work w)) :
    ∃ v r l₁ e l₂, io = l₁ ++ l₂ ∧ e ∉ io ∧ SysInv (s.enqueue work) v r (l₁ ++ e :: l₂) ∧
      ((s.enqueue work).worker.workQueue e).payload = (work (s.worker.workQueue e)).payload ∧
      ∀ a ≠ e, ((s.enqueue work).worker.workQueue a).payload = (s.worker.workQueue a).payload := by
  obtain ⟨e, free, hfree⟩ := h.exists_free
  have hlenf := h.length_free hfree
  have hl := h.lists
  rw [hfree] at hl
  have hne : free ≠ [] := List.ne_nil_of_length_pos (by omega)
  obtain ⟨wk', l₁, l₂, he, rfl, hl', hpe, hp, -⟩ := hl.enqueueWork_some hne (fun w => (hw w).next)
    (fun w => (hw w).prev)
  obtain ⟨v, r, rfl, hsub, hsup⟩ := split_free hfree
  have hlen := congrArg List.length hfree
  have hlen' := h.length
  simp only [List.length_append, List.length_cons] at hlen hlen'
  have hnd := (List.nodup_cons.mp hl.nodup).1
  have hout (a : Nat) (ha : a ∈ r ++ (l₁ ++ e :: l₂)) : a = e ∨ (a ≠ e ∧ a ∈ reclaimed ++ (l₁ ++ l₂)) := by
    by_cases hae : a = e
    · exact .inl hae
    · refine .inr ⟨hae, ?_⟩
      simp only [List.mem_append, List.mem_cons] at ha ⊢
      rcases ha with ha | ha | ha | ha
      · exact .inl (hsub a ha)
      · exact .inr (.inl ha)
      · exact absurd ha hae
      · exact .inr (.inr ha)
  have hs : s.enqueue work = { s with
      worker := wk'
      owner := update s.owner e s.nrItems
      nrItems := s.nrItems + 1
      log := s.log ++ [.enqueued s.nrItems e (work (s.worker.workQueue e))] } := by
    rw [Sys.enqueue, he]
  rw [hs]
  refine ⟨v, r, l₁, e, l₂, rfl, fun hm => hnd (List.mem_append_right _ hm), ?_, hpe, hp⟩
  refine ⟨hl', by simp only [List.length_append, List.length_cons]; omega, ?_, ?_, ?_, ?_, ?_⟩
  · exact (h.log.mono (Nat.le_succ _)).concat (Nat.lt_succ_self _) trivial
      (count_eq_zero h.log.known _ (Nat.le_refl _))
  · intro a ha b hb hab
    simp only [] at hab
    rcases hout a ha with rfl | ⟨hae, ha'⟩ <;> rcases hout b hb with rfl | ⟨hbe, hb'⟩
    · rfl
    · rw [update_self, update_of_ne hbe] at hab
      exact absurd hab (Nat.ne_of_gt (h.owner_lt hb'))
    · rw [update_self, update_of_ne hae] at hab
      exact absurd hab (Nat.ne_of_lt (h.owner_lt ha'))
    · rw [update_of_ne hae, update_of_ne hbe] at hab
      exact h.owner a ha' b hb' hab
  · intro a ha
    simp only []
    rcases hout a ha with rfl | ⟨ha', ha⟩
    · rw [update_self]
      exact ((hw _).entry h.log a).payload hpe
    · rw [update_of_ne ha']
      refine ((h.entry a ha).append_of_ne fun ev hev => ?_).payload (hp a ha')
      rw [List.mem_singleton.mp hev]
      exact Nat.ne_of_gt (h.owner_lt ha)
  · intro a ha
    have hae : a ≠ e := by
      rintro rfl
      exact hnd (by simp [ha])
    have := congrArg IoWork.isCompleted (hp a hae)
    exact this.trans (h.completed a (hsub a ha))
  · rcases h.curr with hc | hc
    · exact .inl hc
    · right
      simp only [List.mem_append, List.mem_cons] at hc ⊢
      rcases hc with hc | hc | hc
      · rcases hsup _ hc with hc | hc
        · exact .inr (.inr (.inl hc))
        · exact .inl hc
      · exact .inr (.inl hc)
      · exact .inr (.inr (.inr hc))

theorem SysInv.enqueue (h : SysInv s virgin reclaimed io) {work : IoWork β → IoWork β}
    (hw : ∀ w, NewWork (work w)) : ∃ v r l, SysInv (s.enqueue work) v r l := by
  by_cases hroom : io.length < nrMaxParallelIo - 1
  · obtain ⟨v, r, l₁, e, l₂, -, -, h', -⟩ := h.enqueue_room hroom hw
    exact ⟨v, r, _, h'⟩
  · obtain ⟨e, free, hfree⟩ := h.exists_free
    have hlen := h.length_free hfree
    rw [h.enqueue_full (by omega)]
    exact ⟨virgin, reclaimed, io, h⟩

theorem SysInv.reclaim (h : SysInv s virgin reclaimed io) :
    SysInv { s with worker := reclaimCompletedReqs s.worker } virgin
      (reclaimed ++ io.takeWhile s.worker.finished) (io.dropWhile s.worker.finished) := by
  have hl := h.lists.reclaimCompletedReqs
  have hp := IoWorker.Lists.reclaimCompletedReqs_payload s.worker
  have hio := List.takeWhile_append_dropWhile (p := s.worker.finished) (l := io)
  have hlen := congrArg List.length hio
  have hlen' := h.length
  simp only [List.length_append] at hlen
  refine ⟨by rwa [← List.append_assoc], by simp only [List.length_append]; omega, h.log, ?_, ?_, ?_, ?_⟩
  · rw [List.append_assoc, hio]; exact h.owner
  · rw [List.append_assoc, hio]
    exact fun a ha => (h.entry a ha).payload (hp a)
  · intro a ha
    refine (congrArg IoWork.isCompleted (hp a)).trans ?_
    rcases List.mem_append.mp ha with ha | ha
    · exact h.completed a ha
    · have hfin := List.all_eq_true.mp List.all_takeWhile a ha
      simp only [IoWorker.finished, Bool.and_eq_true] at hfin
      exact hfin.1.1
  · rw [List.append_assoc, hio]; exact h.curr

/-- The link of an allocated entry leads to an allocated entry, or nowhere. -/
theorem SysInv.next (h : SysInv s virgin reclaimed io) {a : Nat} (ha : a ∈ reclaimed ++ io) :
    s.worker.nx a = noEntry ∨ s.worker.nx a ∈ reclaimed ++ io := by
  rcases List.mem_append.mp ha with ha | ha
  · exact ((next_append.mp h.lists.freeNext).2.mem ha).imp_right fun hm => List.mem_append_left _ hm
  · exact (h.lists.ioNext.mem ha).imp_right fun hm => List.mem_append_right _ hm

theorem SysInv.visit (h : SysInv s virgin reclaimed io) (now : Nat) (kv : Option (Nat × Nat)) :
    SysInv (step s (.visit now kv)) virgin reclaimed io := by
  unfold step
  simp only []
  split
  · exact h
  rename_i hne
  have hc := h.curr.resolve_left hne
  have hnext := h.next hc
  unfold visitEntry
  simp only []
  by_cases hcomp : (s.worker.workQueue s.curr).isCompleted = true
  · rw [if_pos hcomp, List.map_nil, List.append_nil]
    exact ⟨h.lists.setLatest now, h.length, h.log, h.owner, h.entry, h.completed, hnext⟩
  rw [if_neg hcomp]
  rw [Bool.not_eq_true] at hcomp
  have hi := h.owner_lt hc
  rcases hcw : copyWork (s.worker.workQueue s.curr) kv with ⟨w₁, copied⟩
  obtain ⟨hl₁, he₁, hcop₁, hcomp₁, hn₁, hp₁⟩ := (h.entry _ hc).copyWork h.log hi hcw now
  rcases hcp : completeWork w₁ now with ⟨w₂, completed⟩
  obtain ⟨hl₂, he₂, hn₂, hp₂⟩ := he₁.completeWork hl₁ hi hcop₁ (hcomp₁.trans hcomp) hcp
  simp only []
  rw [List.append_assoc, ← List.map_append] at hl₂ he₂
  refine ⟨?_, h.length, hl₂, h.owner, ?_, ?_, ?_⟩
  · exact (h.lists.setLatest now).setWork (hn₂.trans hn₁) (hp₂.trans hp₁)
  · intro a ha
    by_cases hac : a = s.curr
    · subst hac
      simpa using he₂
    · have hown : s.owner s.curr ≠ s.owner a := fun ho => hac (h.owner _ hc a ha ho).symm
      simp only [IoWorker.setWork_workQueue, update_of_ne hac]
      refine (h.entry a ha).append_of_ne fun ev hev => ?_
      obtain ⟨eff, -, rfl⟩ := List.mem_map.mp hev
      cases eff <;> exact hown
  · intro a ha
    have hac : a ≠ s.curr := by
      rintro rfl
      rw [h.completed _ ha] at hcomp
      cases hcomp
    simpa [hac] using h.completed a ha
  · simp only [hn₂, hn₁]
    exact hnext

/-- One step keeps the invariant. -/
theorem SysInv.step (h : SysInv s virgin reclaimed io) (a : Action β) :
    ∃ v r l, SysInv (step s a) v r l := by
  cases a with
  | enqueue => exact h.enqueue fun w => ⟨rfl, rfl, rfl, rfl⟩
  | internal => exact h.enqueue fun w => ⟨rfl, rfl, rfl, rfl⟩
  | reclaim => exact ⟨_, _, _, h.reclaim⟩
  | scan =>
    unfold Io.step
    simp only []
    split
    · refine ⟨virgin, reclaimed, io, ⟨h.lists, h.length, h.log, h.owner, h.entry, h.completed, ?_⟩⟩
      simp only [h.lists.ioHead]
      cases io with
      | nil => exact .inl rfl
      | cons a l => exact .inr (by simp)
    · exact ⟨virgin, reclaimed, io, h⟩
  | visit now kv => exact ⟨_, _, _, h.visit now kv⟩

/-- Every state of every interleaving satisfies the invariant. -/
theorem SysInv.run (h : SysInv s virgin reclaimed io) (acts : List (Action β)) :
    ∃ v r l, SysInv (acts.foldl Io.step s) v r l := by
  induction acts generalizing s virgin reclaimed io with
  | nil => exact ⟨_, _, _, h⟩
  | cons a acts ih =>
    obtain ⟨v, r, l, h'⟩ := h.step a
    exact ih h'

end Io

/-- In every interleaving of the dispatcher with a worker: an item is enqueued, copied and completed
at most once each; every event is justified by the events before it; and the worker's cursor is on
an entry that was allocated. -/
theorem work_items_at_most_once {β : Type} (acts : List (Io.Action β)) :
    let s := acts.foldl Io.step Io.Sys.init
    (∀ kind item, Io.count s.log kind item ≤ 1) ∧
    (∀ before ev after, s.log = before ++ ev :: after → Io.Justified before ev) ∧
    (s.curr = noEntry ∨ ∃ item work, .enqueued item s.curr work ∈ s.log) := by
  obtain ⟨v, r, l, h⟩ := Io.SysInv.init.run acts
  refine ⟨h.log.once, h.log.justified, h.curr.imp_right fun hc => ?_⟩
  obtain ⟨work, hm, -⟩ := (h.entry _ hc).enqueued
  exact ⟨_, work, hm⟩

end Nvmev
