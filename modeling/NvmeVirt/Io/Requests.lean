import NvmeVirt.Io.SubmissionSlots

/-!
# The requests that a worker has to complete

`live s e` is the request in entry `e` of a worker that is not completed. No step of the dispatcher changes
it: an enqueue takes an entry with none (`WorkerOk.live_enqueue`), and the other steps leave the requests
alone (`WorkerOk.live_quiet`). The worker at an entry copies its request or completes it (`live_visit`), and
posts a completion exactly when it completes one (`WorkerOk.posts_iff`).
-/

namespace Nvmev

open Function

namespace DataPath

variable {β : Type}

/-- A request: its item, the submission queue and the slot of its command, and whether it is copied. -/
structure Live where
  item : Nat
  slot : Nat × Nat
  copied : Bool
  deriving DecidableEq, Repr

/-- The request in entry `e` that is not completed. The queues for I/O are numbered from 1. -/
def live (s : Io.Sys β) (e : Nat) : Option Live :=
  let w := s.worker.workQueue e
  if w.sqid ≠ 0 ∧ w.isInternal = false ∧ w.isCompleted = false then
    some ⟨s.owner e, (w.sqid, w.sqEntry), w.isCopied⟩
  else none

/-- Whether an effect posts a completion. -/
def isPost : Effect β → Bool
  | .post _ => true
  | .copy _ _ | .release _ _ => false

/-- The dispatcher's enqueue of a request of an I/O queue, or another step of the dispatcher or a new
walk. -/
def Dispatched : Io.Action β → Prop
  | .enqueue sqid _ _ _ _ _ _ => sqid ≠ 0
  | .internal _ _ _ _ _ | .reclaim | .scan | .visit _ _ => True

/-- A worker whose lists are in order, and that has requests of I/O queues only. -/
structure WorkerOk (s : Io.Sys β) : Prop where
  lists : ∃ virgin reclaimed io, Io.SysInv s virgin reclaimed io ∧
    ∀ e, (s.worker.workQueue e).sqid ≠ 0 → (s.worker.workQueue e).isCompleted = false → e ∈ io
  queue : ∀ item e work, .enqueued item e work ∈ s.log → work.isInternal = false → work.sqid ≠ 0

section Workers

variable {s s' : Io.Sys β} {e : Nat}

theorem payload_completed {w w' : IoWork β} (hp : w'.payload = w.payload) :
    w'.isCompleted = w.isCompleted := (congrArg IoWork.isCompleted hp :)

theorem live_congr (hp : (s'.worker.workQueue e).payload = (s.worker.workQueue e).payload)
    (ho : s'.owner e = s.owner e) : live s' e = live s e := by
  obtain ⟨h1, h2, h3, h4⟩ := Sq.payload_fields hp
  unfold live
  simp only [h1, h2, h3, h4, payload_completed hp, ho]

theorem live_some {r : Live} (h : live s e = some r) :
    (s.worker.workQueue e).sqid ≠ 0 ∧ (s.worker.workQueue e).isInternal = false ∧
      (s.worker.workQueue e).isCompleted = false ∧ r.item = s.owner e ∧
      r.slot = ((s.worker.workQueue e).sqid, (s.worker.workQueue e).sqEntry) ∧
      r.copied = (s.worker.workQueue e).isCopied := by
  unfold live at h
  dsimp only at h
  split at h
  · rename_i hc
    cases h
    exact ⟨hc.1, hc.2.1, hc.2.2, rfl, rfl, rfl⟩
  · cases h

/-! ## The lists -/

theorem WorkerOk.init : WorkerOk (Io.Sys.init : Io.Sys β) where
  lists := ⟨_, _, _, Io.SysInv.init, fun _ he => absurd rfl he⟩
  queue := nofun

theorem WorkerOk.enqueue (h : WorkerOk s) {work : IoWork β → IoWork β} (hw : ∀ w, Io.NewWork (work w))
    (hq : ∀ w, (work w).isInternal = false → (work w).sqid ≠ 0) : WorkerOk (s.enqueue work) := by
  obtain ⟨virgin, reclaimed, io, hs, hio⟩ := h.lists
  refine ⟨?_, ?_⟩
  · by_cases hroom : io.length < nrMaxParallelIo - 1
    · obtain ⟨v, r, l₁, e₀, l₂, rfl, -, hs', hpe, hp⟩ := hs.enqueue_room hroom hw
      refine ⟨v, r, _, hs', fun e hsq hcomp => ?_⟩
      by_cases hee : e = e₀
      · simp [hee]
      · rw [(Sq.payload_fields (hp e hee)).1] at hsq
        rw [payload_completed (hp e hee)] at hcomp
        have := hio e hsq hcomp
        simp only [List.mem_append, List.mem_cons] at this ⊢
        exact this.imp_right .inr
    · obtain ⟨e₀, free, hfree⟩ := hs.exists_free
      have hlen := hs.length_free hfree
      rw [hs.enqueue_full (by omega)]
      exact ⟨virgin, reclaimed, io, hs, hio⟩
  · intro item e work' hmem
    unfold Io.Sys.enqueue at hmem
    split at hmem
    · exact h.queue item e work' hmem
    · rw [List.mem_append, List.mem_singleton] at hmem
      obtain hmem | heq := hmem
      · exact h.queue item e work' hmem
      · cases heq
        exact hq _

theorem WorkerOk.visit (h : WorkerOk s) (now : Nat) (kv : Option (Nat × Nat)) :
    WorkerOk (Io.step s (.visit now kv)) := by
  obtain ⟨virgin, reclaimed, io, hs, hio⟩ := h.lists
  refine ⟨⟨virgin, reclaimed, io, hs.visit now kv, fun e => ?_⟩, fun item e work => ?_⟩
  · unfold Io.step visitEntry
    dsimp only
    split
    · exact hio e
    split
    · exact hio e
    · rename_i hcomp
      intro hsq hcomp'
      rw [IoWorker.setWork_workQueue] at hsq hcomp'
      by_cases hec : e = s.curr
      · subst hec
        rw [update_self, (Sq.visitWork_fields _ _ _).1] at hsq
        exact hio _ hsq (by simpa using hcomp)
      · rw [update_of_ne hec] at hsq hcomp'
        exact hio e hsq hcomp'
  · unfold Io.step visitEntry
    dsimp only
    split
    · exact h.queue item e work
    · intro hmem
      rw [List.mem_append, List.mem_map] at hmem
      obtain hmem | ⟨effect, -, heq⟩ := hmem
      · exact h.queue item e work hmem
      · cases effect <;> cases heq

/-- Every step keeps the lists in order. -/
theorem WorkerOk.step (h : WorkerOk s) {action : Io.Action β} (hd : Dispatched action) :
    WorkerOk (Io.step s action) := by
  cases action with
  | enqueue sqid cqid sqEntry commandId nsecsStart nsecsEnqueue ret =>
    exact h.enqueue (fun w => ⟨rfl, rfl, rfl, rfl⟩) fun w _ => hd
  | internal sqid nsecsTarget now writeBuffer buffsToRelease =>
    exact h.enqueue (fun w => ⟨rfl, rfl, rfl, rfl⟩) fun w hi => by cases hi
  | reclaim =>
    obtain ⟨virgin, reclaimed, io, hs, hio⟩ := h.lists
    refine ⟨⟨_, _, _, hs.reclaim, fun e hsq hcomp => ?_⟩, h.queue⟩
    have hp := IoWorker.Lists.reclaimCompletedReqs_payload s.worker e
    have hmem := hio e (by rwa [← (Sq.payload_fields hp).1]) (by rwa [← payload_completed hp])
    rw [← List.takeWhile_append_dropWhile (p := s.worker.finished) (l := io), List.mem_append] at hmem
    refine hmem.resolve_left fun hfin => ?_
    -- a finished request is completed
    have := List.all_eq_true.mp List.all_takeWhile e hfin
    simp only [IoWorker.finished, Bool.and_eq_true] at this
    have hcomp' := (payload_completed hp).symm.trans hcomp
    rw [this.1.1] at hcomp'
    cases hcomp'
  | scan =>
    obtain ⟨virgin, reclaimed, io, hs, hio⟩ := h.lists
    unfold Io.step
    dsimp only
    split
    · rename_i hc
      have hscan : Io.step s .scan = { s with curr := s.worker.ioSeq } := if_pos hc
      refine ⟨⟨virgin, reclaimed, io, ?_, hio⟩, h.queue⟩
      refine ⟨hs.lists, hs.length, hs.log, hs.owner, hs.entry, hs.completed, ?_⟩
      simp only [hs.lists.ioHead]
      cases io with
      | nil => exact .inl rfl
      | cons a l => exact .inr (by simp)
    · exact h
  | visit now kv => exact h.visit now kv

/-- The time of the walk. -/
theorem WorkerOk.setLatest (h : WorkerOk s) (now : Nat) :
    WorkerOk { s with worker := { s.worker with latestNsecs := now } } := by
  obtain ⟨virgin, reclaimed, io, hs, hio⟩ := h.lists
  exact ⟨⟨virgin, reclaimed, io, ⟨hs.lists.setLatest now, hs.length, hs.log, hs.owner, hs.entry,
    hs.completed, hs.curr⟩, hio⟩, h.queue⟩

/-- Two entries do not hold the same item. -/
theorem WorkerOk.item_inj (h : WorkerOk s) {e e' : Nat} {r r' : Live} (hr : live s e = some r)
    (hr' : live s e' = some r') (hitem : r.item = r'.item) : e = e' := by
  obtain ⟨virgin, reclaimed, io, hs, hio⟩ := h.lists
  obtain ⟨hsq, -, hcomp, hi, -⟩ := live_some hr
  obtain ⟨hsq', -, hcomp', hi', -⟩ := live_some hr'
  exact hs.owner e (List.mem_append_right _ (hio e hsq hcomp)) e'
    (List.mem_append_right _ (hio e' hsq' hcomp')) (by rw [← hi, ← hi', hitem])

theorem WorkerOk.item_lt (h : WorkerOk s) {r : Live} (hr : live s e = some r) : r.item < s.nrItems := by
  obtain ⟨virgin, reclaimed, io, hs, hio⟩ := h.lists
  obtain ⟨hsq, -, hcomp, hi, -⟩ := live_some hr
  rw [hi]
  exact hs.owner_lt (List.mem_append_right _ (hio e hsq hcomp))

/-! ## The steps of the dispatcher -/

/-- An enqueue does nothing, or it puts a new item into an entry without a request. -/
theorem WorkerOk.enqueue_cases (h : WorkerOk s) (work : IoWork β → IoWork β) : s.enqueue work = s ∨
    ∃ e, live s e = none ∧ (s.enqueue work).nrItems = s.nrItems + 1 ∧
      (s.enqueue work).owner = update s.owner e s.nrItems ∧
      ((s.enqueue work).worker.workQueue e).payload = (work (s.worker.workQueue e)).payload ∧
      ∀ a ≠ e, ((s.enqueue work).worker.workQueue a).payload = (s.worker.workQueue a).payload := by
  obtain ⟨virgin, reclaimed, io, hs, hio⟩ := h.lists
  obtain ⟨e, free, hfree⟩ := hs.exists_free
  have hhead := hs.lists.freeHead
  rw [hfree] at hhead
  have hout : e ∉ io := by
    have hnd := hs.lists.nodup
    rw [hfree] at hnd
    exact fun hmem => (List.nodup_cons.mp hnd).1 (List.mem_append_right _ hmem)
  unfold Io.Sys.enqueue enqueueWork allocateWorkQueueEntry
  dsimp only
  by_cases hfull : nrMaxParallelIo ≤ (s.worker.workQueue s.worker.freeSeq).next
  · left
    rw [if_pos hfull]
  · right
    rw [if_neg hfull, hhead]
    refine ⟨e, ?_, rfl, rfl, ?_, fun a ha => ?_⟩
    · unfold live
      exact if_neg fun hc => hout (hio e hc.1 hc.2.2)
    · simp [IoWorker.insertReqSorted_payload]
    · simp [IoWorker.insertReqSorted_payload, show a ≠ e from ha]

theorem enqueue_curr (s : Io.Sys β) (work : IoWork β → IoWork β) : (s.enqueue work).curr = s.curr := by
  unfold Io.Sys.enqueue
  split <;> rfl

/-- The enqueue of a request. -/
theorem WorkerOk.live_enqueue (h : WorkerOk s) {sqid : Nat} (hsq : sqid ≠ 0)
    (cqid sqEntry commandId nsecsStart nsecsEnqueue : Nat) (ret : Result) :
    Io.step s (.enqueue sqid cqid sqEntry commandId nsecsStart nsecsEnqueue ret) = s ∨
      ∃ e, live s e = none ∧
        (Io.step s (.enqueue sqid cqid sqEntry commandId nsecsStart nsecsEnqueue ret)).nrItems =
          s.nrItems + 1 ∧
        live (Io.step s (.enqueue sqid cqid sqEntry commandId nsecsStart nsecsEnqueue ret)) e =
          some ⟨s.nrItems, (sqid, sqEntry), false⟩ ∧
        ∀ a ≠ e, live (Io.step s (.enqueue sqid cqid sqEntry commandId nsecsStart nsecsEnqueue ret)) a =
          live s a := by
  unfold Io.step
  dsimp only
  obtain he | ⟨e, hnone, hn, ho, hpe, hp⟩ := h.enqueue_cases fun old =>
    requestWork old sqid cqid sqEntry commandId nsecsStart nsecsEnqueue ret
  · exact .inl he
  · refine .inr ⟨e, hnone, hn, ?_, fun a ha => live_congr (hp a ha) (by rw [ho, update_of_ne ha])⟩
    obtain ⟨h1, h2, h3, h4⟩ := Sq.payload_fields hpe
    unfold live
    simp only [h1, h2, h3, h4, payload_completed hpe, ho, update_self]
    exact if_pos ⟨hsq, rfl, rfl⟩

/-- The other steps of the dispatcher, and a new walk. -/
def Quiet : Io.Action β → Prop
  | .internal _ _ _ _ _ | .reclaim | .scan => True
  | .enqueue _ _ _ _ _ _ _ | .visit _ _ => False

instance : DecidablePred (Quiet (β := β))
  | .internal _ _ _ _ _ | .reclaim | .scan => .isTrue trivial
  | .enqueue _ _ _ _ _ _ _ | .visit _ _ => .isFalse id

theorem Quiet.dispatched {action : Io.Action β} (hq : Quiet action) : Dispatched action := by
  cases action with
  | enqueue => cases hq
  | _ => trivial

theorem WorkerOk.live_quiet (h : WorkerOk s) {action : Io.Action β} (hq : Quiet action) :
    s.nrItems ≤ (Io.step s action).nrItems ∧ ∀ e, live (Io.step s action) e = live s e := by
  cases action with
  | enqueue => cases hq
  | visit => cases hq
  | reclaim =>
    exact ⟨Nat.le_refl _, fun e => live_congr (IoWorker.Lists.reclaimCompletedReqs_payload _ e) rfl⟩
  | scan =>
    unfold Io.step
    dsimp only
    split
    · exact ⟨Nat.le_refl _, fun e => rfl⟩
    · exact ⟨Nat.le_refl _, fun e => rfl⟩
  | internal sqid nsecsTarget now writeBuffer buffsToRelease =>
    unfold Io.step
    dsimp only
    obtain he | ⟨e₀, hnone, hn, ho, hpe, hp⟩ := h.enqueue_cases fun old =>
      internalWork old sqid nsecsTarget now writeBuffer buffsToRelease
    · rw [he]
      exact ⟨Nat.le_refl _, fun e => rfl⟩
    · refine ⟨by omega, fun e => ?_⟩
      by_cases hee : e = e₀
      · subst hee
        rw [hnone]
        unfold live
        dsimp only
        rw [(Sq.payload_fields hpe).2.1]
        exact if_neg fun hc => by cases hc.2.1
      · exact live_congr (hp e hee) (by rw [ho, update_of_ne hee])

/-- A worker stays at its entry while the dispatcher works. -/
theorem quiet_curr {action : Io.Action β} (hq : Quiet action) (hne : s.curr ≠ noEntry) :
    (Io.step s action).curr = s.curr := by
  cases action with
  | enqueue => cases hq
  | visit => cases hq
  | internal => exact enqueue_curr _ _
  | reclaim => rfl
  | scan =>
    unfold Io.step
    dsimp only
    rw [if_neg hne]

/-! ## The worker at an entry -/

/-- The worker at the entry of its cursor: it copies the request there, and completes it if the target
time has come. -/
theorem live_visit (hne : s.curr ≠ noEntry) (now : Nat) :
    (Io.step s (.visit now none)).nrItems = s.nrItems ∧
      (∀ a ≠ s.curr, live (Io.step s (.visit now none)) a = live s a) ∧
      live (Io.step s (.visit now none)) s.curr = (live s s.curr).bind fun r =>
        if (s.worker.workQueue s.curr).nsecsTarget ≤ now then none else some { r with copied := true } := by
  unfold Io.step visitEntry
  dsimp only
  rw [if_neg hne]
  by_cases hcomp : (s.worker.workQueue s.curr).isCompleted = true
  · rw [if_pos hcomp]
    refine ⟨rfl, fun a _ => rfl, ?_⟩
    have hnone : live s s.curr = none := if_neg fun hc => by rw [hcomp] at hc; cases hc.2.2
    rw [hnone]
    exact hnone
  rw [if_neg hcomp]
  rw [Bool.not_eq_true] at hcomp
  refine ⟨rfl, fun a ha => ?_, ?_⟩
  · unfold live
    simp [ha]
  obtain ⟨h1, h2, h3, h4⟩ := Sq.visitWork_fields (s.worker.workQueue s.curr) now none
  have h5 : (completeWork (copyWork (s.worker.workQueue s.curr) none).1 now).1.isCompleted =
      decide ((s.worker.workQueue s.curr).nsecsTarget ≤ now) := by
    obtain ⟨-, -, -, -, htarget⟩ := Sq.visitWork_copy (s.worker.workQueue s.curr) none
    have hc : (copyWork (s.worker.workQueue s.curr) none).1.isCompleted = false := by
      unfold copyWork
      split
      · exact hcomp
      split
      · exact hcomp
      · exact hcomp
    unfold completeWork
    rw [htarget]
    by_cases hle : (s.worker.workQueue s.curr).nsecsTarget ≤ now
    · simp [hle]
    · rw [if_neg hle, hc, decide_eq_false hle]
  unfold live
  simp only [IoWorker.setWork_workQueue, update_self, h1, h2, h3, h4, h5, hcomp]
  by_cases hreq : (s.worker.workQueue s.curr).sqid ≠ 0 ∧ (s.worker.workQueue s.curr).isInternal = false
  · by_cases hle : (s.worker.workQueue s.curr).nsecsTarget ≤ now
    · simp [hle, hreq]
    · simp [hle, hreq]
  · rw [if_neg fun hc => hreq ⟨hc.1, hc.2.1⟩, if_neg fun hc => hreq ⟨hc.1, hc.2.1⟩]
    rfl

/-- What a worker is at is of an I/O queue, or internal. -/
theorem WorkerOk.sqid_ne_zero (h : WorkerOk s) (hne : s.curr ≠ noEntry)
    (hint : (s.worker.workQueue s.curr).isInternal = false) : (s.worker.workQueue s.curr).sqid ≠ 0 := by
  obtain ⟨virgin, reclaimed, io, hs, -⟩ := h.lists
  obtain ⟨work, hmem, hsq, -, -, hint', -⟩ := (hs.entry _ (hs.curr.resolve_left hne)).enqueued
  rw [← hsq]
  exact h.queue _ _ _ hmem (hint'.trans hint)

/-- It posts a completion when it completes a request. -/
theorem WorkerOk.posts_iff (h : WorkerOk s) (hne : s.curr ≠ noEntry) (now : Nat) :
    (visitEntry s.worker s.curr now none).2.2.any isPost = true ↔
      (∃ r, live s s.curr = some r) ∧ (s.worker.workQueue s.curr).nsecsTarget ≤ now := by
  by_cases hint : (s.worker.workQueue s.curr).isInternal = true
  · have hnone : live s s.curr = none := if_neg fun hc => by rw [hint] at hc; cases hc.2.1
    rw [hnone]
    have hany : (visitEntry s.worker s.curr now none).2.2.any isPost = false := by
      rw [List.any_eq_false]
      intro effect hmem
      obtain ⟨writeBuffer, bytes, rfl⟩ := Sq.visit_internal _ _ _ _ hint effect hmem
      exact Bool.false_ne_true
    simp [hany]
  have hint : (s.worker.workQueue s.curr).isInternal = false := by simpa using hint
  obtain ⟨status, cqe, -, heff⟩ := Sq.visit_effects s.worker s.curr now none hint
  rw [heff]
  unfold live
  dsimp only
  by_cases hcomp : (s.worker.workQueue s.curr).isCompleted = true
  · simp [hcomp]
  · by_cases hle : (s.worker.workQueue s.curr).nsecsTarget ≤ now
    · simp [hcomp, hint, h.sqid_ne_zero hne hint, hle, isPost]
    · by_cases hcop : (s.worker.workQueue s.curr).isCopied = true
      · simp [hcomp, hle, hcop]
      · simp [hcomp, hle, hcop, isPost]

end Workers

end DataPath

end Nvmev
