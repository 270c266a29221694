import Mathlib.Data.List.Induction
import NvmeVirt.Io.Dispatch

/-!
# The lists stay intact

`Intact` is the integrity of the two lists of a work queue in terms of the array alone: what one finds by
following the links from `free_seq` and from `io_seq`. `work_queue_intact`: it holds after any sequence of
enqueues, of visits of the worker to any entries and of reclaims.
-/

namespace Nvmev

open Linked

variable {β : Type}

/-- An operation on a work queue. -/
inductive WorkQueueOp (β : Type) where
  /-- `__enqueue_io_req` or `schedule_internal_operation`. -/
  | enqueue (call : Io.Call β)
  /-- The worker at an entry. -/
  | visit (entry currNsecs : Nat) (kv : Option (Nat × Nat))
  /-- `__reclaim_completed_reqs`. -/
  | reclaim

/-- One operation. -/
def IoWorker.apply (wk : IoWorker β) : WorkQueueOp β → IoWorker β
  | .enqueue call =>
    match enqueueWork wk call.work with
    | none => wk
    | some (_, wk) => wk
  | .visit entry currNsecs kv => (visitEntry wk entry currNsecs kv).1
  | .reclaim => reclaimCompletedReqs wk

namespace IoWorker

/-- The entries from `free_seq` on. -/
def freeChain (wk : IoWorker β) : List Nat := Io.walk wk.nx nrMaxParallelIo wk.freeSeq

/-- The entries from `io_seq` on. -/
def ioChain (wk : IoWorker β) : List Nat := Io.walk wk.nx nrMaxParallelIo wk.ioSeq

/-- The two chains end at the entries that `free_seq_end` and `io_seq_end` name, and share out the
entries of the array. -/
structure Intact (wk : IoWorker β) : Prop where
  freeSeq : wk.freeSeq < nrMaxParallelIo
  freeEnd : wk.freeChain.getLast? = some wk.freeSeqEnd ∧ wk.nx wk.freeSeqEnd = noEntry
  ioEnd : wk.ioSeq ≠ noEntry → wk.ioChain.getLast? = some wk.ioSeqEnd ∧ wk.nx wk.ioSeqEnd = noEntry
  entries : (wk.freeChain ++ wk.ioChain).Perm (List.range nrMaxParallelIo)
  prevHead : wk.ioSeq ≠ noEntry → wk.pv wk.ioSeq = noEntry
  prevNext : ∀ e ∈ wk.ioChain, wk.nx e ≠ noEntry → wk.pv (wk.nx e) = e
  nextPrev : ∀ e ∈ wk.ioChain, wk.pv e ≠ noEntry → wk.nx (wk.pv e) = e

namespace Lists

variable {wk : IoWorker β} {free io : List Nat}

/-- The last member leads nowhere. -/
theorem end_of_last {l : List Nat} {last : Nat} (hn : Next wk.nx l noEntry) (hl : l.getLast? = some last) :
    wk.nx last = noEntry := by
  obtain ⟨l', rfl⟩ := List.getLast?_eq_some_iff.mp hl
  exact (next_append.mp hn).2.1

theorem intact (h : Lists wk free io) (hlen : free.length + io.length = nrMaxParallelIo) : wk.Intact := by
  have hfree : wk.freeChain = free := by
    unfold freeChain
    rw [h.freeHead]
    exact Io.walk_eq h.freeNext (fun a ha => h.ne_noEntry (by simp [ha])) (by omega)
  have hio : wk.ioChain = io := Io.requests_eq h
  have hne : wk.ioSeq ≠ noEntry → io ≠ [] := by
    rintro hseq rfl
    exact hseq h.ioHead
  refine ⟨?_, ?_, fun hseq => ?_, ?_, fun hseq => ?_, fun e he => ?_, fun e he => ?_⟩
  · rw [h.freeHead]
    cases free with
    | nil => cases h.freeLast
    | cons e free => exact h.lt e (by simp)
  · rw [hfree]
    exact ⟨h.freeLast, end_of_last h.freeNext h.freeLast⟩
  · rw [hio]
    have hlast := h.ioLast (hne hseq)
    exact ⟨hlast, end_of_last h.ioNext hlast⟩
  · rw [hfree, hio]
    have hsub : free ++ io ⊆ List.range nrMaxParallelIo := fun a ha => List.mem_range.mpr (h.lt a ha)
    refine (h.nodup.subperm hsub).perm_of_length_le ?_
    rw [List.length_range, List.length_append, hlen]
  · rw [h.ioHead]
    cases io with
    | nil => exact absurd rfl (hne hseq)
    | cons e io => exact h.ioPrev.1
  · rw [hio] at he
    exact prev_next h.ioNext h.ioPrev he
  · rw [hio] at he
    exact next_prev h.ioNext h.ioPrev he

/-- The worker changes no link. -/
theorem visit (h : Lists wk free io) (entry currNsecs : Nat) (kv : Option (Nat × Nat)) :
    Lists (visitEntry wk entry currNsecs kv).1 free io := by
  have hcopy (w : IoWork β) : (copyWork w kv).1.next = w.next ∧ (copyWork w kv).1.prev = w.prev := by
    unfold copyWork
    split
    · exact ⟨rfl, rfl⟩
    split
    · exact ⟨rfl, rfl⟩
    · cases kv <;> exact ⟨rfl, rfl⟩
  have hcomplete (w : IoWork β) : (completeWork w currNsecs).1.next = w.next ∧
      (completeWork w currNsecs).1.prev = w.prev := by
    unfold completeWork
    split <;> exact ⟨rfl, rfl⟩
  unfold visitEntry
  dsimp only
  split
  · exact h.setLatest currNsecs
  · exact (h.setLatest currNsecs).setWork ((hcomplete _).1.trans (hcopy _).1)
      ((hcomplete _).2.trans (hcopy _).2)

/-- An operation keeps two lists that share out the entries. -/
theorem apply (h : Lists wk free io) (hlen : free.length + io.length = nrMaxParallelIo)
    (op : WorkQueueOp β) :
    ∃ free io, Lists (wk.apply op) free io ∧ free.length + io.length = nrMaxParallelIo := by
  cases op with
  | enqueue call =>
    obtain ⟨e, free, rfl⟩ : ∃ e l, free = e :: l := by
      refine List.exists_cons_of_ne_nil ?_
      rintro rfl
      cases h.freeLast
    unfold IoWorker.apply
    dsimp only
    by_cases hlast : free = []
    · subst hlast
      rw [h.enqueueWork_none]
      exact ⟨_, _, h, hlen⟩
    · obtain ⟨wk', l₁, l₂, he, rfl, hl, -⟩ := h.enqueueWork_some hlast
        (fun w => (call.newWork w).next) fun w => (call.newWork w).prev
      rw [he]
      refine ⟨_, _, hl, ?_⟩
      simp only [List.length_cons, List.length_append] at hlen ⊢
      omega
  | visit entry currNsecs kv => exact ⟨free, io, h.visit entry currNsecs kv, hlen⟩
  | reclaim =>
    refine ⟨_, _, h.reclaimCompletedReqs, ?_⟩
    have hsplit := congrArg List.length (List.takeWhile_append_dropWhile (p := wk.finished) (l := io))
    simp only [List.length_append] at hsplit ⊢
    omega

end Lists

end IoWorker

/-- From `NVMEV_IO_WORKER_INIT` on, after any sequence of enqueues of requests and of internal operations
with any target times, of visits to any entries at any times, and of reclaims. -/
theorem work_queue_intact {β : Type} (ops : List (WorkQueueOp β)) :
    (ops.foldl IoWorker.apply ioWorkerInit).Intact := by
  have hrun : ∃ free io, (ops.foldl IoWorker.apply ioWorkerInit).Lists free io ∧
      free.length + io.length = nrMaxParallelIo := by
    induction ops using List.reverseRecOn with
    | nil => exact ⟨_, _, IoWorker.Lists.init, by simp⟩
    | append_singleton ops op ih =>
      obtain ⟨free, io, hl, hlen⟩ := ih
      rw [List.foldl_append]
      exact hl.apply hlen op
  obtain ⟨free, io, hl, hlen⟩ := hrun
  exact hl.intact hlen

end Nvmev
