import NvmeVirt.Io.Integrity
import NvmeVirt.Lib.DueSorted
import NvmeVirt.Lib.Runs

/-!
# The requests in due order

`__insert_req_sorted` goes back over the requests that are not due and have a later target time, and
stops at a request that is due, whatever is in front of it. So the requests are in order up to
`latest_nsecs` (`Due.Sorted`): where a request is not due, none behind it has an earlier target time.
-/

namespace Nvmev

open Linked

variable {β : Type}

namespace IoWorker

/-- The target time of an entry. -/
def target (wk : IoWorker β) (e : Nat) : Nat := (wk.workQueue e).nsecsTarget

/-- The requests of a worker, in due order. -/
def InDueOrder (wk : IoWorker β) : Prop :=
  ∃ free io, Lists wk free io ∧ Due.Sorted wk.target wk.latestNsecs io

/-- The operation does not set `latest_nsecs` back. -/
def NotBack (wk : IoWorker β) : WorkQueueOp β → Prop
  | .visit _ currNsecs _ => wk.latestNsecs ≤ currNsecs
  | _ => True

instance (wk : IoWorker β) (op : WorkQueueOp β) : Decidable (NotBack wk op) := by
  cases op <;> unfold NotBack <;> infer_instance

section Fields

variable {wk wk' : IoWorker β} {e : Nat}

theorem target_of_payload {a : Nat} (h : (wk'.workQueue a).payload = (wk.workQueue a).payload) :
    wk'.target a = wk.target a := (congrArg IoWork.nsecsTarget h :)

theorem insertReqSorted_latestNsecs (nsecsTarget : Nat) :
    (insertReqSorted e wk nsecsTarget).latestNsecs = wk.latestNsecs := by
  unfold insertReqSorted
  dsimp only
  split
  · rfl
  split
  · rfl
  split <;> rfl

theorem enqueueWork_latestNsecs {work : IoWork β → IoWork β} (h : enqueueWork wk work = some (e, wk')) :
    wk'.latestNsecs = wk.latestNsecs := by
  unfold enqueueWork allocateWorkQueueEntry at h
  dsimp only at h
  by_cases hfull : nrMaxParallelIo ≤ (wk.workQueue wk.freeSeq).next
  · rw [if_pos hfull] at h
    cases h
  · rw [if_neg hfull] at h
    cases h
    exact insertReqSorted_latestNsecs _

theorem reclaimCompletedReqs_latestNsecs : (reclaimCompletedReqs wk).latestNsecs = wk.latestNsecs := by
  unfold reclaimCompletedReqs reclaimUpTo
  dsimp only
  split
  · rfl
  split <;> rfl

theorem copyWork_target (w : IoWork β) (kv : Option (Nat × Nat)) :
    (copyWork w kv).1.nsecsTarget = w.nsecsTarget := by
  unfold copyWork
  split
  · rfl
  split
  · rfl
  · cases kv <;> rfl

theorem completeWork_target (w : IoWork β) (currNsecs : Nat) :
    (completeWork w currNsecs).1.nsecsTarget = w.nsecsTarget := by
  unfold completeWork
  split <;> rfl

/-- A visit changes no target time. -/
theorem visitEntry_target (entry currNsecs : Nat) (kv : Option (Nat × Nat)) (a : Nat) :
    (visitEntry wk entry currNsecs kv).1.target a = wk.target a := by
  unfold visitEntry
  dsimp only
  split
  · rfl
  · show (Function.update wk.workQueue entry _ a).nsecsTarget = (wk.workQueue a).nsecsTarget
    by_cases ha : a = entry
    · rw [ha, Function.update_self, completeWork_target, copyWork_target]
    · rw [Function.update_of_ne ha]

theorem visitEntry_latestNsecs (entry currNsecs : Nat) (kv : Option (Nat × Nat)) :
    (visitEntry wk entry currNsecs kv).1.latestNsecs = currNsecs := by
  unfold visitEntry
  dsimp only
  split <;> rfl

end Fields

namespace InDueOrder

variable {wk : IoWorker β}

theorem init : InDueOrder (ioWorkerInit : IoWorker β) := ⟨_, _, Lists.init, .nil⟩

/-- An enqueue puts the new request where it belongs. -/
theorem enqueue (h : InDueOrder wk) (call : Io.Call β) : InDueOrder (wk.apply (.enqueue call)) := by
  obtain ⟨free, io, hl, hs⟩ := h
  obtain ⟨e, free, rfl⟩ : ∃ e l, free = e :: l := by
    refine List.exists_cons_of_ne_nil ?_
    rintro rfl
    cases hl.freeLast
  unfold IoWorker.apply
  dsimp only
  by_cases hlast : free = []
  · subst hlast
    rw [hl.enqueueWork_none]
    exact ⟨_, _, hl, hs⟩
  obtain ⟨wk', l₁, l₂, he, rfl, hl', hpe, hp, hat⟩ := hl.enqueueWork_some hlast
    (fun w => (call.newWork w).next) fun w => (call.newWork w).prev
  rw [he]
  have hte : wk'.target e = (call.work (wk.workQueue e)).nsecsTarget :=
    (congrArg IoWork.nsecsTarget hpe :)
  have hto : ∀ a ∈ l₁ ++ l₂, wk'.target a = wk.target a := by
    intro a ha
    refine target_of_payload (hp a ?_)
    rintro rfl
    exact (List.nodup_cons.mp hl.nodup).1 (List.mem_append_right _ ha)
  refine ⟨free, _, hl', ?_⟩
  rw [enqueueWork_latestNsecs he]
  refine (hs.congr hto).insert (fun b hb => ?_) fun c hc => ?_
  · have hlt := hat.behind b hb
    rw [Due.Before, hte, hto b (List.mem_append_right _ hb)]
    exact (Nat.le_of_lt hlt).trans (Nat.le_max_left _ _)
  · rw [Due.Before, hte, hto c (List.mem_append_left _ (List.mem_of_getLast? hc))]
    exact hat.front c hc

/-- An operation keeps the order, as long as the time does not go back. -/
theorem apply (h : InDueOrder wk) (op : WorkQueueOp β) (hop : NotBack wk op) :
    InDueOrder (wk.apply op) := by
  cases op with
  | enqueue call => exact h.enqueue call
  | visit entry currNsecs kv =>
    obtain ⟨free, io, hl, hs⟩ := h
    refine ⟨free, io, hl.visit entry currNsecs kv, ?_⟩
    show Due.Sorted _ (visitEntry wk entry currNsecs kv).1.latestNsecs io
    rw [visitEntry_latestNsecs]
    exact (hs.mono hop).congr fun a _ => visitEntry_target entry currNsecs kv a
  | reclaim =>
    obtain ⟨free, io, hl, hs⟩ := h
    refine ⟨_, _, hl.reclaimCompletedReqs, ?_⟩
    show Due.Sorted _ (reclaimCompletedReqs wk).latestNsecs _
    rw [reclaimCompletedReqs_latestNsecs]
    exact (hs.of_sublist (List.dropWhile_sublist _)).congr fun a _ =>
      target_of_payload (Lists.reclaimCompletedReqs_payload wk a)

end InDueOrder

end IoWorker

/-- From `NVMEV_IO_WORKER_INIT` on, after any sequence of enqueues, of visits to any entries and of
reclaims in which `latest_nsecs` never decreases: of two requests in the list, the first is due or
not later than the second. -/
theorem work_queue_due_order {β : Type} (ops : List (WorkQueueOp β))
    (h : Runs.AllSteps IoWorker.apply IoWorker.NotBack ioWorkerInit ops) :
    let wk := ops.foldl IoWorker.apply ioWorkerInit
    wk.ioChain.Pairwise fun a b =>
      (wk.workQueue a).nsecsTarget ≤ max (wk.workQueue b).nsecsTarget wk.latestNsecs := by
  obtain ⟨free, io, hl, hs⟩ := Runs.invariant IoWorker.InDueOrder.init h
    (fun _ op hwk hop => hwk.apply op hop) ops List.prefix_rfl
  have hio : (ops.foldl IoWorker.apply ioWorkerInit).ioChain = io := Io.requests_eq hl
  dsimp only
  rw [hio]
  exact hs

/-- Two requests, of which the later one came first, a visit at its entry and a reclaim. -/
def dueOrderOps : List (WorkQueueOp Unit) :=
  [.enqueue (.request 1 1 0 0 0 0 { nsecsTarget := 9, status := 0 }),
    .enqueue (.request 1 1 1 0 0 0 { nsecsTarget := 5, status := 0 }), .visit 1 7 none, .reclaim]

theorem work_queue_due_order_two :
    let wk := dueOrderOps.foldl IoWorker.apply ioWorkerInit
    wk.ioChain.Pairwise fun a b =>
      (wk.workQueue a).nsecsTarget ≤ max (wk.workQueue b).nsecsTarget wk.latestNsecs := by
  refine work_queue_due_order dueOrderOps ?_
  have h0 : (0 : Nat) ≤ 7 := by decide
  refine Runs.allSteps_cons.mpr ⟨trivial, Runs.allSteps_cons.mpr ⟨trivial, ?_⟩⟩
  exact Runs.allSteps_cons.mpr ⟨h0, Runs.allSteps_cons.mpr ⟨trivial, Runs.allSteps_nil⟩⟩

end Nvmev
