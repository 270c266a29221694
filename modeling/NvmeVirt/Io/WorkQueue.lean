import Mathlib.Logic.Function.Basic
import NvmeVirt.Nvme

/-!
# The work queue of an I/O worker

`struct nvmev_io_work`, `struct nvmev_io_worker` and the functions of `io.c` on them. The array
`work_queue` holds two lists, threaded through its entries: the free entries (`free_seq`) and the
requests (`io_seq`), ordered by target time. The dispatcher enqueues and reclaims; the worker
walks the second list with a cursor of its own. `β` is the type of pointers to buffers.

A function of the dispatcher is one step here, and so is what the worker does at one entry.
-/

namespace Nvmev

open Function

/-- `NR_MAX_PARALLEL_IO`. -/
def nrMaxParallelIo : Nat := 16384

/-- The index -1 of an `unsigned int`. -/
def noEntry : Nat := 2 ^ 32 - 1

/-- `struct nvmev_io_work`, without the time stamps of `PERF_DEBUG`. -/
structure IoWork (β : Type) where
  sqid : Nat := 0
  cqid : Nat := 0
  sqEntry : Nat := 0
  commandId : Nat := 0
  nsecsStart : Nat := 0
  nsecsTarget : Nat := 0
  nsecsEnqueue : Nat := 0
  isCopied : Bool := false
  isCompleted : Bool := false
  status : Nat := 0
  result0 : Nat := 0
  result1 : Nat := 0
  isInternal : Bool := false
  writeBuffer : Option β := none
  buffsToRelease : Nat := 0
  next : Nat
  prev : Nat

/-- `struct nvmev_io_worker`. -/
structure IoWorker (β : Type) where
  workQueue : Nat → IoWork β
  freeSeq : Nat
  freeSeqEnd : Nat
  ioSeq : Nat
  ioSeqEnd : Nat
  latestNsecs : Nat

variable {β : Type}

/-- A worker as `NVMEV_IO_WORKER_INIT` leaves it. -/
def ioWorkerInit : IoWorker β where
  workQueue i :=
    { next := if i = nrMaxParallelIo - 1 then noEntry else i + 1
      prev := if i = 0 then noEntry else i - 1 }
  freeSeq := 0
  freeSeqEnd := nrMaxParallelIo - 1
  ioSeq := noEntry
  ioSeqEnd := noEntry
  latestNsecs := 0

section Links

variable (wk : IoWorker β) (e i : Nat)

/-- `work_queue[e] = w`. -/
def IoWorker.setWork (w : IoWork β) : IoWorker β :=
  { wk with workQueue := update wk.workQueue e w }

/-- `work_queue[e].next = i`. -/
def IoWorker.setNext : IoWorker β := wk.setWork e { wk.workQueue e with next := i }

/-- `work_queue[e].prev = i`. -/
def IoWorker.setPrev : IoWorker β := wk.setWork e { wk.workQueue e with prev := i }

end Links

/-! ## The dispatcher -/

/-- The loop of `__insert_req_sorted`, from `curr` backwards. A walk passes each entry of the
array at most once. -/
def insertionPoint (wk : IoWorker β) (nsecsTarget : Nat) : Nat → Nat → Nat
  | 0, curr => curr
  | fuel + 1, curr =>
    if curr = noEntry then curr
    else if (wk.workQueue curr).nsecsTarget ≤ wk.latestNsecs then curr
    else if (wk.workQueue curr).nsecsTarget ≤ nsecsTarget then curr
    else insertionPoint wk nsecsTarget fuel (wk.workQueue curr).prev

/-- `__insert_req_sorted`. -/
def insertReqSorted (entry : Nat) (wk : IoWorker β) (nsecsTarget : Nat) : IoWorker β :=
  if wk.ioSeq = noEntry then { wk with ioSeq := entry, ioSeqEnd := entry }
  else
    let curr := insertionPoint wk nsecsTarget nrMaxParallelIo wk.ioSeqEnd
    if curr = noEntry then
      { (wk.setPrev wk.ioSeq entry).setNext entry wk.ioSeq with ioSeq := entry }
    else
      let nextEntry := (wk.workQueue curr).next
      if nextEntry = noEntry then
        { (wk.setPrev entry curr).setNext curr entry with ioSeqEnd := entry }
      else
        (((wk.setPrev entry curr).setNext entry nextEntry).setPrev nextEntry entry).setNext curr
          entry

/-- `__allocate_work_queue_entry`: nothing if only one entry is free. -/
def allocateWorkQueueEntry (wk : IoWorker β) : Option (Nat × IoWorker β) :=
  let e := wk.freeSeq
  let nextEntry := (wk.workQueue e).next
  if nrMaxParallelIo ≤ nextEntry then none else some (e, { wk with freeSeq := nextEntry })

/-- The entry that `__enqueue_io_req` writes over the old one. -/
def requestWork (old : IoWork β) (sqid cqid sqEntry commandId nsecsStart nsecsEnqueue : Nat)
    (ret : Result) : IoWork β :=
  { old with
    sqid, cqid, sqEntry, commandId, nsecsStart, nsecsEnqueue
    nsecsTarget := ret.nsecsTarget
    status := ret.status
    isCompleted := false
    isCopied := false
    prev := noEntry
    next := noEntry
    isInternal := false }

/-- The entry that `schedule_internal_operation` writes over the old one. -/
def internalWork (old : IoWork β) (sqid nsecsTarget now : Nat) (writeBuffer : β)
    (buffsToRelease : Nat) : IoWork β :=
  { old with
    sqid, nsecsTarget, buffsToRelease
    nsecsStart := now
    nsecsEnqueue := now
    isCompleted := false
    isCopied := true
    prev := noEntry
    next := noEntry
    isInternal := true
    writeBuffer := some writeBuffer }

/-- `__enqueue_io_req` and `schedule_internal_operation`: allocate an entry, write `work` over it
and insert it. They return without a trace if there is none. -/
def enqueueWork (wk : IoWorker β) (work : IoWork β → IoWork β) : Option (Nat × IoWorker β) :=
  match allocateWorkQueueEntry wk with
  | none => none
  | some (entry, wk) =>
    let w := work (wk.workQueue entry)
    some (entry, insertReqSorted entry (wk.setWork entry w) w.nsecsTarget)

/-- The loop of `__reclaim_completed_reqs`: the last entry of the run of finished requests from
`curr`, if there is one. -/
def lastReclaimed (wk : IoWorker β) : Nat → Nat → Nat → Nat
  | 0, _, last => last
  | fuel + 1, curr, last =>
    if curr = noEntry then last
    else
      let w := wk.workQueue curr
      if w.isCompleted && w.isCopied && w.nsecsTarget ≤ wk.latestNsecs then
        lastReclaimed wk fuel w.next curr
      else last

/-- The requests from the head `firstEntry` to `lastEntry` become the last free entries. -/
def reclaimUpTo (wk : IoWorker β) (firstEntry lastEntry : Nat) : IoWorker β :=
  let nextEntry := (wk.workQueue lastEntry).next
  let wk := { wk with ioSeq := nextEntry }
  let wk := if nextEntry ≠ noEntry then wk.setPrev nextEntry noEntry else wk
  let wk := wk.setNext lastEntry noEntry
  let wk := wk.setPrev firstEntry wk.freeSeqEnd
  let wk := wk.setNext wk.freeSeqEnd firstEntry
  { wk with freeSeqEnd := lastEntry }

/-- `__reclaim_completed_reqs` on one worker. -/
def reclaimCompletedReqs (wk : IoWorker β) : IoWorker β :=
  let lastEntry := lastReclaimed wk nrMaxParallelIo wk.ioSeq noEntry
  if lastEntry = noEntry then wk else reclaimUpTo wk wk.ioSeq lastEntry

/-! ## The worker -/

/-- The entry that `__fill_cq_result` writes, without the phase bit. -/
structure Completion where
  commandId : Nat
  sqId : Nat
  sqHead : Nat
  status : Nat
  result0 : Nat
  result1 : Nat
  deriving DecidableEq, Repr

/-- `__fill_cq_result`. -/
def fillCqResult (w : IoWork β) : Completion :=
  { commandId := w.commandId, sqId := w.sqid, sqHead := w.sqEntry, status := w.status
    result0 := w.result0, result1 := w.result1 }

/-- What the worker does to the rest of the device at an entry. -/
inductive Effect (β : Type) where
  /-- `__do_perform_io`, or the KV handler with the status and the result it sets; and the status
  of the entry after it. -/
  | copy (kv : Option (Nat × Nat)) (status : Nat)
  | post (cqe : Completion)
  | release (writeBuffer : Option β) (buffsToRelease : Nat)

/-- The copy at an entry: `kv` is the status and the result of `perform_io_cmd`, for a command
that a KV namespace identifies. -/
def copyWork (w : IoWork β) (kv : Option (Nat × Nat)) : IoWork β × List (Effect β) :=
  if w.isCopied then (w, [])
  else if w.isInternal then ({ w with isCopied := true }, [])
  else
    let w := match kv with
      | some (status, result0) => { w with status, result0 }
      | none => w
    ({ w with isCopied := true }, [.copy kv w.status])

/-- The completion at an entry, when its target time has come. -/
def completeWork (w : IoWork β) (currNsecs : Nat) : IoWork β × List (Effect β) :=
  if w.nsecsTarget ≤ currNsecs then
    ({ w with isCompleted := true },
      [if w.isInternal then .release w.writeBuffer w.buffsToRelease else .post (fillCqResult w)])
  else (w, [])

/-- One turn of the inner loop of `nvmev_io_worker`, at entry `curr`: the worker, the next cursor
and the effects. -/
def visitEntry (wk : IoWorker β) (curr currNsecs : Nat) (kv : Option (Nat × Nat)) :
    IoWorker β × Nat × List (Effect β) :=
  let wk := { wk with latestNsecs := currNsecs }
  let w := wk.workQueue curr
  if w.isCompleted then (wk, w.next, [])
  else
    let (w, copied) := copyWork w kv
    let (w, completed) := completeWork w currNsecs
    (wk.setWork curr w, w.next, copied ++ completed)

end Nvmev
