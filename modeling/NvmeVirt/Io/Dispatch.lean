import NvmeVirt.Io.Interleaving

/-!
# Dispatching commands to the workers

`__nvmev_proc_io` and `nvmev_proc_io_sq` (`io.c`), over any number of workers. A worker is the
system of `Io.Sys`; what the dispatcher reads from the host, the clocks and the command handler of
the namespace are an `Io.Env`.

The functions that put a work item into the list of a worker return nothing, so the caller cannot
see whether they did. The trace of a run of `nvmev_proc_io_sq` is the list of these calls, each
with the state before it. `call_inserted_iff_room`: a call has inserted its item exactly when the
list of the worker had fewer than `NR_MAX_PARALLEL_IO - 1` entries.
-/

namespace Nvmev

open Function Linked

namespace Io

variable {σ β : Type}

/-- A call of `schedule_internal_operation`, with the time of the call. -/
structure InternalCall (β : Type) where
  sqid : Nat
  nsecsTarget : Nat
  now : Nat
  writeBuffer : β
  buffsToRelease : Nat

/-- A call that puts a work item into the list of a worker. -/
inductive Call (β : Type) where
  | request (sqid cqid sqEntry commandId nsecsStart nsecsEnqueue : Nat) (ret : Result)
  | internal (op : InternalCall β)

namespace Call

def sqid : Call β → Nat
  | .request sqid .. => sqid
  | .internal op => op.sqid

/-- The submission-queue entry of a request. -/
def requestEntry : Call β → Option Nat
  | .request _ _ sqEntry .. => some sqEntry
  | .internal _ => none

/-- The work item that the call writes over an entry. -/
def work : Call β → IoWork β → IoWork β
  | .request sqid cqid sqEntry commandId nsecsStart nsecsEnqueue ret, old =>
    requestWork old sqid cqid sqEntry commandId nsecsStart nsecsEnqueue ret
  | .internal op, old =>
    internalWork old op.sqid op.nsecsTarget op.now op.writeBuffer op.buffsToRelease

theorem newWork (c : Call β) (w : IoWork β) : NewWork (c.work w) := by
  cases c <;> exact ⟨rfl, rfl, rfl, rfl⟩

end Call

/-- What `proc_io_cmd` returns: the return value, the result and the internal operations it
scheduled. -/
structure Proc (σ β : Type) where
  accepted : Bool
  env : σ
  ret : Result
  ops : List (InternalCall β)

/-- What the dispatcher calls and reads. -/
structure Env (σ β : Type) where
  wallclock : σ → Nat × σ
  localClock : σ → Nat × σ
  commandId : σ → (sqid sqEntry : Nat) → Nat
  procIoCmd : σ → (sqid sqEntry nsecsStart : Nat) → Proc σ β

/-- The workers, and the state behind `Env`. -/
structure Dev (σ β : Type) where
  nrIoWorkers : Nat
  workers : Nat → Sys β
  env : σ

/-- `struct nvmev_submission_queue`: the fields that the dispatcher reads. -/
structure SubmissionQueue where
  cqid : Nat
  queueSize : Nat

/-- The calls of a run, each with the state before it. -/
abbrev Trace (σ β : Type) := List (Dev σ β × Call β)

/-- After `NVMEV_IO_WORKER_INIT`. -/
def Dev.init (nrIoWorkers : Nat) (env : σ) : Dev σ β :=
  { nrIoWorkers, workers := fun _ => Sys.init, env }

/-- `__get_io_worker`, with `CONFIG_NVMEV_IO_WORKER_BY_SQ`. -/
def Dev.getIoWorker (d : Dev σ β) (sqid : Nat) : Nat := (sqid - 1) % d.nrIoWorkers

/-- One step of worker `i` or of the dispatcher on it. -/
def Dev.onWorker (d : Dev σ β) (i : Nat) (f : Sys β → Sys β) : Dev σ β :=
  { d with workers := update d.workers i (f (d.workers i)) }

/-- `__enqueue_io_req` or `schedule_internal_operation`. -/
def Dev.call (d : Dev σ β) (c : Call β) : Dev σ β :=
  d.onWorker (d.getIoWorker c.sqid) fun s => s.enqueue c.work

/-- `__reclaim_completed_reqs`. -/
def Dev.reclaim (d : Dev σ β) : Dev σ β :=
  { d with
    workers := fun i => if i < d.nrIoWorkers then step (d.workers i) .reclaim else d.workers i }

/-- A sequence of calls. -/
def Dev.callAll (d : Dev σ β) : List (Call β) → Dev σ β × Trace σ β
  | [] => (d, [])
  | c :: cs =>
    let (d', trace) := (d.call c).callAll cs
    (d', (d, c) :: trace)

/-- `__nvmev_proc_io`. -/
def nvmevProcIo (E : Env σ β) (sq : SubmissionQueue) (sqid sqEntry : Nat) (d : Dev σ β) :
    Bool × Dev σ β × Trace σ β :=
  let (nsecsStart, env) := E.wallclock d.env
  let p := E.procIoCmd env sqid sqEntry nsecsStart
  let (d, trace) := { d with env := p.env }.callAll (p.ops.map .internal)
  if p.accepted = false then (false, d, trace)
  else
    let (nsecsEnqueue, env) := E.localClock d.env
    let d := { d with env }
    let c := .request sqid sq.cqid sqEntry (E.commandId env sqid sqEntry) nsecsStart nsecsEnqueue p.ret
    (true, (d.call c).reclaim, trace ++ [(d, c)])

/-- What `nvmev_proc_io_sq` leaves: the number of entries it passed, the state and the calls. -/
structure SqOutcome (σ β : Type) where
  seq : Nat
  dev : Dev σ β
  trace : Trace σ β

/-- `++sq_entry`, with wrap-around. -/
def SubmissionQueue.next (sq : SubmissionQueue) (sqEntry : Nat) : Nat :=
  if sqEntry + 1 = sq.queueSize then 0 else sqEntry + 1

/-- The loop of `nvmev_proc_io_sq`. -/
def procLoop (E : Env σ β) (sq : SubmissionQueue) (sqid : Nat) :
    Nat → Nat → Dev σ β → SqOutcome σ β
  | 0, _, d => { seq := 0, dev := d, trace := [] }
  | numProc + 1, sqEntry, d =>
    match nvmevProcIo E sq sqid sqEntry d with
    | (false, d, trace) => { seq := 0, dev := d, trace }
    | (true, d, trace) =>
      let o := procLoop E sq sqid numProc (sq.next sqEntry) d
      { o with seq := o.seq + 1, trace := trace ++ o.trace }

/-- `nvmev_proc_io_sq`. -/
def nvmevProcIoSq (E : Env σ β) (sq : SubmissionQueue) (sqid newDb oldDb : Nat) (d : Dev σ β) :
    SqOutcome σ β :=
  let numProc := if newDb < oldDb then newDb + sq.queueSize - oldDb else newDb - oldDb
  procLoop E sq sqid numProc oldDb d

/-- The return value of `nvmev_proc_io_sq`. -/
def latestDb (sq : SubmissionQueue) (oldDb : Nat) (o : SqOutcome σ β) : Nat :=
  (oldDb + o.seq) % sq.queueSize

/-- A step of the device. -/
inductive DevAction where
  | procIoSq (sqid : Nat) (sq : SubmissionQueue) (newDb oldDb : Nat)
  | scan (worker : Nat)
  | visit (worker currNsecs : Nat) (kv : Option (Nat × Nat))

/-- One step of the device. -/
def Dev.step (E : Env σ β) (d : Dev σ β) : DevAction → Dev σ β
  | .procIoSq sqid sq newDb oldDb => (nvmevProcIoSq E sq sqid newDb oldDb d).dev
  | .scan worker => d.onWorker worker fun s => Io.step s .scan
  | .visit worker currNsecs kv => d.onWorker worker fun s => Io.step s (.visit currNsecs kv)

/-! ## Reachable states -/

/-- Every worker satisfies the invariant of `Io.Sys`. -/
def Dev.Ok (d : Dev σ β) : Prop := ∀ i, ∃ v r l, SysInv (d.workers i) v r l

theorem Dev.Ok.onWorker {d : Dev σ β} (h : d.Ok) (i : Nat) {f : Sys β → Sys β}
    (hf : ∀ s v r l, SysInv s v r l → ∃ v r l, SysInv (f s) v r l) : (d.onWorker i f).Ok := by
  intro j
  by_cases hj : j = i
  · subst hj
    obtain ⟨v, r, l, hs⟩ := h j
    simpa [Dev.onWorker] using hf _ _ _ _ hs
  · simpa [Dev.onWorker, hj] using h j

theorem Dev.Ok.call {d : Dev σ β} (h : d.Ok) (c : Call β) : (d.call c).Ok :=
  h.onWorker _ fun _ _ _ _ hs => hs.enqueue c.newWork

theorem Dev.Ok.reclaim {d : Dev σ β} (h : d.Ok) : d.reclaim.Ok := by
  intro i
  obtain ⟨v, r, l, hs⟩ := h i
  simp only [Dev.reclaim]
  split
  · exact hs.step .reclaim
  · exact ⟨v, r, l, hs⟩

theorem Dev.Ok.callAll {d : Dev σ β} (h : d.Ok) (cs : List (Call β)) :
    (d.callAll cs).1.Ok ∧ ∀ p ∈ (d.callAll cs).2, p.1.Ok := by
  induction cs generalizing d with
  | nil => exact ⟨h, by simp [Dev.callAll]⟩
  | cons c cs ih =>
    obtain ⟨h1, h2⟩ := ih (h.call c)
    refine ⟨h1, fun p hp => ?_⟩
    rcases List.mem_cons.mp hp with rfl | hp
    · exact h
    · exact h2 p hp

theorem nvmevProcIo_ok (E : Env σ β) (sq : SubmissionQueue) (sqid sqEntry : Nat) {d : Dev σ β}
    (h : d.Ok) : (nvmevProcIo E sq sqid sqEntry d).2.1.Ok ∧
      ∀ p ∈ (nvmevProcIo E sq sqid sqEntry d).2.2, p.1.Ok := by
  unfold nvmevProcIo
  simp only []
  generalize E.procIoCmd (E.wallclock d.env).2 sqid sqEntry (E.wallclock d.env).1 = p
  have h₁ : Dev.Ok { d with env := p.env } := h
  obtain ⟨h1, h2⟩ := h₁.callAll (p.ops.map .internal)
  split
  · exact ⟨h1, h2⟩
  · have h₂ : Dev.Ok { (Dev.callAll { d with env := p.env } (p.ops.map .internal)).1 with
        env := (E.localClock (Dev.callAll { d with env := p.env } (p.ops.map .internal)).1.env).2 } := h1
    refine ⟨(h₂.call _).reclaim, fun q hq => ?_⟩
    rcases List.mem_append.mp hq with hq | hq
    · exact h2 q hq
    · rw [List.mem_singleton.mp hq]
      exact h₂

theorem procLoop_ok (E : Env σ β) (sq : SubmissionQueue) (sqid : Nat) {d : Dev σ β} (h : d.Ok)
    (numProc sqEntry : Nat) : (procLoop E sq sqid numProc sqEntry d).dev.Ok ∧
      ∀ p ∈ (procLoop E sq sqid numProc sqEntry d).trace, p.1.Ok := by
  induction numProc generalizing d sqEntry with
  | zero => exact ⟨h, by simp [procLoop]⟩
  | succ n ih =>
    have hp := nvmevProcIo_ok E sq sqid sqEntry h
    unfold procLoop
    split <;> rename_i heq <;> rw [heq] at hp
    · exact hp
    · obtain ⟨h1, h2⟩ := ih hp.1 (sq.next sqEntry)
      refine ⟨h1, fun p hmem => ?_⟩
      rcases List.mem_append.mp hmem with hmem | hmem
      · exact hp.2 p hmem
      · exact h2 p hmem

theorem Dev.Ok.step (E : Env σ β) {d : Dev σ β} (h : d.Ok) (a : DevAction) : (d.step E a).Ok := by
  cases a with
  | procIoSq sqid sq newDb oldDb => exact (procLoop_ok E sq sqid h _ _).1
  | scan worker => exact h.onWorker _ fun _ _ _ _ hs => hs.step .scan
  | visit worker now kv => exact h.onWorker _ fun _ _ _ _ hs => hs.step (.visit now kv)

theorem Dev.Ok.run (E : Env σ β) {d : Dev σ β} (h : d.Ok) (acts : List DevAction) :
    (acts.foldl (Dev.step E) d).Ok := by
  induction acts generalizing d with
  | nil => exact h
  | cons a acts ih => exact ih (h.step E a)

theorem Dev.Ok.init (nrIoWorkers : Nat) (env : σ) : (Dev.init nrIoWorkers env : Dev σ β).Ok :=
  fun _ => ⟨_, _, _, SysInv.init⟩

/-! ## Room -/

/-- A walk along the links from `e`. -/
def walk (f : Nat → Nat) : Nat → Nat → List Nat
  | 0, _ => []
  | fuel + 1, e => if e = noEntry then [] else e :: walk f fuel (f e)

/-- The entries in the list of requests, from `io_seq` on. -/
def requests (wk : IoWorker β) : List Nat := walk wk.nx nrMaxParallelIo wk.ioSeq

theorem walk_eq {f : Nat → Nat} {l : List Nat} {fuel : Nat} (h : Next f l noEntry)
    (hne : ∀ a ∈ l, a ≠ noEntry) (hf : l.length ≤ fuel) : walk f fuel (l.headD noEntry) = l := by
  induction l generalizing fuel with
  | nil => cases fuel <;> simp [walk]
  | cons a l ih =>
    obtain ⟨fuel, rfl⟩ : ∃ n, fuel = n + 1 := ⟨fuel - 1, by simp at hf; omega⟩
    rw [List.headD_cons, walk, if_neg (hne a (by simp)), h.1,
      ih h.2 (fun b hb => hne b (by simp [hb])) (by simp at hf; omega)]

theorem requests_eq {wk : IoWorker β} {free io : List Nat} (h : wk.Lists free io) :
    requests wk = io := by
  unfold requests
  rw [h.ioHead]
  refine walk_eq h.ioNext (fun a ha => h.ne_noEntry (by simp [ha])) ?_
  have := h.length_le
  omega

/-- The list of the worker that serves the call has fewer than `NR_MAX_PARALLEL_IO - 1` entries. -/
def Room (d : Dev σ β) (c : Call β) : Prop :=
  (requests (d.workers (d.getIoWorker c.sqid)).worker).length < nrMaxParallelIo - 1

/-- The call puts its work item into a new entry of the list of its worker. -/
def Inserted (d : Dev σ β) (c : Call β) : Prop :=
  let before := (d.workers (d.getIoWorker c.sqid)).worker
  let after := ((d.call c).workers (d.getIoWorker c.sqid)).worker
  ∃ e, e ∉ requests before ∧ e ∈ requests after ∧
    (after.workQueue e).payload = (c.work (before.workQueue e)).payload

/-- A call inserts its item exactly when there is room. -/
theorem inserted_iff_room {d : Dev σ β} (h : d.Ok) (c : Call β) : Inserted d c ↔ Room d c := by
  unfold Inserted Room
  generalize hi : d.getIoWorker c.sqid = i
  have hcall : (d.call c).workers i = (d.workers i).enqueue c.work := by
    simp [Dev.call, Dev.onWorker, hi]
  rw [hcall]
  obtain ⟨v, r, io, hs⟩ := h i
  obtain ⟨f, free, hfree⟩ := hs.exists_free
  have hlen := hs.length_free hfree
  simp only [requests_eq hs.lists]
  by_cases hroom : io.length < nrMaxParallelIo - 1
  · obtain ⟨v', r', l₁, e, l₂, -, he, hs', hpe, -⟩ := hs.enqueue_room hroom c.newWork
    refine ⟨fun _ => hroom, fun _ => ⟨e, he, ?_, hpe⟩⟩
    rw [requests_eq hs'.lists]
    simp
  · refine ⟨?_, fun hlt => absurd hlt hroom⟩
    rintro ⟨a, ha, ha', -⟩
    rw [hs.enqueue_full (by omega), requests_eq hs.lists] at ha'
    exact absurd ha' ha

/-- The requests that the loop makes are one for each entry it passes. -/
theorem procLoop_requests (E : Env σ β) (sq : SubmissionQueue) (sqid : Nat) (d : Dev σ β)
    (numProc sqEntry : Nat) :
    (procLoop E sq sqid numProc sqEntry d).trace.filterMap (fun p => p.2.requestEntry) =
      List.iterate sq.next sqEntry (procLoop E sq sqid numProc sqEntry d).seq := by
  have hops (d : Dev σ β) (ops : List (InternalCall β)) :
      (d.callAll (ops.map .internal)).2.filterMap (fun p => p.2.requestEntry) = [] := by
    induction ops generalizing d with
    | nil => rfl
    | cons op ops ih => simpa [Dev.callAll, Call.requestEntry] using ih _
  induction numProc generalizing d sqEntry with
  | zero => rfl
  | succ n ih =>
    unfold procLoop
    split <;> rename_i heq <;> unfold nvmevProcIo at heq <;> simp only [] at heq
    · split at heq
      · cases heq
        exact hops _ _
      · cases heq
    · split at heq
      · cases heq
      · cases heq
        rw [List.filterMap_append, List.filterMap_append, hops, ih, List.iterate]
        rfl

end Io

/-- In every reachable state, for every run of `nvmev_proc_io_sq`: each entry that it passes has a
call of `__enqueue_io_req`, and each such call, like each call of `schedule_internal_operation`, has
inserted its work item exactly when the list of the worker had room. -/
theorem call_inserted_iff_room {σ β : Type} (E : Io.Env σ β) (nrIoWorkers : Nat) (env : σ)
    (acts : List Io.DevAction) (sq : Io.SubmissionQueue) (sqid newDb oldDb : Nat) :
    let d := acts.foldl (Io.Dev.step E) (Io.Dev.init nrIoWorkers env)
    let o := Io.nvmevProcIoSq E sq sqid newDb oldDb d
    o.trace.filterMap (fun p => p.2.requestEntry) = List.iterate sq.next oldDb o.seq ∧
      ∀ p ∈ o.trace, Io.Inserted p.1 p.2 ↔ Io.Room p.1 p.2 := by
  have hok := (Io.Dev.Ok.init (β := β) nrIoWorkers env).run E acts
  refine ⟨Io.procLoop_requests E sq sqid _ _ _, fun p hp => ?_⟩
  exact Io.inserted_iff_room ((Io.procLoop_ok E sq sqid hok _ _).2 p hp) p.2

namespace Io

/-! ## Running out of room -/

/-- A device whose handler accepts every command, for completion in 1 ms. -/
def Env.accepting : Env Unit Unit where
  wallclock _ := (0, ())
  localClock _ := (0, ())
  commandId _ _ sqEntry := sqEntry
  procIoCmd _ _ _ nsecsStart :=
    { accepted := true, env := (), ops := []
      ret := { status := Sc.success, nsecsTarget := nsecsStart + 1000000 } }

/-- One worker, with `n` requests that it has not completed. -/
structure Pending (d : Dev Unit Unit) (n : Nat) : Prop where
  single : d.nrIoWorkers = 1
  requests : ∃ v r io, SysInv (d.workers 0) v r io ∧ io.length = n ∧
    ∀ e ∈ io, ((d.workers 0).worker.workQueue e).isCompleted = false

theorem Pending.call {d : Dev Unit Unit} {n : Nat} (h : Pending d n) (hn : n < nrMaxParallelIo - 1)
    (c : Call Unit) : Pending (d.call c).reclaim (n + 1) := by
  obtain ⟨h1, v, r, io, hs, rfl, hc⟩ := h
  have hi : d.getIoWorker c.sqid = 0 := by simp [Dev.getIoWorker, h1, Nat.mod_one]
  obtain ⟨v', r', l₁, e, l₂, rfl, -, hs', hpe, hp⟩ := hs.enqueue_room hn c.newWork
  have hcomp (a : Nat) (ha : a ∈ l₁ ++ e :: l₂) :
      (((d.workers 0).enqueue c.work).worker.workQueue a).isCompleted = false := by
    by_cases hae : a = e
    · subst hae
      exact (congrArg IoWork.isCompleted hpe).trans (c.newWork _).isCompleted
    · refine (congrArg IoWork.isCompleted (hp a hae)).trans (hc a ?_)
      simp only [List.mem_append, List.mem_cons, hae, false_or] at ha ⊢
      exact ha
  -- nothing is completed, so nothing is reclaimed
  have htake : (l₁ ++ e :: l₂).takeWhile ((d.workers 0).enqueue c.work).worker.finished = [] := by
    have hnone (a : Nat) (ha : a ∈ l₁ ++ e :: l₂) :
        ¬ ((d.workers 0).enqueue c.work).worker.finished a = true := by
      simp [IoWorker.finished, hcomp a ha]
    cases l₁ with
    | nil => exact List.takeWhile_cons_of_neg (hnone e (by simp))
    | cons a l => exact List.takeWhile_cons_of_neg (hnone a (by simp))
  have hdrop := List.takeWhile_append_dropWhile (p := ((d.workers 0).enqueue c.work).worker.finished)
    (l := l₁ ++ e :: l₂)
  rw [htake, List.nil_append] at hdrop
  have hs₂ := hs'.reclaim
  rw [htake, hdrop] at hs₂
  have hw : (d.call c).reclaim.workers 0 = { (d.workers 0).enqueue c.work with
      worker := reclaimCompletedReqs ((d.workers 0).enqueue c.work).worker } := by
    simp [Dev.reclaim, Dev.call, Dev.onWorker, hi, h1, Io.step]
  refine ⟨h1, v', _, _, by rw [hw]; exact hs₂, by simp; omega, fun a ha => ?_⟩
  rw [hw]
  exact (congrArg IoWork.isCompleted (IoWorker.Lists.reclaimCompletedReqs_payload _ a)).trans (hcomp a ha)

theorem nvmevProcIo_accepting (sq : SubmissionQueue) (sqid sqEntry : Nat) (d : Dev Unit Unit) :
    ∃ c, nvmevProcIo Env.accepting sq sqid sqEntry d = (true, (d.call c).reclaim, [(d, c)]) :=
  ⟨_, rfl⟩

/-- Commands that fit all wait for the worker. -/
theorem Pending.waiting {d : Dev Unit Unit} {n : Nat} (h : Pending d n) (sq : SubmissionQueue)
    (sqid numProc : Nat) (hn : n + numProc ≤ nrMaxParallelIo - 1) (sqEntry : Nat) :
    Pending (procLoop Env.accepting sq sqid numProc sqEntry d).dev (n + numProc) := by
  induction numProc generalizing d n sqEntry with
  | zero => exact h
  | succ k ih =>
    obtain ⟨c, hc⟩ := nvmevProcIo_accepting sq sqid sqEntry d
    unfold Io.procLoop
    simp only [hc]
    have := ih (h.call (by omega) c) (by omega) (sq.next sqEntry)
    rwa [show n + 1 + k = n + (k + 1) by omega] at this

/-- Of more commands than fit, one finds no room. -/
theorem Pending.no_room {d : Dev Unit Unit} {n : Nat} (h : Pending d n) (sq : SubmissionQueue)
    (sqid numProc : Nat) (hle : n ≤ nrMaxParallelIo - 1)
    (hn : nrMaxParallelIo - 1 < n + numProc) (sqEntry : Nat) :
    ∃ p ∈ (Io.procLoop Env.accepting sq sqid numProc sqEntry d).trace, ¬ Room p.1 p.2 := by
  induction numProc generalizing d n sqEntry with
  | zero => omega
  | succ k ih =>
    obtain ⟨c, hc⟩ := nvmevProcIo_accepting sq sqid sqEntry d
    unfold Io.procLoop
    simp only [hc]
    by_cases hfull : n = nrMaxParallelIo - 1
    · refine ⟨(d, c), by simp, ?_⟩
      obtain ⟨h1, v, r, io, hs, hlen, -⟩ := h
      have hi : d.getIoWorker c.sqid = 0 := by simp [Dev.getIoWorker, h1, Nat.mod_one]
      simp only [Room, hi, requests_eq hs.lists]
      omega
    · obtain ⟨p, hp, hroom⟩ := ih (h.call (by omega) c) (by omega) (by omega) (sq.next sqEntry)
      exact ⟨p, by simp [hp], hroom⟩

/-- `n` full submission queues of 1024 entries. -/
theorem Pending.queues {d : Dev Unit Unit} (h : Pending d 0) {n : Nat}
    (hn : 1023 * n ≤ nrMaxParallelIo - 1) :
    Pending (((List.range n).map fun i => DevAction.procIoSq (i + 1) ⟨1, 1024⟩ 1023 0).foldl
      (Dev.step Env.accepting) d) (1023 * n) := by
  induction n with
  | zero => exact h
  | succ n ih =>
    rw [List.range_succ, List.map_append, List.foldl_append]
    have := (ih (by omega)).waiting ⟨1, 1024⟩ (n + 1) 1023 (by omega) 0
    rwa [show 1023 * n + 1023 = 1023 * (n + 1) by omega] at this

end Io

/-- A device with one worker and seventeen full submission queues of 1024 entries: in the last of
them, `nvmev_proc_io_sq` passes a command whose work item was not inserted. -/
theorem command_dropped :
    ∃ p ∈ (Io.nvmevProcIoSq Io.Env.accepting ⟨1, 1024⟩ 17 1023 0
      (((List.range 16).map fun i => Io.DevAction.procIoSq (i + 1) ⟨1, 1024⟩ 1023 0).foldl
        (Io.Dev.step Io.Env.accepting) (Io.Dev.init 1 ()))).trace, ¬ Io.Inserted p.1 p.2 := by
  have hok := (Io.Dev.Ok.init (β := Unit) 1 ()).run Io.Env.accepting
    ((List.range 16).map fun i => Io.DevAction.procIoSq (i + 1) ⟨1, 1024⟩ 1023 0)
  have h0 : Io.Pending (Io.Dev.init 1 () : Io.Dev Unit Unit) 0 :=
    ⟨rfl, _, _, _, Io.SysInv.init, rfl, by simp⟩
  have h16 := h0.queues (n := 16) (by decide)
  obtain ⟨p, hp, hroom⟩ := h16.no_room ⟨1, 1024⟩ 17 1023 (by decide) (by decide) 0
  refine ⟨p, hp, fun hins => hroom ?_⟩
  exact (Io.inserted_iff_room ((Io.procLoop_ok _ _ _ hok _ _).2 p hp) p.2).mp hins

end Nvmev
