import NvmeVirt.Io.Prp
import NvmeVirt.Io.Requests
import NvmeVirt.Lib.History

/-!
# The data path, byte by byte

`DataPath.Sys` is the whole way of a command: the host puts it into a slot of a submission queue, the
dispatcher makes a work item of it for one of the workers, the worker copies the data between the memory of
the host and the storage (`__do_perform_io`) and posts the completion. Any number of queues and workers take
their steps in any order (`Action`), and so does the host, which can change its memory at any time. A step of
a worker that copies is one byte of a `memcpy`.

The storage is written in two more places, `Action.store`: the dispatcher clears a zone that is reset
(`__reset_zone`), and where a worker of the key-value prototype calls `kv_perform_nvme_io_cmd` instead of
`__do_perform_io`, this copies values to the storage, and results to the host.

The slots are pairs of a queue and an entry, the requests pairs of a worker and a work item. `log` records
what happened to the requests. The host puts a command only into a slot whose last command is completed
(`HostWaits`).

`Inv` says for each request how far its data is copied, and that the log is a history of every byte of the
storage: a request acts on a byte once, after its dispatch and before its completion.
-/

namespace Nvmev

open CInt Bytes Function

namespace DataPath

variable {β : Type}

/-- The page that `memcpy` is at, from `start` on in the memory of the host; `done` of its bytes are
copied. -/
structure Page where
  dir : Prp.Dir
  start : Nat
  size : Nat
  done : Nat

/-- The variables of `__do_perform_io`, and the `curr_nsecs` of its caller. -/
structure Copying where
  slot : Nat × Nat
  currNsecs : Nat
  nsid : Nat
  cursor : Prp.Cursor
  remaining : Nat
  offset : Nat
  page : Option Page

/-- `__do_perform_io` before its loop. -/
def Copying.start (slot : Nat × Nat) (currNsecs : Nat) (cmd : RwCommand) : Copying :=
  { slot, currNsecs
    nsid := dec32 cmd.nsid
    cursor := {}
    remaining := cmdIoSize cmd
    offset := cmdIoOffset cmd
    page := none }

/-- A turn of the loop up to the `memcpy`, which a command that moves no data leaves out. -/
def Copying.turn (M : Prp.Mapping) (cmd : RwCommand) (host : Mem) (c : Copying) : Copying :=
  let (paddr, cursor) := Prp.nextPrp M cmd.prp1 cmd.prp2 host c.remaining c.cursor
  let size := Prp.ioSize c.remaining paddr
  let dir := ioDir cmd.opcode
  { c with
    cursor
    page := some
      { dir, size, start := Prp.dataStart M paddr, done := if dir = .nowhere then size else 0 } }

/-- The end of the turn. -/
def Copying.turned (c : Copying) (p : Page) : Copying :=
  { c with remaining := c.remaining - p.size, offset := u64 (c.offset + p.size), page := none }

/-- What the slots are used for. -/
inductive Use where
  /-- There was no command in the slot, or it is completed. -/
  | idle
  | submitted
  | dispatched
  deriving DecidableEq, Repr

/-- What happens to a request. -/
inductive Event where
  | dispatched (id : Nat × Nat) (cmd : RwCommand)
  /-- The byte at `addr` of the storage and `hostAddr` of the host. -/
  | moved (id : Nat × Nat) (dir : Prp.Dir) (addr hostAddr : Nat) (byte : UInt8)
  | posted (id : Nat × Nat) (cmd : RwCommand)
  /-- Store number `n`, of the byte at `addr` of the storage for a namespace. -/
  | stored (n nsid addr : Nat) (byte : UInt8)
  deriving DecidableEq, Repr

/-- The request that something happens to. -/
def Event.id? : Event → Option (Nat × Nat)
  | .dispatched id _ | .moved id _ _ _ _ | .posted id _ => some id
  | .stored _ _ _ _ => none

/-- A byte is moved between the host and the storage. -/
def Event.isMove : Event → Bool
  | .moved _ _ _ _ _ => true
  | .dispatched _ _ | .posted _ _ | .stored _ _ _ _ => false

/-- The submission queues, the workers, the memories, and the record of the run. -/
structure Sys (β : Type) where
  workers : Nat → Io.Sys β := fun _ => Io.Sys.init
  slots : Nat × Nat → RwCommand
  copying : Nat → Option Copying := fun _ => none
  ms : Prp.Memories
  used : Nat × Nat → Use := fun _ => .idle
  log : List Event := []

/-- What can happen next. -/
inductive Action (β : Type) where
  /-- The memory of the host changes. -/
  | host (host : Mem)
  /-- One byte of the `memset` of `__reset_zone`, or of a `memcpy` of `kv_perform_nvme_io_cmd`, to a
  namespace. -/
  | store (nsid offset : Nat) (byte : UInt8)
  /-- The host puts a command into a slot. -/
  | submit (slot : Nat × Nat) (cmd : RwCommand)
  /-- The handler refuses the command. It can write to the slot. -/
  | refuse (slot : Nat × Nat) (cmd : RwCommand)
  /-- `__nvmev_proc_io` of the command, which the handler leaves as `cmd`, on worker `i`. -/
  | dispatch (i : Nat) (slot : Nat × Nat) (cmd : RwCommand)
    (cqid commandId nsecsStart nsecsEnqueue : Nat) (ret : Result)
  /-- Another step of the dispatcher on worker `i`, or a new walk of the worker. -/
  | other (i : Nat) (action : Io.Action β)
  /-- The next step of worker `i`. -/
  | work (i currNsecs : Nat)

/-- One byte of a `memcpy`, and the memories after it. -/
def moveByte (dir : Prp.Dir) (addr hostAddr : Nat) (ms : Prp.Memories) : UInt8 × Prp.Memories :=
  match dir with
  | .toStorage => (ms.host hostAddr, { ms with storage := update ms.storage addr (ms.host hostAddr) })
  | .toHost => (ms.storage addr, { ms with host := update ms.host hostAddr (ms.storage addr) })
  | .nowhere => (0, ms)

/-- A worker at an entry that has no data to copy, or has it copied. -/
def Sys.visit (s : Sys β) (i currNsecs : Nat) : Sys β :=
  let worker := s.workers i
  let w := worker.worker.workQueue worker.curr
  let slot := (w.sqid, w.sqEntry)
  let s' := { s with workers := update s.workers i (Io.step worker (.visit currNsecs none)) }
  if (visitEntry worker.worker worker.curr currNsecs none).2.2.any isPost then
    { s' with
      used := update s.used slot .idle
      log := s.log ++ [.posted (i, worker.owner worker.curr) (s.slots slot)] }
  else s'

section Step

variable (M : Prp.Mapping) (mapped : Nat → Nat)

/-- A worker in `__do_perform_io`. `mapped` are the `ns[nsid].mapped`. -/
def Sys.copy (s : Sys β) (i : Nat) (c : Copying) : Sys β :=
  let worker := s.workers i
  match c.page with
  | some p =>
    if p.done < p.size then
      let addr := u64 (mapped c.nsid + c.offset + p.done)
      let hostAddr := u64 (p.start + p.done)
      let (byte, ms) := moveByte p.dir addr hostAddr s.ms
      { s with
        ms
        copying := update s.copying i (some { c with page := some { p with done := p.done + 1 } })
        log := s.log ++ [.moved (i, worker.owner worker.curr) p.dir addr hostAddr byte] }
    else { s with copying := update s.copying i (some (c.turned p)) }
  | none =>
    if c.remaining = 0 then { s with copying := update s.copying i none }.visit i c.currNsecs
    -- the kernel stops a worker that reads a NULL list
    else if c.cursor.nullList then s
    else { s with copying := update s.copying i (some (c.turn M (s.slots c.slot) s.ms.host)) }

/-- The next step of worker `i`, which sets `latest_nsecs` and enters `__do_perform_io` at a request that
is not copied. -/
def Sys.work (s : Sys β) (i currNsecs : Nat) : Sys β :=
  let worker := s.workers i
  if worker.curr = noEntry then s
  else
    match s.copying i with
    | some c => s.copy M mapped i c
    | none =>
      let w := worker.worker.workQueue worker.curr
      if w.isCompleted = false ∧ w.isCopied = false ∧ w.isInternal = false then
        let slot := (w.sqid, w.sqEntry)
        { s with
          workers := update s.workers i
            { worker with worker := { worker.worker with latestNsecs := currNsecs } }
          copying := update s.copying i (some (.start slot currNsecs (s.slots slot))) }
      else s.visit i currNsecs

/-- One step. -/
def step (s : Sys β) : Action β → Sys β
  | .host host => { s with ms := { s.ms with host } }
  | .store nsid offset byte =>
    let addr := u64 (mapped nsid + offset)
    { s with
      ms := { s.ms with storage := update s.ms.storage addr byte }
      log := s.log ++ [.stored s.log.length nsid addr byte] }
  | .submit slot cmd =>
    { s with slots := update s.slots slot cmd, used := update s.used slot .submitted }
  | .refuse slot cmd =>
    if s.used slot = .submitted then { s with slots := update s.slots slot cmd } else s
  | .dispatch i slot cmd cqid commandId nsecsStart nsecsEnqueue ret =>
    if s.used slot = .submitted then
      let worker := Io.step (s.workers i)
        (.enqueue slot.1 cqid slot.2 commandId nsecsStart nsecsEnqueue ret)
      let s' := { s with
        workers := update s.workers i worker
        slots := update s.slots slot cmd
        used := update s.used slot .dispatched }
      -- if the list of the worker is full, there is no item
      if worker.nrItems = (s.workers i).nrItems then s'
      else { s' with log := s.log ++ [.dispatched (i, (s.workers i).nrItems) cmd] }
    else s
  | .other i action =>
    if Quiet action then { s with workers := update s.workers i (Io.step (s.workers i) action) }
    else s
  | .work i currNsecs => s.work M mapped i currNsecs

end Step

/-- The host puts a command into a slot of an I/O queue whose last command is completed. -/
def HostWaits (s : Sys β) : Action β → Prop
  | .submit slot _ => slot.1 ≠ 0 ∧ s.used slot = .idle
  | _ => True

instance (s : Sys β) : DecidablePred (HostWaits s)
  | .submit _ _ => inferInstanceAs (Decidable (_ ∧ _))
  | .host _ | .store _ _ _ | .refuse _ _ | .dispatch _ _ _ _ _ _ _ _ | .other _ _ | .work _ _ =>
    .isTrue trivial

/-! ## The history of a byte -/

section History

variable (mapped : Nat → Nat)

/-- The address of byte `k` of a command in the storage. -/
def byteAddr (cmd : RwCommand) (k : Nat) : Nat := u64 (mapped (dec32 cmd.nsid) + cmdIoOffset cmd + k)

/-- A command moves the byte at `a` of the storage. -/
def Covers (cmd : RwCommand) (a : Nat) : Prop :=
  ioDir cmd.opcode ≠ .nowhere ∧ a < 2 ^ 64 ∧
    sub64 a (mapped (dec32 cmd.nsid) + cmdIoOffset cmd) < cmdIoSize cmd

instance (cmd : RwCommand) (a : Nat) : Decidable (Covers mapped cmd a) :=
  inferInstanceAs (Decidable (_ ∧ _ ∧ _))

/-- The operations on a byte: the requests that move it, and the stores. -/
abbrev OpId := Nat × Nat ⊕ Nat

/-- What an event is for the byte at `a`. A store of one byte begins and ends with it. -/
def events (a : Nat) : Event → List (History.Event OpId (History.RegisterOp UInt8))
  | .dispatched id cmd => if Covers mapped cmd a then [.invoke (.inl id)] else []
  | .moved id dir addr _ byte =>
    if addr = a then [.effect (.inl id) (if dir = .toHost then .read byte else .write byte)] else []
  | .posted id cmd => if Covers mapped cmd a then [.respond (.inl id)] else []
  | .stored n _ addr byte =>
    if addr = a then [.invoke (.inr n), .effect (.inr n) (.write byte), .respond (.inr n)] else []

/-- The history of the byte at `a` of the storage: the commands that move it, and the stores. -/
def history (a : Nat) (log : List Event) : List (History.Event OpId (History.RegisterOp UInt8)) :=
  log.flatMap (events mapped a)

/-- What an event moves for request `id`. -/
def move? (id : Nat × Nat) : Event → Option (Prp.Dir × Nat)
  | .moved id' dir addr _ _ => if id' = id then some (dir, addr) else none
  | .dispatched _ _ | .posted _ _ | .stored _ _ _ _ => none

/-- What request `id` moved. -/
def moves (id : Nat × Nat) (log : List Event) : List (Prp.Dir × Nat) := log.filterMap (move? id)

end History

end DataPath

end Nvmev
