import NvmeVirt.Kv.Ftl

/-!
# Iterators over the keys

The iterator commands of `kv_ftl.c`. An open puts a context into a slot of `iter_handle` and returns
the number of the slot, a read copies the keys that the iterator selects into the buffer of the
context and the buffer to the host, and a close frees the context. Of the fields of the context only
the ones that a function reads are here.

The buffer of a context comes from `kmalloc`. A read transfers only bytes that it has written, so
what a fresh buffer holds does not matter; here it is 0.
-/

namespace Nvmev

open CInt Bytes Function

/-- `struct nvme_kv_iter_req_command` and `struct nvme_kv_iter_read_command`. -/
structure KvIterCommand where
  opcode : Opcode
  prp1 : Nat := 0
  prp2 : Nat := 0
  iterHandle : Nat := 0
  option : Nat := 0
  iterVal : Nat := 0
  iterBitmask : Nat := 0
  deriving DecidableEq, Repr

/-- `cmd.kv_iter_req.option & ITER_OPTION_OPEN`. -/
def KvIterCommand.optionOpen (cmd : KvIterCommand) : Bool := cmd.option.testBit 0

/-- `cmd.kv_iter_req.option & ITER_OPTION_CLOSE`. -/
def KvIterCommand.optionClose (cmd : KvIterCommand) : Bool := cmd.option.testBit 1

/-- `cmd.kv_iter_req.iter_handle`, of 8 bits. -/
def KvIterCommand.handle (cmd : KvIterCommand) : Nat := cmd.iterHandle % 2 ^ 8

/-- `struct kv_iter_context`. -/
structure KvIterContext where
  /-- `prefix`. -/
  value : Nat
  bitmask : Nat
  currentPos : Nat := 0
  buf : Mem := fun _ => 0

/-- A pointer of `iter_handle`. -/
inductive IterHandle where
  | null
  /-- What the memory of `kv_ftl` held before it was allocated. -/
  | wild
  | context (c : KvIterContext)

def IterHandle.isNull : IterHandle → Bool
  | null => true
  | _ => false

/-- The device, with the array `iter_handle` of `struct kv_ftl`. -/
structure KvIterDev where
  dev : KvDev
  iterHandle : Nat → IterHandle

/-- The pointers of `iter_handle`. -/
def nrIterHandles : Nat := 17

/-- The status at the end of an iteration. -/
def kvIterEnd : Nat := 0x393

/-- The context of a new iterator. -/
def KvIterContext.opened (cmd : KvIterCommand) : KvIterContext where
  value := u32 cmd.iterVal
  bitmask := u32 cmd.iterBitmask

/-- `kv_iter_open`. With no free slot it sets no status. -/
def kvIterOpen (d : KvIterDev) (cmd : KvIterCommand) : KvReply × KvIterDev :=
  match (List.range' 1 16).find? fun iter => (d.iterHandle iter).isNull with
  | none => ({ result := 1 }, d)
  | some iter =>
    ({ status := some 0, result := iter },
      { d with iterHandle := update d.iterHandle iter (.context (.opened cmd)) })

/-- `kv_iter_close`. -/
def kvIterClose (d : KvIterDev) (cmd : KvIterCommand) : Except Bug (KvReply × KvIterDev) :=
  let iter := cmd.handle
  if nrIterHandles ≤ iter then .error (.outOfBounds .kvIterClose)
  else
    match d.iterHandle iter with
    | .null => .ok ({ status := some 0 }, d)
    | .wild => .error (.uninitialized .kvIterClose)
    | .context _ =>
      .ok ({ status := some 0 }, { d with iterHandle := update d.iterHandle iter .null })

/-! ## Reads -/

/-- `keylen`. -/
def iterKeylen : Nat := 16

/-- The first four bytes of the key, as an `unsigned int`. -/
def MappingEntry.keyWord (e : MappingEntry) : Nat :=
  (List.range 4).foldr (fun i acc => (e.key i).toNat + 256 * acc) 0

/-- The slot is used, and its key matches the prefix. -/
def KvIterContext.selects (c : KvIterContext) (e : MappingEntry) : Bool :=
  e.used && e.keyWord &&& c.bitmask == c.value &&& c.bitmask

/-- The variables of the loop of `kv_iter_read`, with `handle->buf`. -/
structure IterScan where
  pos : Nat
  bufOffset : Nat := 4
  nrKeys : Nat := 0
  buf : Mem
  reachedEnd : Bool := false

/-- The length and the bytes of a key are copied into the buffer. -/
def IterScan.record (s : IterScan) (e : MappingEntry) : IterScan :=
  { s with
    buf := copyIn (copyIn s.buf s.bufOffset (wordByte iterKeylen) 4) (s.bufOffset + 4) e.key iterKeylen
    bufOffset := s.bufOffset + 4 + (iterKeylen + 3) / 4 * 4
    nrKeys := s.nrKeys + 1 }

/-- A turn of the loop that does not leave it for a full buffer: the key of the slot is copied if the
iterator selects it, and the next slot follows. -/
def IterScan.turn (s : IterScan) (c : KvIterContext) (e : MappingEntry) : IterScan :=
  let s := if c.selects e then s.record e else s
  { s with pos := s.pos + 1 }

/-- The loop of `kv_iter_read`. Each turn goes to the next slot, so `hash_slots` bounds the turns. -/
def iterScan (t : Nat → MappingEntry) (c : KvIterContext) : Nat → IterScan → IterScan
  | 0, s => s
  | fuel + 1, s =>
    if hashSlots ≤ s.pos then s
    else if c.selects (t s.pos) ∧ s.bufOffset + 4 + iterKeylen > 1024 then s  -- full
    else
      let s := s.turn c (t s.pos)
      if s.pos = hashSlots then { s with reachedEnd := true } else iterScan t c fuel s

/-- `kv_iter_read`. -/
def kvIterRead (d : KvIterDev) (cmd : KvIterCommand) : Except Bug (KvReply × KvIterDev) :=
  let iter := cmd.handle
  if nrIterHandles ≤ iter then .error (.outOfBounds .kvIterRead)
  else
    match d.iterHandle iter with
    | .null => .ok ({}, d)
    | .wild => .error (.uninitialized .kvIterRead)
    | .context c =>
      let s := iterScan d.dev.ftl.table c hashSlots { pos := c.currentPos, buf := c.buf }
      let buf := copyIn s.buf 0 (wordByte s.nrKeys) 4
      let ms := Prp.transfer .kmap cmd.prp1 cmd.prp2 .toHost s.bufOffset {} s.bufOffset 0
        { host := d.dev.ms.host, storage := buf }
      let status := if s.reachedEnd then kvIterEnd else 0
      .ok ({ status := some status, result := s.bufOffset },
        { dev := { d.dev with ms := { d.dev.ms with host := ms.host } }
          iterHandle := update d.iterHandle iter (.context { c with currentPos := s.pos, buf }) })

/-! ## Commands -/

/-- `__do_perform_kv_iter_io`. -/
def doPerformKvIterIo (d : KvIterDev) (cmd : KvIterCommand) : Except Bug (KvReply × KvIterDev) :=
  match cmd.opcode with
  | .kvIterReq =>
    if cmd.optionOpen then .ok (kvIterOpen d cmd)
    else if cmd.optionClose then kvIterClose d cmd
    else .ok ({}, d)
  | .kvIterRead => kvIterRead d cmd
  | _ => .ok ({}, d)

/-- After `kv_init_namespace`, which sets the first 16 pointers of `iter_handle`. The 17th is what
the allocated memory holds: `wild` says whether it is no null pointer. -/
def kvIterInit (storageSize : Nat) (ms : Prp.Memories) (wild : Bool) : KvIterDev where
  dev := kvInit storageSize ms
  iterHandle iter := if iter < 16 then .null else if wild then .wild else .null

end Nvmev
