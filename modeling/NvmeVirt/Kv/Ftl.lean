import Mathlib.Logic.Function.Basic
import NvmeVirt.Io.Prp

/-!
# The key-value FTL

The mapping table of `kv_ftl.c`, the append-only allocator (`append_only.c`) and the command
handler `__do_perform_kv_io`. The table is an array of slots; a collision is put into any free slot,
which is chained to the last slot of the chain that starts at the hash of the key.

A key of a command is the list of the `key_len + 1` bytes from `key` on, up to 256; 16 of them are in the
command. A slot has 48 bytes, and its first 18 are for the key. Neither the copy of a key into a slot nor a
comparison looks at the 18: they go on over the padding and the numbers of the slot. The numbers
`mem_offset` and `length` are stored after the copy, so that a key of up to 40 bytes does no harm to the
links. A longer one overwrites `next_slot`, and from 49 bytes on the next slot; there the run stops. A
comparison beyond the slot is not followed.

A loop that would not end within `hash_slots` turns does not end at all: it would come to a slot twice.
-/

namespace Nvmev

open CInt Bytes Function

/-- `hash_slots`: 1 GiB of `struct mapping_entry`, of 48 bytes each. -/
def hashSlots : Nat := 2 ^ 30 / 48

/-- The value -1 of a `size_t`. -/
def noOffset : Nat := 2 ^ 64 - 1

/-- The value -1 of an `unsigned int`. -/
def noSlot : Nat := 2 ^ 32 - 1

/-- `SMALL_LENGTH`. -/
def smallLength : Nat := 1024

/-- `KV_ERR_KEY_NOT_EXIST`. -/
def kvErrKeyNotExist : Nat := 0x310

/-- The bytes of a slot that `mem_offset` comes after: the 18 bytes of `key`, and the padding. -/
def keyRoom : Nat := 24

/-- The bytes of a slot that `next_slot` comes after. -/
def linkOffset : Nat := 40

/-- The bytes of a key. -/
abbrev Key := List UInt8

/-- `struct mapping_entry`. -/
structure MappingEntry where
  /-- The bytes from `key` on, apart from the numbers. -/
  key : Nat → UInt8
  memOffset : Nat
  length : Nat
  nextSlot : Nat

/-- `struct kv_ftl`, with the static variable `latest` of the allocator and `storage_size`. -/
structure KvFtl where
  table : Nat → MappingEntry
  latest : Nat
  storageSize : Nat

/-- `struct nvme_kv_command`: the fields of a store, retrieve, exist or delete command. -/
structure KvCommand where
  opcode : Opcode
  key : Key
  /-- The length of the value, in words. -/
  valueLen : Nat := 0
  prp1 : Nat := 0
  prp2 : Nat := 0
  deriving DecidableEq, Repr

/-- `cmd_value_length`. -/
def KvCommand.valueLength (cmd : KvCommand) : Nat := u32 (cmd.valueLen <<< 2)

/-- `hash_function`. -/
def hashFunction (key : Key) : Nat :=
  key.foldl (fun h p => u32 (h * 16777619) ^^^ p.toNat) 2166136261

/-- `get_hash_slot`. -/
def getHashSlot (key : Key) : Nat := hashFunction key % hashSlots

/-! ## The table -/

/-- The slot holds a mapping: `mem_offset != -1`. -/
def MappingEntry.used (e : MappingEntry) : Bool := e.memOffset != noOffset

/-- Byte `i` of the slot. The numbers have 8, 8 and 4 bytes. -/
def MappingEntry.byte (e : MappingEntry) (i : Nat) : UInt8 :=
  if i < keyRoom ∨ linkOffset + 4 ≤ i then e.key i
  else if i < keyRoom + 8 then wordByte e.memOffset (i - keyRoom)
  else if i < linkOffset then wordByte e.length (i - (keyRoom + 8))
  else wordByte e.nextSlot (i - linkOffset)

/-- `memcmp(key, e.key, key_len) == 0`. -/
def MappingEntry.agrees (e : MappingEntry) (key : Key) : Bool :=
  (List.range key.length).map e.byte == key

/-- `memset(e, -1, sizeof(struct mapping_entry))`. -/
def MappingEntry.cleared : MappingEntry :=
  { key := fun _ => 0xff, memOffset := noOffset, length := noOffset, nextSlot := noSlot }

section Table

variable (t : Nat → MappingEntry)

/-- The loop that looks a key up, from `slot` on. -/
def searchFrom (key : Key) : Nat → Nat → Except Bug (Option Nat)
  | 0, _ => .error (.endlessLoop .getMappingEntry)
  | fuel + 1, slot =>
    if (t slot).used = false then .ok none
    else if (t slot).agrees key then .ok (some slot)
    else if (t slot).nextSlot = noSlot then .ok none
    else searchFrom key fuel (t slot).nextSlot

/-- The slot of a key. -/
def search (key : Key) : Except Bug (Option Nat) :=
  searchFrom t key (hashSlots + 1) (getHashSlot key)

/-- The first loop of `find_next_slot`: the last used slot of the chain from `tail` on. -/
def findTail : Nat → Nat → Nat → Except Bug Nat
  | 0, _, _ => .error (.endlessLoop .findNextSlot)
  | fuel + 1, tail, prevs =>
    if (t tail).used = false then .ok prevs
    else if (t tail).nextSlot = noSlot then .ok tail
    else findTail fuel (t tail).nextSlot tail

/-- The second loop of `find_next_slot`: the first free slot from `slot` on. -/
def findFree : Nat → Nat → Except Bug Nat
  | 0, _ => .error (.endlessLoop .findNextSlot)
  | fuel + 1, slot =>
    if (t slot).used = false then .ok slot
    else findFree fuel (if hashSlots ≤ slot + 1 then 0 else slot + 1)

/-- `find_next_slot`: the free slot, and the slot it is chained to. -/
def findNextSlot (originalSlot : Nat) : Except Bug (Nat × Nat) := do
  let prevSlot ← findTail t (hashSlots + 1) originalSlot noSlot
  let slot ← findFree t (hashSlots + 1) prevSlot
  pure (slot, prevSlot)

/-- A new mapping in `slot`: the bytes after `key`, and the link, stay. -/
def setMapping (slot : Nat) (key : Key) (memOffset length : Nat) : Nat → MappingEntry :=
  update t slot
    { t slot with
      key := fun i => if i < key.length then key.getD i 0 else (t slot).key i
      memOffset
      length }

/-- `chain_mapping`. -/
def chainMapping (prev slot : Nat) : Nat → MappingEntry :=
  update t prev { t prev with nextSlot := slot }

end Table

/-- The `memcpy` of a key into a slot comes to the link. -/
def copyKey (key : Key) (site : Site) : Except Bug Unit :=
  Outcome.ensure (key.length ≤ linkOffset) (.outOfBounds site)

/-- `new_mapping_entry`. -/
def newMappingEntry (f : KvFtl) (cmd : KvCommand) (valOffset : Nat) : Except Bug KvFtl := do
  nvmevAssert (valOffset < f.storageSize) .newMappingEntry
  let home := getHashSlot cmd.key
  if (f.table home).used then
    let (slot, prevSlot) ← findNextSlot f.table home
    copyKey cmd.key .newMappingEntry
    let table := setMapping f.table slot cmd.key valOffset cmd.valueLength
    pure { f with table := chainMapping table prevSlot slot }
  else
    copyKey cmd.key .newMappingEntry
    pure { f with table := setMapping f.table home cmd.key valOffset cmd.valueLength }

/-- `update_mapping_entry`. -/
def updateMappingEntry (f : KvFtl) (cmd : KvCommand) : Except Bug KvFtl := do
  match ← search f.table cmd.key with
  | none => pure f
  | some slot =>
    pure { f with table := update f.table slot { f.table slot with length := cmd.valueLength } }

/-- `get_mapping_entry`: the offset and the length of the mapping. -/
def getMappingEntry (f : KvFtl) (key : Key) : Except Bug (Option (Nat × Nat)) := do
  match ← search f.table key with
  | none => pure none
  | some slot => pure (some ((f.table slot).memOffset, (f.table slot).length))

/-- `delete_mapping_entry`. -/
def deleteMappingEntry (f : KvFtl) (key : Key) : Except Bug KvFtl := do
  match ← search f.table key with
  | none => pure f
  | some slot => pure { f with table := update f.table slot .cleared }

/-- `allocate_mem_offset` with `append_only_allocate`. -/
def allocateMemOffset (f : KvFtl) (cmd : KvCommand) : Nat × KvFtl :=
  let ret := f.latest
  let f := { f with latest := u64 (f.latest + cmd.valueLength) }
  (if ret = noOffset then 0 else ret, f)

/-! ## Commands -/

/-- The FTL, the host memory and the storage. -/
structure KvDev where
  ftl : KvFtl
  ms : Prp.Memories

/-- The status that a handler sets, if it does, and its return value. -/
structure KvReply where
  status : Option Nat := none
  result : Nat := 0
  deriving DecidableEq, Repr

/-- The copy loop of `__do_perform_kv_io`. -/
def kvTransfer (cmd : KvCommand) (dir : Prp.Dir) (length offset : Nat) (ms : Prp.Memories) :
    Prp.Memories :=
  Prp.transfer .kmap cmd.prp1 cmd.prp2 dir length {} length offset ms

/-- `__do_perform_kv_io` on a store command. -/
def kvStore (d : KvDev) (cmd : KvCommand) : Except Bug KvDev := do
  let length := cmd.valueLength
  match ← getMappingEntry d.ftl cmd.key with
  | none =>
    let (offset, ftl) := allocateMemOffset d.ftl cmd
    let ms := kvTransfer cmd .toStorage length offset d.ms
    let ftl ← newMappingEntry ftl cmd offset
    pure { ftl, ms }
  | some (offset, entryLength) =>
    let ms := kvTransfer cmd .toStorage length offset d.ms
    if length ≠ entryLength ∧ length ≤ smallLength ∧ entryLength ≤ smallLength then
      let ftl ← updateMappingEntry d.ftl cmd
      pure { ftl, ms }
    else pure { d with ms }

/-- `__do_perform_kv_io`. -/
def doPerformKvIo (d : KvDev) (cmd : KvCommand) : Except Bug (KvReply × KvDev) := do
  match cmd.opcode with
  | .kvStore =>
    let d ← kvStore d cmd
    pure ({}, d)
  | .kvRetrieve =>
    match ← getMappingEntry d.ftl cmd.key with
    | none => pure ({ status := some kvErrKeyNotExist }, d)
    | some (offset, entryLength) =>
      let length := min entryLength cmd.valueLength
      pure ({ result := length }, { d with ms := kvTransfer cmd .toHost length offset d.ms })
  | .kvExist =>
    match ← getMappingEntry d.ftl cmd.key with
    | none => pure ({ status := some kvErrKeyNotExist }, d)
    | some _ => pure ({}, d)
  | .kvDelete =>
    match ← getMappingEntry d.ftl cmd.key with
    | none => pure ({ status := some kvErrKeyNotExist }, d)
    | some _ =>
      let ftl ← deleteMappingEntry d.ftl cmd.key
      pure ({}, { d with ftl })
  | _ => pure ({}, d)

/-- After `kv_init_namespace`. -/
def kvInit (storageSize : Nat) (ms : Prp.Memories) : KvDev where
  ftl :=
    { table := fun _ =>
        { key := fun _ => 0, memOffset := noOffset, length := noOffset, nextSlot := noSlot }
      latest := 0
      storageSize }
  ms

end Nvmev
