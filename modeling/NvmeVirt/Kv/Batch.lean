import NvmeVirt.Kv.Store

/-!
# Batched stores

`__do_perform_kv_batched_io` stores the value of one sub-command of a batch. It has its own copies
of the functions of a single store, which take the key, its length and the length of the value in
place of the command. It leaves the mapping table and the storage as the single store does, except
when it finds the key with another length and both lengths are small: the single store then records
the new length, and the batched one does not (`batched_store_same_iff`).
-/

namespace Nvmev

open Function Outcome CInt Bytes

/-- The `keyLen` bytes at `key`. -/
def keyBytes (key : Nat → UInt8) (keyLen : Nat) : Key := (List.range keyLen).map key

/-- `new_mapping_entry_by_key`. -/
def newMappingEntryByKey (f : KvFtl) (key : Nat → UInt8) (keyLen valLen valOffset : Nat) :
    Except Bug KvFtl := do
  nvmevAssert (valOffset < f.storageSize) .newMappingEntryByKey
  let home := getHashSlot (keyBytes key keyLen)
  if (f.table home).used then
    let (slot, prevSlot) ← findNextSlot f.table home
    copyKey (keyBytes key keyLen) .newMappingEntryByKey
    let table := setMapping f.table slot (keyBytes key keyLen) valOffset (ulong valLen)
    pure { f with table := chainMapping table prevSlot slot }
  else
    copyKey (keyBytes key keyLen) .newMappingEntryByKey
    pure { f with table := setMapping f.table home (keyBytes key keyLen) valOffset (ulong valLen) }

/-- `get_mapping_entry_by_key`: the offset and the length of the mapping. -/
def getMappingEntryByKey (f : KvFtl) (key : Nat → UInt8) (keyLen : Nat) :
    Except Bug (Option (Nat × Nat)) := do
  match ← search f.table (keyBytes key keyLen) with
  | none => pure none
  | some slot => pure (some ((f.table slot).memOffset, (f.table slot).length))

/-- `allocate_mem_offset_by_length` with `append_only_allocate`. -/
def allocateMemOffsetByLength (f : KvFtl) (valLen : Nat) : Nat × KvFtl :=
  let ret := f.latest
  let f := { f with latest := u64 (f.latest + ulong valLen) }
  (if ret = noOffset then 0 else ret, f)

/-- `__do_perform_kv_batched_io`, which returns 0. -/
def doPerformKvBatchedIo (d : KvDev) (opcode : Opcode) (key : Nat → UInt8) (keyLen : Nat)
    (value : Nat → UInt8) (valLen : Nat) : Except Bug KvDev := do
  if opcode ≠ .kvStore then pure d
  else
    let (isInsert, offset, ftl) := match ← getMappingEntryByKey d.ftl key keyLen with
      | none =>
        let (newOffset, ftl) := allocateMemOffsetByLength d.ftl valLen
        (1, newOffset, ftl)
      | some (offset, entryLength) =>
        if ulong valLen ≠ entryLength ∧ int32 valLen ≤ smallLength ∧ entryLength ≤ smallLength then
          (2, offset, d.ftl)
        else (0, offset, d.ftl)
    let ms := { d.ms with storage := copyIn d.ms.storage offset value (ulong valLen) }
    -- Nothing is done about an update with another length, 2.
    if isInsert = 1 then
      let ftl ← newMappingEntryByKey ftl key keyLen valLen offset
      pure { ftl, ms }
    else pure { ftl, ms }

/-! ## The two stores -/

/-- The table and the storage. -/
def KvDev.contents (d : KvDev) : (Nat → MappingEntry) × Mem := (d.ftl.table, d.ms.storage)

/-- Both stores stop, or both leave the same table and the same storage. -/
def SameContents (single : Except Bug (KvReply × KvDev)) (batched : Except Bug KvDev) : Prop :=
  single.toOption.map (fun r => r.2.contents) = batched.toOption.map KvDev.contents

/-- The arguments of the batched store are the key and the value of the command `cmd`, whose value
is in the memory `host`. -/
structure SameArguments (cmd : KvCommand) (host : Mem) (key : Nat → UInt8) (keyLen : Nat)
    (value : Nat → UInt8) (valLen : Nat) : Prop where
  key : keyBytes key keyLen = cmd.key
  length : valLen = cmd.valueLength
  value : ∀ i < valLen, value i = host (cmd.valueAddr host i)

/-- The store finds its key with another length, and both lengths are small. -/
def ChangesLength (t : Nat → MappingEntry) (cmd : KvCommand) : Prop :=
  ∃ slot, search t cmd.key = .ok (some slot) ∧ cmd.valueLength ≠ (t slot).length ∧
    cmd.valueLength ≤ smallLength ∧ (t slot).length ≤ smallLength

section

variable {d : KvDev} {cmd : KvCommand} {key value : Nat → UInt8} {keyLen valLen : Nat}

theorem allocateMemOffsetByLength_eq (f : KvFtl) (h : ulong valLen = cmd.valueLength) :
    allocateMemOffsetByLength f valLen = allocateMemOffset f cmd := by
  unfold allocateMemOffsetByLength allocateMemOffset
  rw [h]

/-- After the copy of a key, the place where it stops makes no difference. -/
theorem toOption_copyKey {α : Type} (key : Key) (site site' : Site) (rest : Except Bug α) :
    (copyKey key site >>= fun _ => rest).toOption = (copyKey key site' >>= fun _ => rest).toOption := by
  unfold copyKey
  by_cases h : key.length ≤ linkOffset
  · rw [ensure_of _ h, ensure_of _ h]
  · simp [ensure, h, bind, Except.bind, Except.toOption]

/-- The two functions that make an entry differ in the place where they stop. -/
theorem newMappingEntryByKey_eq (f : KvFtl) (valOffset : Nat) (hkey : keyBytes key keyLen = cmd.key)
    (hlen : ulong valLen = cmd.valueLength) :
    (newMappingEntryByKey f key keyLen valLen valOffset).toOption =
      (newMappingEntry f cmd valOffset).toOption := by
  unfold newMappingEntryByKey newMappingEntry
  rw [hkey, hlen]
  by_cases h : valOffset < f.storageSize
  · rw [nvmevAssert, nvmevAssert, ensure_of _ h, ensure_of _ h, ok_bind, ok_bind]
    dsimp only
    split
    · cases findNextSlot f.table (getHashSlot cmd.key) with
      | error e => rfl
      | ok r => exact toOption_copyKey cmd.key _ _ _
    · exact toOption_copyKey cmd.key _ _ _
  · simp [nvmevAssert, ensure, h, bind, Except.bind, Except.toOption]

/-- A batched store of a key that is not found. -/
theorem doPerformKvBatchedIo_insert (hs : search d.ftl.table (keyBytes key keyLen) = .ok none) :
    doPerformKvBatchedIo d .kvStore key keyLen value valLen = (do
      let ftl ← newMappingEntryByKey (allocateMemOffsetByLength d.ftl valLen).2 key keyLen valLen
        (allocateMemOffsetByLength d.ftl valLen).1
      let storage := copyIn d.ms.storage (allocateMemOffsetByLength d.ftl valLen).1 value
        (ulong valLen)
      pure { ftl, ms := { d.ms with storage } }) := by
  unfold doPerformKvBatchedIo getMappingEntryByKey
  rw [hs]
  rfl

/-- A batched store of a key that is found. -/
theorem doPerformKvBatchedIo_update {slot : Nat}
    (hs : search d.ftl.table (keyBytes key keyLen) = .ok (some slot)) :
    doPerformKvBatchedIo d .kvStore key keyLen value valLen = .ok { d with
      ms := { d.ms with
        storage := copyIn d.ms.storage (d.ftl.table slot).memOffset value (ulong valLen) } } := by
  unfold doPerformKvBatchedIo getMappingEntryByKey
  rw [hs, if_neg (by simp), ok_bind]
  by_cases hc : ulong valLen ≠ (d.ftl.table slot).length ∧ int32 valLen ≤ smallLength ∧
      (d.ftl.table slot).length ≤ smallLength
  · simp [pure, Except.pure, hc]
  · simp [pure, Except.pure, hc]

/-- Both copy the same bytes. -/
theorem SameArguments.storage (h : SameArguments cmd d.ms.host key keyLen value valLen)
    (hlen : ulong valLen = cmd.valueLength) (offset : Nat) :
    (kvTransfer cmd .toStorage cmd.valueLength offset d.ms).storage =
      copyIn d.ms.storage offset value (ulong valLen) := by
  rw [kvTransfer_toStorage, hlen]
  refine copyIn_congr fun k hk => (h.value k ?_).symm
  rw [h.length]
  exact hk

/-- The stores of a key that is not found do the same. -/
theorem sameContents_insert (h : SameArguments cmd d.ms.host key keyLen value valLen)
    (hlen : ulong valLen = cmd.valueLength) (hs : search d.ftl.table cmd.key = .ok none) :
    SameContents (do let d ← kvStore d cmd; pure ({}, d))
      (doPerformKvBatchedIo d .kvStore key keyLen value valLen) := by
  have hnew := newMappingEntryByKey_eq (allocateMemOffset d.ftl cmd).2 (allocateMemOffset d.ftl cmd).1
    h.key hlen
  unfold SameContents
  rw [kvStore_insert hs, doPerformKvBatchedIo_insert (by rw [h.key]; exact hs),
    allocateMemOffsetByLength_eq d.ftl hlen]
  -- Both make the same entry, or both stop.
  cases hbatched : newMappingEntryByKey (allocateMemOffset d.ftl cmd).2 key keyLen valLen
      (allocateMemOffset d.ftl cmd).1 with
  | error e =>
    cases hsingle : newMappingEntry (allocateMemOffset d.ftl cmd).2 cmd
        (allocateMemOffset d.ftl cmd).1 with
    | error e' => rfl
    | ok f => simp [hbatched, hsingle, Except.toOption] at hnew
  | ok f =>
    cases hsingle : newMappingEntry (allocateMemOffset d.ftl cmd).2 cmd
        (allocateMemOffset d.ftl cmd).1 with
    | error e' => simp [hbatched, hsingle, Except.toOption] at hnew
    | ok f' =>
      obtain rfl : f = f' := by simpa [hbatched, hsingle, Except.toOption] using hnew
      simp only [ok_bind, pure, Except.pure, Except.toOption, Option.map_some, KvDev.contents,
        h.storage hlen]

/-- The stores of a key that is found do the same exactly when its length stays. -/
theorem sameContents_update {slot : Nat} (h : SameArguments cmd d.ms.host key keyLen value valLen)
    (hlen : ulong valLen = cmd.valueLength) (hs : search d.ftl.table cmd.key = .ok (some slot)) :
    SameContents (do let d ← kvStore d cmd; pure ({}, d))
        (doPerformKvBatchedIo d .kvStore key keyLen value valLen) ↔
      updatedTable d.ftl.table slot cmd.valueLength = d.ftl.table := by
  unfold SameContents
  rw [kvStore_update hs, doPerformKvBatchedIo_update (by rw [h.key]; exact hs)]
  simp only [ok_bind, pure, Except.pure, Except.toOption, Option.map_some, KvDev.contents,
    h.storage hlen, Option.some.injEq, Prod.mk.injEq, and_true]

theorem updatedTable_eq_self {t : Nat → MappingEntry} {slot length : Nat} :
    updatedTable t slot length = t ↔
      ¬ (length ≠ (t slot).length ∧ length ≤ smallLength ∧ (t slot).length ≤ smallLength) := by
  unfold updatedTable
  split
  · rename_i hc
    refine ⟨fun he => absurd ?_ hc.1, fun hn => absurd hc hn⟩
    have := congrArg MappingEntry.length (congrFun he slot)
    rwa [update_self] at this
  · rename_i hc
    exact ⟨fun _ => hc, fun _ => rfl⟩

/-- In every state, a batched store and the single store of the same key and value leave the same
table and the same storage exactly when the store does not change the length of a key. -/
theorem batched_store_same_iff (hop : cmd.opcode = .kvStore) (hle : cmd.valueLength ≤ pageSize)
    (h : SameArguments cmd d.ms.host key keyLen value valLen) :
    SameContents (doPerformKvIo d cmd) (doPerformKvBatchedIo d .kvStore key keyLen value valLen) ↔
      ¬ ChangesLength d.ftl.table cmd := by
  have hlen : ulong valLen = cmd.valueLength := by
    rw [h.length]
    exact ulong_of_lt (by unfold pageSize at hle; omega)
  rw [doPerformKvIo_store hop]
  cases hs : search d.ftl.table cmd.key with
  | error e =>
    refine ⟨?_, fun _ => ?_⟩
    · rintro - ⟨slot, hslot, -⟩
      rw [hs] at hslot
      cases hslot
    · have hsingle : kvStore d cmd = .error e := by
        unfold kvStore getMappingEntry
        rw [hs]
        rfl
      have hbatched : doPerformKvBatchedIo d .kvStore key keyLen value valLen = .error e := by
        unfold doPerformKvBatchedIo getMappingEntryByKey
        rw [h.key, hs]
        rfl
      unfold SameContents
      rw [hsingle, hbatched]
      rfl
  | ok r =>
    cases r with
    | none =>
      refine ⟨?_, fun _ => sameContents_insert h hlen hs⟩
      rintro - ⟨slot, hslot, -⟩
      rw [hs] at hslot
      cases hslot
    | some slot =>
      rw [sameContents_update h hlen hs, updatedTable_eq_self]
      refine not_congr ⟨fun hc => ⟨slot, hs, hc⟩, ?_⟩
      rintro ⟨slot', hslot, hc⟩
      obtain rfl : slot = slot' := by simpa [hs] using hslot
      exact hc

end

/-- A key with a value of 4 bytes is stored again with other 4 bytes. -/
theorem batched_store_same_update :
    Total (kvRun (kvInit (2 ^ 30) ⟨countingHost, fun _ => 0⟩) [storeAt 97 0 1]) fun d =>
      SameContents (doPerformKvIo d (storeAt 97 16 1))
        (doPerformKvBatchedIo d .kvStore (fun _ => 97) 1 (fun i => countingHost (16 + i)) 4) := by
  obtain ⟨d, hrun, hs, hlen, hvalue⟩ :
      Total (kvRun (kvInit (2 ^ 30) ⟨countingHost, fun _ => 0⟩) [storeAt 97 0 1]) fun d =>
        search d.ftl.table [97] = .ok (some (getHashSlot [97])) ∧
          (d.ftl.table (getHashSlot [97])).length = 4 ∧
          ∀ i < 4, countingHost (16 + i) = d.ms.host ((storeAt 97 16 1).valueAddr d.ms.host i) := by
    decide +kernel
  have hargs : SameArguments (storeAt 97 16 1) d.ms.host (fun _ => 97) 1 (fun i => countingHost (16 + i)) 4 :=
    ⟨rfl, rfl, hvalue⟩
  refine ⟨d, hrun, (batched_store_same_iff rfl (by decide) hargs).mpr ?_⟩
  rintro ⟨slot, hslot, hne, -⟩
  have hslot : search d.ftl.table [97] = .ok (some slot) := hslot
  rw [hs] at hslot
  cases hslot
  exact hne hlen.symm

/-- A key with a value of 4 bytes is stored again with 8 bytes. A retrieve returns 8 bytes after the
single store, and 4 bytes after the batched one. -/
theorem batched_update_keeps_length :
    Total (kvRun (kvInit (2 ^ 30) ⟨countingHost, fun _ => 0⟩) [storeAt 97 0 1]) fun d =>
      SameArguments (storeAt 97 0 2) d.ms.host (fun _ => 97) 1 countingHost 8 ∧
      ¬ SameContents (doPerformKvIo d (storeAt 97 0 2))
        (doPerformKvBatchedIo d .kvStore (fun _ => 97) 1 countingHost 8) := by
  obtain ⟨d, hrun, hs, hlen, hvalue⟩ :
      Total (kvRun (kvInit (2 ^ 30) ⟨countingHost, fun _ => 0⟩) [storeAt 97 0 1]) fun d =>
        search d.ftl.table [97] = .ok (some (getHashSlot [97])) ∧
          (d.ftl.table (getHashSlot [97])).length = 4 ∧
          ∀ i < 8, countingHost i = d.ms.host ((storeAt 97 0 2).valueAddr d.ms.host i) := by
    decide +kernel
  have hargs : SameArguments (storeAt 97 0 2) d.ms.host (fun _ => 97) 1 countingHost 8 :=
    ⟨rfl, rfl, hvalue⟩
  refine ⟨d, hrun, hargs, ?_⟩
  rw [doPerformKvIo_store rfl, sameContents_update hargs rfl hs, updatedTable_eq_self, hlen]
  decide

end Nvmev
