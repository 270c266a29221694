import NvmeVirt.Kv.Insert

/-!
# The walks of the mapping table end

The lookups of `kv_ftl.c` and `find_next_slot` follow `next_slot` with no bound. A delete leaves the
links to the slot that it clears; when the slot is filled again, with any key, these links lead to
the new entry. In every run of insertions, updates and deletes with a free slot for each insertion, and
whose keys end before the links, no chain comes back to a slot, so none of the loops goes on forever
(`walks_end`). A longer key can link its slot to itself (`walks_end_long_key`).
-/

namespace Nvmev

open Function Outcome Chains

/-- A call of a function that changes the mapping table. -/
inductive TableOp where
  | insert (i : Insertion)
  | update (cmd : KvCommand)
  | delete (key : Key)

/-- A slot is free. -/
def FreeSlot (t : Nat → MappingEntry) : Prop := ∃ slot < hashSlots, (t slot).used = false

namespace TableOp

def run (f : KvFtl) : TableOp → Except Bug KvFtl
  | insert i => i.run f
  | update cmd => updateMappingEntry f cmd
  | delete key => deleteMappingEntry f key

/-- An insertion has a free slot. -/
def HasFree (f : KvFtl) : TableOp → Prop
  | insert _ => FreeSlot f.table
  | _ => True

end TableOp

/-- The copy of the key of an insertion ends before the link. -/
def TableOp.KeyFits : TableOp → Prop
  | insert i => i.KeyFits
  | _ => True

/-- A loop that does not end, or a copy over a link. -/
def Bug.Lost (b : Bug) : Prop := ∃ site, b = .endlessLoop site ∨ b = .outOfBounds site

/-- The chain of every slot has no slot twice, and the loops that walk the table end. -/
structure WalksEnd (f : KvFtl) : Prop where
  chains : ∀ slot < hashSlots, ∃ l, SlotChain f.table slot l ∧ l.Nodup
  get : ∀ key, ∃ m, getMappingEntry f key = .ok m
  getByKey : ∀ key keyLen, ∃ m, getMappingEntryByKey f key keyLen = .ok m
  update : ∀ cmd, ∃ f', updateMappingEntry f cmd = .ok f'
  delete : ∀ key, ∃ f', deleteMappingEntry f key = .ok f'
  tail : ∀ slot < hashSlots, ∀ prevs, ∃ p, findTail f.table (hashSlots + 1) slot prevs = .ok p
  free : FreeSlot f.table → ∀ slot < hashSlots, ∃ r, findFree f.table (hashSlots + 1) slot = .ok r
  insert : FreeSlot f.table → ∀ i : Insertion, i.KeyFits → i.offset < f.storageSize →
    ∃ f', i.run f = .ok f'

section

variable {t : Nat → MappingEntry} {f f' : KvFtl} {i : Insertion} {op : TableOp}

/-! ## One state -/

theorem TableInv.findTail (h : TableInv t) {slot : Nat} (hs : slot < hashSlots) (prevs : Nat) :
    ∃ p, Nvmev.findTail t (hashSlots + 1) slot prevs = .ok p := by
  obtain ⟨l, hc, -, hl, -⟩ := h.slotChain hs
  exact ⟨_, findTail_eq hc (by omega) prevs⟩

/-- The two lookup functions are one. -/
theorem getMappingEntryByKey_eq (f : KvFtl) (key : Nat → UInt8) (keyLen : Nat) :
    getMappingEntryByKey f key keyLen = getMappingEntry f (keyBytes key keyLen) := rfl

/-- The walks end where no chain comes back to a slot. -/
theorem TableInv.walksEnd (h : TableInv f.table) (hsize : f.storageSize < 2 ^ 64) : WalksEnd f where
  chains slot hs := by
    obtain ⟨l, hc, hn, -⟩ := h.slotChain hs
    exact ⟨l, hc, hn⟩
  get key := by
    obtain ⟨r, hs⟩ := h.search key
    exact ⟨_, getMappingEntry_eq hs⟩
  getByKey key keyLen := by
    obtain ⟨r, hs⟩ := h.search (keyBytes key keyLen)
    rw [getMappingEntryByKey_eq]
    exact ⟨_, getMappingEntry_eq hs⟩
  update cmd := by
    obtain ⟨r, hs⟩ := h.search cmd.key
    exact ⟨_, updateMappingEntry_eq hs⟩
  delete key := by
    obtain ⟨r, hs⟩ := h.search key
    exact ⟨_, deleteMappingEntry_eq hs⟩
  tail _ hs prevs := h.findTail hs prevs
  free hfree _ hs := findFree_returns hfree hs
  insert hfree i hkey hv := by
    obtain ⟨f', hf', -⟩ := Insertion.run_spec h hsize ⟨hv, hfree⟩ hkey
    exact ⟨f', hf'⟩

/-! ## Runs -/

/-- An insertion outside the storage stops at the assertion. -/
theorem Insertion.run_stops (hv : ¬ i.offset < f.storageSize) :
    ∃ site, i.run f = .error (.assertion site) := by
  cases i with
  | byCommand cmd valOffset =>
    refine ⟨.newMappingEntry, ?_⟩
    change newMappingEntry f cmd valOffset = _
    change ¬ valOffset < f.storageSize at hv
    unfold newMappingEntry nvmevAssert ensure
    rw [if_neg hv]
    rfl
  | byKey key keyLen valLen valOffset =>
    refine ⟨.newMappingEntryByKey, ?_⟩
    change newMappingEntryByKey f key keyLen valLen valOffset = _
    change ¬ valOffset < f.storageSize at hv
    unfold newMappingEntryByKey nvmevAssert ensure
    rw [if_neg hv]
    rfl

/-- A new length is a change of the lengths only. -/
theorem update_length (t : Nat → MappingEntry) (slot length : Nat) :
    update t slot { t slot with length } =
      withLengths t (update (fun j => (t j).length) slot length) := by
  funext j
  by_cases hj : j = slot
  · subst hj
    simp [withLengths]
  · simp [withLengths, hj]

theorem tableInv_updateMappingEntry (h : TableInv f.table) (cmd : KvCommand) :
    Total (updateMappingEntry f cmd) fun f' =>
      TableInv f'.table ∧ f'.storageSize = f.storageSize := by
  obtain ⟨r, hs⟩ := h.search cmd.key
  rw [updateMappingEntry_eq hs]
  cases r with
  | none => exact .ret ⟨h, rfl⟩
  | some slot =>
    have hkeep := h.withLengths (update (fun j => (f.table j).length) slot cmd.valueLength)
    rw [← update_length] at hkeep
    exact .ret ⟨hkeep, rfl⟩

theorem tableInv_deleteMappingEntry (h : TableInv f.table) (key : Key) :
    Total (deleteMappingEntry f key) fun f' =>
      TableInv f'.table ∧ f'.storageSize = f.storageSize := by
  obtain ⟨r, hs⟩ := h.search key
  rw [deleteMappingEntry_eq hs]
  cases r with
  | none => exact .ret ⟨h, rfl⟩
  | some slot => exact .ret ⟨h.clear slot, rfl⟩

/-- One call with a free slot for an insertion keeps the chains, if its key fits. -/
theorem TableOp.run_avoids (h : TableInv f.table) (hsize : f.storageSize < 2 ^ 64)
    (hfree : op.HasFree f) (hkey : op.KeyFits) :
    Avoids Bug.Lost (op.run f) fun f' =>
      TableInv f'.table ∧ f'.storageSize = f.storageSize := by
  cases op with
  | insert i =>
    by_cases hv : i.offset < f.storageSize
    · obtain ⟨f', hf', t', slot, rfl, hins⟩ := Insertion.run_spec h hsize ⟨hv, hfree⟩ hkey
      change Avoids _ (i.run f) _
      rw [hf']
      exact .ret ⟨hins.inv, rfl⟩
    · obtain ⟨site, hstop⟩ := Insertion.run_stops hv
      change Avoids _ (i.run f) _
      rw [hstop]
      apply Avoids.error
      rintro ⟨site', hsite | hsite⟩ <;> cases hsite
  | update cmd =>
    obtain ⟨f', hf', hkeep⟩ := tableInv_updateMappingEntry h cmd
    change Avoids _ (updateMappingEntry f cmd) _
    rw [hf']
    exact .ret hkeep
  | delete key =>
    obtain ⟨f', hf', hkeep⟩ := tableInv_deleteMappingEntry h key
    change Avoids _ (deleteMappingEntry f key) _
    rw [hf']
    exact .ret hkeep

/-- In every run of insertions, updates and deletes of the mapping table with a free slot for each
insertion, and keys that fit, no call has a loop that goes on forever, and in every state that it reaches
no chain comes back to a slot and all the walks end. -/
theorem walks_end {storageSize : Nat} (hsize : storageSize < 2 ^ 64) (ms : Prp.Memories)
    {ops : List TableOp}
    (hfree : Always TableOp.run TableOp.HasFree (kvInit storageSize ms).ftl ops)
    (hkeys : ∀ op ∈ ops, op.KeyFits) :
    Avoids Bug.Lost (ops.foldlM TableOp.run (kvInit storageSize ms).ftl) WalksEnd := by
  have hrun : Avoids Bug.Lost (ops.foldlM TableOp.run (kvInit storageSize ms).ftl) fun f =>
      TableInv f.table ∧ f.storageSize = storageSize := by
    refine Avoids.always ⟨tableInv_kvInit _ _, rfl⟩ hfree ?_
    rintro f ⟨h, hs⟩ op hmem hop
    have hstep := TableOp.run_avoids h (by rw [hs]; exact hsize) hop (hkeys op hmem)
    rwa [hs] at hstep
  refine hrun.mono ?_
  rintro f ⟨h, hs⟩
  exact h.walksEnd (by rw [hs]; exact hsize)

end

/-- Entries for "akcl" and "imxa", which have one hash slot, the delete of "imxa", and an entry for
"akcm", which goes to the slot that the delete freed: the link from "akcl" leads to it. -/
def reusingOps : List TableOp :=
  collidingInsertions.map .insert ++
    [.delete [105, 109, 120, 97], .insert (.byCommand (storeCommand [97, 107, 99, 109] 1) 8)]

theorem walks_end_reusing :
    Avoids Bug.Lost (reusingOps.foldlM TableOp.run (kvInit (2 ^ 30) ⟨fun _ => 0, fun _ => 0⟩).ftl)
      WalksEnd := by
  have hfirst : Always TableOp.run (fun f _ => (f.table 0).used = false)
      (kvInit (2 ^ 30) ⟨fun _ => 0, fun _ => 0⟩).ftl reusingOps := by
    decide +kernel
  refine walks_end (by decide) _ (hfirst.mono fun f op h => ?_) ?_
  · cases op with
    | insert i => exact ⟨0, by decide, h⟩
    | update cmd => trivial
    | delete key => trivial
  · unfold reusingOps collidingInsertions
    simp [TableOp.KeyFits, Insertion.KeyFits, Insertion.key, keyBytes, storeCommand, linkOffset]

/-- "a key that is longer than the slot no 00", and then the number of its own hash slot, 16327886, in the
four bytes that come to lie on the link. -/
def loopingKey : Key :=
  [97, 32, 107, 101, 121, 32, 116, 104, 97, 116, 32, 105, 115, 32, 108, 111, 110, 103, 101, 114, 32, 116, 104,
    97, 110, 32, 116, 104, 101, 32, 115, 108, 111, 116, 32, 110, 111, 32, 48, 48, 0xce, 0x24, 0xf9, 0]

/-- The insertion of `loopingKey`. -/
def loopingInsertion : Insertion := .byKey (loopingKey.getD · 0) 44 4 0

/-- The insertion of `loopingKey` sets the link of its slot to the slot. -/
theorem walks_end_long_key :
    Always TableOp.run TableOp.HasFree (kvInit (2 ^ 30) ⟨fun _ => 0, fun _ => 0⟩).ftl
        [.insert loopingInsertion] ∧
      loopingKey.drop linkOffset = (List.range 4).map (Bytes.wordByte (getHashSlot loopingKey)) ∧
      ¬ Avoids Bug.Lost ([.insert loopingInsertion].foldlM TableOp.run
        (kvInit (2 ^ 30) ⟨fun _ => 0, fun _ => 0⟩).ftl) WalksEnd := by
  refine ⟨⟨⟨0, by decide, rfl⟩, fun _ _ => trivial⟩, by decide +kernel, fun h => ?_⟩
  have hstop : [TableOp.insert loopingInsertion].foldlM TableOp.run
      (kvInit (2 ^ 30) ⟨fun _ => 0, fun _ => 0⟩).ftl = .error (.outOfBounds .newMappingEntryByKey) := by
    rfl
  exact h.safe _ hstop ⟨_, .inr rfl⟩

end Nvmev
