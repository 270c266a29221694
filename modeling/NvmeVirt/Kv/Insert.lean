import NvmeVirt.Kv.Batch
import NvmeVirt.Kv.Delete

/-!
# Runs of insertions

The mapping table has two functions that make an entry, `new_mapping_entry` and
`new_mapping_entry_by_key`. Both put it in a free slot, which they chain to the end of the chain
that starts at the hash slot of the key; the free slot may be the hash slot of other keys. As long as the
copies of the keys end before the links, no entry is overwritten, and each one stays on the chain of its
hash slot (`insertions_survive`). Neither function checks the length of its key
(`insertions_survive_long_key`).
-/

namespace Nvmev

open Function Outcome CInt Chains

/-- A call of `new_mapping_entry` or of `new_mapping_entry_by_key`. -/
inductive Insertion where
  | byCommand (cmd : KvCommand) (valOffset : Nat)
  | byKey (key : Nat → UInt8) (keyLen valLen valOffset : Nat)

namespace Insertion

def key : Insertion → Key
  | byCommand cmd _ => cmd.key
  | byKey key keyLen _ _ => keyBytes key keyLen

def length : Insertion → Nat
  | byCommand cmd _ => cmd.valueLength
  | byKey _ _ valLen _ => ulong valLen

def offset : Insertion → Nat
  | byCommand _ valOffset => valOffset
  | byKey _ _ _ valOffset => valOffset

def site : Insertion → Site
  | byCommand .. => .newMappingEntry
  | byKey .. => .newMappingEntryByKey

def run (f : KvFtl) : Insertion → Except Bug KvFtl
  | byCommand cmd valOffset => newMappingEntry f cmd valOffset
  | byKey key keyLen valLen valOffset => newMappingEntryByKey f key keyLen valLen valOffset

/-- The offset is inside the storage, and a slot is free. -/
def Room (f : KvFtl) (i : Insertion) : Prop :=
  i.offset < f.storageSize ∧ ∃ slot < hashSlots, (f.table slot).used = false

/-- The copy of the key ends before the link. -/
def KeyFits (i : Insertion) : Prop := i.key.length ≤ linkOffset

/-- The slot holds the entry, with as much of the key as comes before the numbers. -/
structure In (i : Insertion) (e : MappingEntry) : Prop where
  used : e.used = true
  key : ∀ k < i.key.length, k < keyRoom → e.key k = i.key.getD k 0
  memOffset : e.memOffset = i.offset
  length : e.length = i.length

/-- Of an occupied slot, no more than the link changes. -/
def KeepsEntries (f : KvFtl) (i : Insertion) : Prop :=
  ∀ f', i.run f = .ok f' → ∀ s, (f.table s).used = true →
    f'.table s = { f.table s with nextSlot := (f'.table s).nextSlot }

end Insertion

/-- The links of the table lead from the hash slot of the key to `slot`, which holds the entry. -/
structure Stays (t : Nat → MappingEntry) (i : Insertion) (slot : Nat) : Prop where
  entry : i.In (t slot)
  reaches : Reaches (fun s => (t s).used) (fun s => (t s).next) slot (getHashSlot i.key)

section

variable {t t' : Nat → MappingEntry} {f f' : KvFtl} {i j : Insertion} {slot : Nat}

/-! ## One insertion -/

/-- `t'` is `t` with the entry in the free slot `slot`. -/
structure Inserts (t t' : Nat → MappingEntry) (i : Insertion) (slot : Nat) : Prop where
  vacant : (t slot).used = false
  entry : i.In (t' slot)
  frame : ∀ s ≠ slot, t' s = { t s with nextSlot := (t' s).nextSlot }
  /-- A link to a used slot stays. -/
  links : ∀ a b, (t a).next = some b → (t b).used = true → (t' a).next = some b
  inv : TableInv t'
  chain : ∀ l, SlotChain t (getHashSlot i.key) l → l.Nodup →
    SlotChain t' (getHashSlot i.key) (l ++ [slot])

theorem newMappingEntryByKey_place {key : Nat → UInt8} {keyLen valLen valOffset : Nat}
    (hv : valOffset < f.storageSize) :
    newMappingEntryByKey f key keyLen valLen valOffset = (do
      let (slot, prev) ← place f.table (getHashSlot (keyBytes key keyLen))
      copyKey (keyBytes key keyLen) .newMappingEntryByKey
      pure { f with
        table := linked (setMapping f.table slot (keyBytes key keyLen) valOffset (ulong valLen)) slot
          prev }) := by
  unfold newMappingEntryByKey place nvmevAssert
  rw [ensure_of _ hv, ok_bind]
  simp only []
  split
  · cases findNextSlot f.table (getHashSlot (keyBytes key keyLen)) <;> rfl
  · rfl

/-- The two functions make the same entry. -/
theorem Insertion.run_eq (hv : i.offset < f.storageSize) :
    i.run f = (do
      let (slot, prev) ← place f.table (getHashSlot i.key)
      copyKey i.key i.site
      pure { f with
        table := linked (setMapping f.table slot i.key i.offset i.length) slot prev }) := by
  cases i with
  | byCommand cmd valOffset => exact newMappingEntry_eq hv
  | byKey key keyLen valLen valOffset => exact newMappingEntryByKey_place hv

/-- The length of a new entry has no part in its place. -/
theorem linked_setMapping (t : Nat → MappingEntry) (slot : Nat) (key : Key) (off len len₀ : Nat)
    (prev : Option Nat) :
    linked (setMapping t slot key off len) slot prev =
      withLengths (linked (setMapping t slot key off len₀) slot prev)
        (update (fun s => (t s).length) slot len) := by
  funext s
  cases prev with
  | none => by_cases hs : s = slot <;> simp [linked, setMapping, withLengths, hs]
  | some prev =>
    by_cases hs : s = slot <;> by_cases hp : s = prev <;>
      simp_all [linked, chainMapping, setMapping, withLengths]

theorem inserts_place {prev : Option Nat} (h : TableInv t) (hv : i.offset ≠ noOffset)
    (hp : place t (getHashSlot i.key) = .ok (slot, prev)) :
    Inserts t (linked (setMapping t slot i.key i.offset i.length) slot prev) i slot := by
  have hplace (cmd : KvCommand) (hc : cmd.key = i.key) :
      place t (getHashSlot cmd.key) = .ok (slot, prev) := by rw [hc]; exact hp
  -- A command with the key, for the entry with the length 0.
  have hent : NewEntry t (linked (setMapping t slot i.key i.offset 0) slot prev)
      { opcode := .kvStore, key := i.key } i.offset slot :=
    place_spec h hv (hplace { opcode := .kvStore, key := i.key } rfl)
  rw [linked_setMapping t slot i.key i.offset i.length 0 prev]
  generalize linked (setMapping t slot i.key i.offset 0) slot prev = t₀ at hent
  refine ⟨hent.vacant, ⟨?_, fun k hk _ => hent.key k hk, hent.memOffset, by simp [withLengths]⟩, ?_, hent.links,
    hent.inv.withLengths _, hent.chain⟩
  · simpa [MappingEntry.used, withLengths, hent.memOffset] using hv
  · intro s hs
    simp only [withLengths, update_of_ne hs]
    rw [hent.frame s hs]

/-- An insertion with room returns, if its key fits, and changes no more than the table. -/
theorem Insertion.run_spec (h : TableInv f.table) (hsize : f.storageSize < 2 ^ 64)
    (hroom : i.Room f) (hkey : i.KeyFits) :
    Total (i.run f) fun f' => ∃ t' slot, f' = { f with table := t' } ∧ Inserts f.table t' i slot := by
  obtain ⟨hv, hfree⟩ := hroom
  obtain ⟨⟨slot, prev⟩, hp⟩ := place_ok h hfree i.key
  rw [Insertion.run_eq hv, hp, ok_bind]
  simp only [copyKey_of _ hkey]
  refine .ret ⟨_, slot, rfl, inserts_place h ?_ hp⟩
  unfold noOffset
  omega

section Inserts

variable (hins : Inserts t t' i slot)
include hins

theorem Inserts.ne_of_used {s : Nat} (hs : (t s).used = true) : s ≠ slot := by
  rintro rfl
  rw [hins.vacant] at hs
  cases hs

theorem Inserts.used_old {s : Nat} (hs : (t s).used = true) : (t' s).used = true := by
  rw [hins.frame s (hins.ne_of_used hs)]
  exact hs

/-- An entry stays. -/
theorem Inserts.stays_old {s : Nat} (hj : Stays t j s) : Stays t' j s := by
  refine ⟨?_, hj.reaches.grow (fun _ => hins.used_old) hins.links⟩
  rw [hins.frame s (hins.ne_of_used hj.entry.used)]
  exact ⟨hj.entry.used, hj.entry.key, hj.entry.memOffset, hj.entry.length⟩

/-- The new entry is on the chain of its key. -/
theorem Inserts.stays_new (h : TableInv t) : Stays t' i slot := by
  obtain ⟨l, hc, hn, -, -⟩ := h.chain i.key
  exact ⟨hins.entry, (hins.chain l hc hn).reaches (by simp)⟩

end Inserts

/-! ## Runs -/

/-- What a run of insertions keeps: the slots of the entries are different. -/
structure Placed (f : KvFtl) (done : List Insertion) (slots : List Nat) : Prop where
  table : TableInv f.table
  nodup : slots.Nodup
  stays : List.Forall₂ (Stays f.table) done slots

variable {done inserts : List Insertion} {slots : List Nat}

theorem Placed.used (h : Placed f done slots) {s : Nat} (hs : s ∈ slots) : (f.table s).used = true := by
  have hstays := h.stays
  obtain ⟨k, hk, rfl⟩ := List.getElem_of_mem hs
  exact (hstays.get (by rw [hstays.length_eq]; exact hk) hk).entry.used

theorem Placed.insert (h : Placed f done slots) (hins : Inserts f.table f'.table i slot) :
    Placed f' (done ++ [i]) (slots ++ [slot]) := by
  refine ⟨hins.inv, ?_, ?_⟩
  · rw [List.nodup_append]
    refine ⟨h.nodup, List.nodup_singleton slot, fun s hs s' hs' => ?_⟩
    rw [List.mem_singleton.mp hs']
    exact hins.ne_of_used (h.used hs)
  · exact List.rel_append (h.stays.imp fun _ _ hj => hins.stays_old hj)
      (.cons (hins.stays_new h.table) .nil)

/-- The insertions of a run with room return and keep the entries. -/
theorem Placed.run (h : Placed f done slots) (hsize : f.storageSize < 2 ^ 64)
    (hroom : Always (fun f i => i.run f) (fun f i => i.Room f) f inserts)
    (hkeys : ∀ i ∈ inserts, i.KeyFits) :
    Always (fun f i => i.run f) (fun f i => i.KeepsEntries f) f inserts ∧
      Total (inserts.foldlM (fun f i => i.run f) f) fun f' =>
        ∃ slots', Placed f' (done ++ inserts) slots' := by
  induction inserts generalizing f done slots with
  | nil => exact ⟨trivial, .ret ⟨slots, by simpa using h⟩⟩
  | cons i inserts ih =>
    obtain ⟨f₁, hf₁, t', slot, rfl, hins⟩ := Insertion.run_spec h.table hsize hroom.1 (hkeys i (by simp))
    obtain ⟨hkeeps, hrun⟩ := ih (f := { f with table := t' }) (h.insert hins) hsize (hroom.2 _ hf₁)
      fun j hj => hkeys j (by simp [hj])
    refine ⟨⟨fun f' hf' s hs => ?_, fun f' hf' => ?_⟩, ?_⟩
    · obtain rfl := Except.ok.inj (hf₁.symm.trans hf')
      exact hins.frame s (hins.ne_of_used hs)
    · obtain rfl := Except.ok.inj (hf₁.symm.trans hf')
      exact hkeeps
    · rw [List.foldlM_cons, hf₁, ok_bind]
      simpa using hrun

/-- Each insertion of a run returns and changes no more than the link of an occupied slot. In the end every
entry is in a slot of its own, and the links lead to it from the hash slot of its key. -/
def InsertionsSurvive (f : KvFtl) (inserts : List Insertion) : Prop :=
  Always (fun f i => i.run f) (fun f i => i.KeepsEntries f) f inserts ∧
    Total (inserts.foldlM (fun f i => i.run f) f) fun f =>
      ∃ slots, slots.Nodup ∧ List.Forall₂ (Stays f.table) inserts slots

/-- The entries survive in every run of insertions with room from the empty table, if their keys fit. -/
theorem insertions_survive {storageSize : Nat} (hsize : storageSize < 2 ^ 64) (ms : Prp.Memories)
    (hroom : Always (fun f i => i.run f) (fun f i => i.Room f) (kvInit storageSize ms).ftl inserts)
    (hkeys : ∀ i ∈ inserts, i.KeyFits) :
    InsertionsSurvive (kvInit storageSize ms).ftl inserts := by
  have hinit : Placed (kvInit storageSize ms).ftl [] [] :=
    ⟨tableInv_kvInit _ _, List.nodup_nil, .nil⟩
  obtain ⟨hkeeps, hrun⟩ := hinit.run hsize hroom hkeys
  exact ⟨hkeeps, hrun.mono fun f ⟨slots, hf⟩ => ⟨slots, hf.nodup, hf.stays⟩⟩

end

/-- Entries for two keys with one hash slot, one of each function. -/
def collidingInsertions : List Insertion :=
  [.byCommand (storeCommand [97, 107, 99, 108] 1) 0,
    .byKey (fun k => [105, 109, 120, 97].getD k 0) 4 4 4]

theorem insertions_survive_collision :
    InsertionsSurvive (kvInit (2 ^ 30) ⟨fun _ => 0, fun _ => 0⟩).ftl collidingInsertions := by
  refine insertions_survive (by decide) _
    ⟨⟨by decide, 0, by decide, rfl⟩, fun f hf => ⟨?_, fun _ _ => trivial⟩⟩ ?_
  · obtain ⟨f₁, hf₁, hsize, hfree⟩ :
        Total (Insertion.run (kvInit (2 ^ 30) ⟨fun _ => 0, fun _ => 0⟩).ftl
            (.byCommand (storeCommand [97, 107, 99, 108] 1) 0)) fun f =>
          f.storageSize = 2 ^ 30 ∧ (f.table 0).used = false := by
      decide +kernel
    obtain rfl : f₁ = f := Except.ok.inj (hf₁.symm.trans hf)
    refine ⟨?_, 0, by decide, hfree⟩
    rw [hsize]
    decide
  · unfold collidingInsertions Insertion.KeyFits
    decide

/-- "the forty-nine bytes of a key, from like to hall.", whose hash slot is the one before that of "king". -/
def longKey : Key :=
  [116, 104, 101, 32, 102, 111, 114, 116, 121, 45, 110, 105, 110, 101, 32, 98, 121, 116, 101, 115, 32,
    111, 102, 32, 97, 32, 107, 101, 121, 44, 32, 102, 114, 111, 109, 32, 108, 105, 107, 101, 32, 116,
    111, 32, 104, 97, 108, 108, 46]

/-- The insertions of "king" and of `longKey`. -/
def neighbours : List Insertion :=
  [.byKey ([107, 105, 110, 103].getD · 0) 4 4 0, .byKey (longKey.getD · 0) 49 4 4]

/-- The copy of a key of 49 bytes runs over the link of its slot and over the first byte of the next one,
which is occupied. -/
theorem insertions_survive_long_key :
    Always (fun f i => i.run f) (fun f i => i.Room f) (kvInit (2 ^ 30) ⟨fun _ => 0, fun _ => 0⟩).ftl neighbours ∧
      getHashSlot [107, 105, 110, 103] = 6389031 ∧ getHashSlot longKey = 6389030 ∧
      ¬ InsertionsSurvive (kvInit (2 ^ 30) ⟨fun _ => 0, fun _ => 0⟩).ftl neighbours := by
  obtain ⟨f₁, hf₁, hsize, hfree, hstop⟩ :
      Total (Insertion.run (kvInit (2 ^ 30) ⟨fun _ => 0, fun _ => 0⟩).ftl
          (.byKey ([107, 105, 110, 103].getD · 0) 4 4 0)) fun f =>
        f.storageSize = 2 ^ 30 ∧ (f.table 0).used = false ∧
          (Insertion.run f (.byKey (longKey.getD · 0) 49 4 4)).isOk = false := by
    decide +kernel
  refine ⟨⟨⟨by decide, 0, by decide, rfl⟩, fun f hf => ⟨?_, fun _ _ => trivial⟩⟩,
    by decide +kernel, by decide +kernel, ?_⟩
  · obtain rfl : f₁ = f := Except.ok.inj (hf₁.symm.trans hf)
    refine ⟨?_, 0, by decide, hfree⟩
    rw [hsize]
    decide
  · rintro ⟨-, f, hrun, -⟩
    obtain ⟨f, hf, hrun⟩ := bind_ok.mp hrun
    obtain rfl : f₁ = f := Except.ok.inj (hf₁.symm.trans hf)
    obtain ⟨f₂, hf₂, -⟩ := bind_ok.mp hrun
    have hf₂ : Insertion.run f₁ (.byKey (longKey.getD · 0) 49 4 4) = .ok f₂ := hf₂
    rw [hf₂] at hstop
    cases hstop

end Nvmev
