import Mathlib.Data.Finmap
import NvmeVirt.Io.Dma
import NvmeVirt.Kv.Insert
import NvmeVirt.Kv.Payload
import NvmeVirt.Lib.Refinement

/-!
# The device as a finite map

`KvMap` is what a key-value device is for: a finite map from keys to values. With each value it has the
bytes that the first store of the key has reserved; no store frees any.

`kv_refines_map`: the device answers every run of stores, retrieves, deletes, exist commands and batches
as the map does, as long as each command meets `Allowed`. A store fits the bytes that are reserved for its
key, or there is room for a new key; a delete cuts no chain that another key needs; the buffer of a
retrieve is one; and the keys are as in `KeySpace`: a key is not longer than its place in a slot, and none
begins another, since an entry of the table has no length of its key.
-/

namespace Nvmev

open Function Outcome CInt Bytes Chains

/-- A value, and the bytes that are reserved for it. -/
structure Stored where
  value : List UInt8
  room : Nat
  fits : value.length ≤ room

/-- A finite map, and the number of bytes that its stores have reserved. -/
structure KvMap where
  entries : Finmap fun _ : Key => Stored
  allotted : Nat

namespace KvMap

def empty : KvMap := { entries := ∅, allotted := 0 }

/-- A new key reserves the bytes of its value. -/
def store (m : KvMap) (key : Key) (value : List UInt8) : KvMap :=
  match m.entries.lookup key with
  | none =>
    { entries := m.entries.insert key { value, room := value.length, fits := Nat.le_refl _ }
      allotted := m.allotted + value.length }
  | some e => { m with
      entries := m.entries.insert key
        { value, room := max e.room value.length, fits := Nat.le_max_right _ _ } }

/-- The bytes that are reserved for a key. -/
def room (m : KvMap) (key : Key) : Nat := (m.entries.lookup key).elim 0 Stored.room

/-- There is room for a value of `n` bytes. A value takes the place of one of another length only where
`resize` allows it. -/
def Accepts (resize : Nat → Nat → Prop) (storageSize : Nat) (m : KvMap) (key : Key) (n : Nat) : Prop :=
  match m.entries.lookup key with
  | none => m.allotted < storageSize ∧ m.allotted + n ≤ storageSize ∧ m.entries.keys.card < hashSlots
  | some e => n = e.value.length ∨ resize n e.value.length ∧ n ≤ e.room

instance Accepts.decidable (resize : Nat → Nat → Prop) [∀ n n', Decidable (resize n n')]
    (storageSize : Nat) (m : KvMap) (key : Key) (n : Nat) :
    Decidable (m.Accepts resize storageSize key n) :=
  match h : m.entries.lookup key with
  | none => decidable_of_iff (m.allotted < storageSize ∧ m.allotted + n ≤ storageSize ∧
      m.entries.keys.card < hashSlots) (by simp [Accepts, h])
  | some e => decidable_of_iff (n = e.value.length ∨ resize n e.value.length ∧ n ≤ e.room)
      (by simp [Accepts, h])

/-- Both lengths are small. -/
def smallLengths (n n' : Nat) : Prop := n ≤ smallLength ∧ n' ≤ smallLength

/-- There is room for the stores of a batch, which do not change the length of a value. -/
def AcceptsAll (storageSize : Nat) : KvMap → List BatchStore → Prop
  | _, [] => True
  | m, s :: stores => m.Accepts (fun _ _ => False) storageSize s.key s.value.length ∧
    AcceptsAll storageSize (m.store s.key s.value) stores

end KvMap

/-- A command, and the host memory when the device performs it; with a batch, the stores that the host
means. -/
inductive KvRequest where
  | io (host : Mem) (cmd : KvCommand)
  | batch (host : Mem) (cmd : KvBatchCommand) (stores : List BatchStore)

/-- `kv_perform_nvme_io_cmd`: what the command returns, and the bytes that it has put into the buffer of
the host. -/
def KvDev.perform (d : KvDev) : KvRequest → Except BatchStop ((KvReply × List UInt8) × KvDev)
  | .io host cmd => do
    let (reply, d) ← (doPerformKvIo (d.withHost host) cmd).mapError .bug
    pure ((reply, (List.range reply.result).map fun i => d.ms.host (cmd.valueAddr host i)), d)
  | .batch host cmd _ => do
    let (reply, d) ← doPerformKvBatch (d.withHost host) cmd
    pure ((reply, []), d)

/-- The value of a store. -/
def KvCommand.value (cmd : KvCommand) (host : Mem) : List UInt8 :=
  (List.range cmd.valueLength).map fun i => host (cmd.valueAddr host i)

/-- What the command is for. A retrieve gives as much of the value as its buffer takes. -/
def KvMap.perform (m : KvMap) : KvRequest → (KvReply × List UInt8) × KvMap
  | .io host cmd =>
    match cmd.opcode with
    | .kvStore => (({}, []), m.store cmd.key (cmd.value host))
    | .kvRetrieve =>
      match m.entries.lookup cmd.key with
      | none => (({ status := some kvErrKeyNotExist }, []), m)
      | some e =>
        (({ result := (e.value.take cmd.valueLength).length }, e.value.take cmd.valueLength), m)
    | .kvExist =>
      match m.entries.lookup cmd.key with
      | none => (({ status := some kvErrKeyNotExist }, []), m)
      | some _ => (({}, []), m)
    | .kvDelete =>
      match m.entries.lookup cmd.key with
      | none => (({ status := some kvErrKeyNotExist }, []), m)
      | some _ => (({}, []), { m with entries := m.entries.erase cmd.key })
    | _ => (({}, []), m)
  | .batch _ _ stores => (({}, []), stores.foldl (fun m s => m.store s.key s.value) m)

/-- No key of `U` begins another one. -/
def PrefixFree (U : Key → Prop) : Prop := ∀ k k', U k → U k' → k <+: k' → k = k'

/-- The keys of a run: each is compared with the key of a slot only, and none begins another one. -/
structure KeySpace (U : Key → Prop) : Prop where
  short : ∀ k, U k → k.length ≤ keyRoom
  prefixFree : PrefixFree U

/-- What the commands of a run meet. The slot that a delete clears is not on the way to another key. -/
def Allowed (U : Key → Prop) (storageSize : Nat) (d : KvDev) (m : KvMap) : KvRequest → Prop
  | .io host cmd => U cmd.key ∧
    match cmd.opcode with
    | .kvStore => m.Accepts KvMap.smallLengths storageSize cmd.key cmd.valueLength
    | .kvRetrieve =>
      Prp.IsBuffer .kmap cmd.prp1 cmd.prp2 host cmd.valueLength {} cmd.valueLength ∧
        ∀ e, m.entries.lookup cmd.key = some e →
          Prp.SameForm cmd.prp1 (min e.value.length cmd.valueLength) cmd.valueLength
    | .kvDelete => ∀ slot, search d.ftl.table cmd.key = .ok (some slot) →
      ∀ k ∈ m.entries.keys, k ≠ cmd.key → slot ∉ compared d.ftl.table k
    | _ => True
  | .batch host cmd stores => Carries cmd host stores ∧ (∀ s ∈ stores, U s.key) ∧
    m.AcceptsAll storageSize stores

/-- The table has one slot for each key of the map, `owner`; its value is in the bytes that are reserved
for the key, and no two keys share any. -/
structure Represents (U : Key → Prop) (storageSize : Nat) (owner : Nat → Key) (d : KvDev) (m : KvMap) :
    Prop where
  table : TableInv d.ftl.table
  size : d.ftl.storageSize = storageSize
  latest : d.ftl.latest = m.allotted
  le : m.allotted ≤ storageSize
  keys : ∀ k ∈ m.entries, U k
  found : ∀ k ∈ m.entries, ∃ s, (d.ftl.table s).used = true ∧ owner s = k
  owned : ∀ s, (d.ftl.table s).used = true →
    owner s ∈ m.entries ∧ search d.ftl.table (owner s) = .ok (some s)
  key : ∀ s, (d.ftl.table s).used = true →
    ∀ i < (owner s).length, (d.ftl.table s).key i = (owner s).getD i 0
  value : ∀ s e, (d.ftl.table s).used = true → m.entries.lookup (owner s) = some e →
    (d.ftl.table s).length = e.value.length ∧
      bytesAt d.ms.storage (d.ftl.table s).memOffset e.value.length = e.value
  laid : Laid (fun s => (d.ftl.table s).used = true) (fun s => (d.ftl.table s).memOffset)
    (fun s => m.room (owner s)) d.ftl.latest

section

variable {U : Key → Prop} {storageSize : Nat} {owner : Nat → Key} {d d' : KvDev} {m : KvMap} {key : Key}
  {cmd : KvCommand} {e : Stored} {slot n : Nat} {host : Mem} {value : List UInt8}
  {t t' : Nat → MappingEntry} {i : Insertion}

/-! ## Lookups -/

theorem represents_kvInit (U : Key → Prop) (storageSize : Nat) (ms : Prp.Memories) (owner : Nat → Key) :
    Represents U storageSize owner (kvInit storageSize ms) .empty where
  table := tableInv_kvInit _ _
  size := rfl
  latest := rfl
  le := Nat.zero_le _
  keys k hk := absurd hk Finmap.notMem_empty
  found k hk := absurd hk Finmap.notMem_empty
  owned s hs := by simp [kvInit, MappingEntry.used] at hs
  key s hs := by simp [kvInit, MappingEntry.used] at hs
  value s e hs := by simp [kvInit, MappingEntry.used] at hs
  laid := ⟨fun s hs => by simp [kvInit, MappingEntry.used] at hs,
    fun s s' hs => by simp [kvInit, MappingEntry.used] at hs⟩

theorem Represents.withHost (h : Represents U storageSize owner d m) (host : Mem) :
    Represents U storageSize owner (d.withHost host) m :=
  ⟨h.table, h.size, h.latest, h.le, h.keys, h.found, h.owned, h.key, h.value, h.laid⟩

/-- An entry that agrees with a key is the entry of the key. -/
theorem Represents.owner_of_agrees (h : Represents U storageSize owner d m) (hU : KeySpace U)
    (hkey : U key) (hs : (d.ftl.table slot).used = true) (ha : (d.ftl.table slot).agrees key = true) :
    owner slot = key := by
  have hown := h.keys _ (h.owned slot hs).1
  have hagree := (agrees_iff (hU.short _ hkey)).mp ha
  have hbegins {k k' : Key} (hle : k.length ≤ k'.length)
      (heq : ∀ i < k.length, k.getD i 0 = k'.getD i 0) : k <+: k' := by
    rw [List.prefix_iff_eq_take]
    refine List.ext_getElem (by simp [hle]) fun i hi hi' => ?_
    have := heq i hi
    simpa [hi, Nat.lt_of_lt_of_le hi hle] using this
  rcases Nat.le_total (owner slot).length key.length with hle | hle
  · exact hU.prefixFree _ _ hown hkey (hbegins hle fun i hi => by
      rw [← h.key slot hs i hi, hagree i (by omega)])
  · exact (hU.prefixFree _ _ hkey hown (hbegins hle fun i hi => by
      rw [← hagree i hi, h.key slot hs i (by omega)])).symm

theorem Represents.search_none (h : Represents U storageSize owner d m) (hU : KeySpace U)
    (hkey : U key) (hnone : m.entries.lookup key = none) : search d.ftl.table key = .ok none := by
  obtain ⟨r, hs⟩ := h.table.search key
  cases r with
  | none => exact hs
  | some slot =>
    obtain ⟨-, hu, ha⟩ := h.table.search_some hs
    have hmem := (h.owned slot hu).1
    rw [h.owner_of_agrees hU hkey hu ha] at hmem
    exact absurd hmem (Finmap.lookup_eq_none.mp hnone)

theorem Represents.search_some (h : Represents U storageSize owner d m)
    (hsome : m.entries.lookup key = some e) :
    ∃ slot, search d.ftl.table key = .ok (some slot) ∧ (d.ftl.table slot).used = true ∧
      owner slot = key := by
  obtain ⟨slot, hu, rfl⟩ := h.found key (Finmap.mem_of_lookup_eq_some hsome)
  exact ⟨slot, (h.owned slot hu).2, hu, rfl⟩

theorem Represents.eq_of_owner (h : Represents U storageSize owner d m) {s s' : Nat}
    (hs : (d.ftl.table s).used = true) (hs' : (d.ftl.table s').used = true)
    (heq : owner s = owner s') : s = s' := by
  have hfound := (h.owned s hs).2
  rw [heq, (h.owned s' hs').2] at hfound
  cases hfound
  rfl

/-- With fewer keys than slots there is a free slot. -/
theorem Represents.exists_free (h : Represents U storageSize owner d m)
    (hcard : m.entries.keys.card < hashSlots) :
    ∃ slot < hashSlots, (d.ftl.table slot).used = false := by
  by_contra hall
  have hused : ∀ s < hashSlots, (d.ftl.table s).used = true := fun s hs => by
    by_contra hu
    exact hall ⟨s, hs, by simpa using hu⟩
  have hle : (Finset.range hashSlots).card ≤ m.entries.keys.card :=
    Finset.card_le_card_of_injOn owner
      (fun s hs => Finmap.mem_keys.mpr (h.owned s (hused s (by simpa using hs))).1)
      fun s hs s' hs' heq => h.eq_of_owner (hused s (by simpa using hs)) (hused s' (by simpa using hs')) heq
  rw [Finset.card_range] at hle
  omega

/-! ## Stores in the map -/

theorem KvMap.mem_store (m : KvMap) (key k : Key) (value : List UInt8) :
    k ∈ (m.store key value).entries ↔ k = key ∨ k ∈ m.entries := by
  unfold KvMap.store
  split <;> exact Finmap.mem_insert

theorem KvMap.lookup_store_of_ne {k : Key} (hk : k ≠ key) :
    (m.store key value).entries.lookup k = m.entries.lookup k := by
  unfold KvMap.store
  split <;> exact Finmap.lookup_insert_of_ne _ hk

theorem KvMap.lookup_store (m : KvMap) (key : Key) (value : List UInt8) :
    ∃ e, (m.store key value).entries.lookup key = some e ∧ e.value = value := by
  unfold KvMap.store
  split <;> exact ⟨_, Finmap.lookup_insert _, rfl⟩

theorem KvMap.room_store_of_ne {k : Key} (hk : k ≠ key) : (m.store key value).room k = m.room k := by
  unfold KvMap.room
  rw [lookup_store_of_ne hk]

theorem KvMap.room_store_new (hnone : m.entries.lookup key = none) :
    (m.store key value).room key = value.length := by
  unfold KvMap.room KvMap.store
  rw [hnone]
  simp

theorem KvMap.room_store_old (hsome : m.entries.lookup key = some e) (hle : value.length ≤ e.room) :
    (m.store key value).room key = m.room key := by
  unfold KvMap.room KvMap.store
  rw [hsome]
  simp [Nat.max_eq_left hle]

theorem KvMap.allotted_store_new (hnone : m.entries.lookup key = none) :
    (m.store key value).allotted = m.allotted + value.length := by
  unfold KvMap.store
  rw [hnone]

theorem KvMap.allotted_store_old (hsome : m.entries.lookup key = some e) :
    (m.store key value).allotted = m.allotted := by
  unfold KvMap.store
  rw [hsome]

theorem KvMap.room_of_lookup (hsome : m.entries.lookup key = some e) : m.room key = e.room := by
  unfold KvMap.room
  rw [hsome]
  rfl

/-! ## Stores on the device -/

/-- A key that is found stays where it is when entries are added. -/
theorem search_of_grows (h : TableInv t) (h' : TableInv t') (hkey : key.length ≤ keyRoom)
    (hused : ∀ a, (t a).used = true → (t' a).used = true ∧ (t' a).key = (t a).key)
    (hlinks : ∀ a b, (t a).next = some b → (t b).used = true → (t' a).next = some b)
    (hs : search t key = .ok (some slot)) : search t' key = .ok (some slot) := by
  obtain ⟨l, hc, -, hl, -⟩ := h.chain key
  obtain ⟨l', hc', -, hl', -⟩ := h'.chain key
  have hpre : l <+: l' := hc.prefix_of_le hc' (fun a ha => (hused a ha).1) hlinks
  have hsame : (l.find? fun a => (t' a).agrees key) = l.find? fun a => (t a).agrees key :=
    List.find?_congr fun a ha => agrees_congr hkey (hused a (hc.occupied ha)).2
  rw [search_eq hc hl, Except.ok.injEq] at hs
  rw [search_eq hc' hl', Except.ok.injEq]
  exact hpre.find?_eq_some (hsame.trans hs)

theorem Inserts.keeps (hins : Inserts t t' i slot) {s : Nat} (hs : (t s).used = true) :
    (t' s).used = true ∧ (t' s).key = (t s).key ∧ (t' s).memOffset = (t s).memOffset ∧
      (t' s).length = (t s).length := by
  rw [hins.frame s (hins.ne_of_used hs)]
  exact ⟨hs, rfl, rfl, rfl⟩

/-- The new key is found in the new slot. -/
theorem Inserts.search_new (hins : Inserts t t' i slot) (h : TableInv t) (hkey : i.key.length ≤ keyRoom)
    (hs : search t i.key = .ok none) : search t' i.key = .ok (some slot) := by
  obtain ⟨l, hc, hn, hl, -⟩ := h.chain i.key
  obtain ⟨l', hc', -, hl', -⟩ := hins.inv.chain i.key
  obtain rfl := hc'.unique (hins.chain l hc hn)
  have hold : (l.find? fun a => (t' a).agrees i.key) = l.find? fun a => (t a).agrees i.key :=
    List.find?_congr fun a ha => agrees_congr hkey (hins.keeps (hc.occupied ha)).2.1
  rw [search_eq hc hl, Except.ok.injEq] at hs
  rw [search_eq hc' hl', Except.ok.injEq, List.find?_append, hold, hs]
  simp [(agrees_iff hkey).mpr fun k hk => hins.entry.key k hk (by omega)]

theorem bytesAt_getD (value : List UInt8) :
    (List.range value.length).map (value.getD · 0) = value := by
  refine List.ext_getElem (by simp) fun i hi hi' => ?_
  simp [hi']

/-- A value in bytes that nothing has reserved, under a new key. -/
theorem Represents.insert (h : Represents U storageSize owner d m) (hU : KeySpace U) (hkey : U key)
    (hsize : storageSize < 2 ^ 64) (hnone : m.entries.lookup key = none)
    (hle : m.allotted + value.length ≤ storageSize) (hins : Inserts d.ftl.table t' i slot)
    (hikey : i.key = key) (hioff : i.offset = m.allotted) (hilen : i.length = value.length) (host : Mem) :
    Represents U storageSize (update owner slot key)
      { ftl := { d.ftl with table := t', latest := m.allotted + value.length }
        ms := { host, storage := copyIn d.ms.storage m.allotted (value.getD · 0) value.length } }
      (m.store key value) := by
  have hs : search d.ftl.table key = .ok none := h.search_none hU hkey hnone
  -- A slot of the new table is the new one, or was used.
  have hold {s : Nat} (hu : (t' s).used = true) (hne : s ≠ slot) : (d.ftl.table s).used = true := by
    rwa [hins.frame s hne] at hu
  have hne {s : Nat} (hu : (d.ftl.table s).used = true) : owner s ≠ key := by
    intro heq
    have hmem := (h.owned s hu).1
    rw [heq] at hmem
    exact Finmap.lookup_eq_none.mp hnone hmem
  refine ⟨hins.inv, h.size, ?_, ?_, ?_, ?_, ?_, ?_, ?_, ?_⟩
  · exact (KvMap.allotted_store_new hnone).symm
  · rw [KvMap.allotted_store_new hnone]
    exact hle
  · intro k hk
    rcases (m.mem_store key k value).mp hk with rfl | hk
    · exact hkey
    · exact h.keys k hk
  · intro k hk
    rcases (m.mem_store key k value).mp hk with rfl | hk
    · exact ⟨slot, hins.entry.used, update_self ..⟩
    · obtain ⟨s, hu, rfl⟩ := h.found k hk
      exact ⟨s, (hins.keeps hu).1, update_of_ne (hins.ne_of_used hu) ..⟩
  · intro s hu
    by_cases hsl : s = slot
    · subst hsl
      rw [update_self]
      refine ⟨(m.mem_store key key value).mpr (.inl rfl), ?_⟩
      rw [← hikey] at hs hkey ⊢
      exact hins.search_new h.table (hU.short _ hkey) hs
    · rw [update_of_ne hsl]
      obtain ⟨hmem, hfound⟩ := h.owned s (hold hu hsl)
      exact ⟨(m.mem_store key _ value).mpr (.inr hmem), search_of_grows h.table hins.inv
        (hU.short _ (h.keys _ hmem)) (fun a ha => ⟨(hins.keeps ha).1, (hins.keeps ha).2.1⟩) hins.links hfound⟩
  · intro s hu j hj
    by_cases hsl : s = slot
    · subst hsl
      rw [update_self] at hj ⊢
      have hlen := hU.short _ hkey
      rw [← hikey] at hj hlen ⊢
      exact hins.entry.key j hj (by omega)
    · rw [update_of_ne hsl] at hj ⊢
      rw [(hins.keeps (hold hu hsl)).2.1]
      exact h.key s (hold hu hsl) j hj
  · intro s e hu he
    by_cases hsl : s = slot
    · subst hsl
      rw [update_self] at he
      obtain ⟨e', he', hvalue⟩ := m.lookup_store key value
      obtain rfl : e' = e := by rw [he'] at he; exact Option.some.inj he
      subst hvalue
      refine ⟨hins.entry.length.trans hilen, ?_⟩
      rw [hins.entry.memOffset, hioff]
      dsimp only
      rw [bytesAt_copyIn _ _ (by omega), bytesAt_getD]
    · have hu' := hold hu hsl
      rw [update_of_ne hsl, KvMap.lookup_store_of_ne (hne hu')] at he
      obtain ⟨-, -, hoff, hlen⟩ := hins.keeps hu'
      obtain ⟨hlength, hbytes⟩ := h.value s e hu' he
      have hbelow := h.laid.below s hu'
      rw [KvMap.room_of_lookup he, h.latest] at hbelow
      have hfits := e.fits
      refine ⟨hlen.trans hlength, ?_⟩
      dsimp only
      rw [hoff, bytesAt_copyIn_apart _ _ (by omega) (.inl (by omega)), hbytes]
  · have hpush : Laid (fun s => (t' s).used = true) (fun s => (t' s).memOffset)
        (fun s => (m.store key value).room (update owner slot key s))
        (m.allotted + (m.store key value).room (update owner slot key slot)) := by
      rw [← h.latest]
      refine h.laid.push (hins.entry.memOffset.trans (hioff.trans h.latest.symm)) fun s hu hsl => ?_
      have hu' := hold hu hsl
      rw [update_of_ne hsl, KvMap.room_store_of_ne (hne hu')]
      exact ⟨hu', (hins.keeps hu').2.2.1, rfl⟩
    rw [update_self, KvMap.room_store_new hnone] at hpush
    exact hpush

/-- Another value in the bytes that are reserved for a key. -/
theorem Represents.overwrite (h : Represents U storageSize owner d m) (hU : KeySpace U) (hsize : storageSize < 2 ^ 64)
    (hsome : m.entries.lookup key = some e) (hle : value.length ≤ e.room)
    (hs : search d.ftl.table key = .ok (some slot)) (host : Mem) :
    Represents U storageSize owner
      { ftl := { d.ftl with
          table := withLengths d.ftl.table (update (fun s => (d.ftl.table s).length) slot value.length) }
        ms :=
          { host
            storage := copyIn d.ms.storage (d.ftl.table slot).memOffset (value.getD · 0) value.length } }
      (m.store key value) := by
  obtain ⟨slot', hs', hu, hown⟩ := h.search_some hsome
  obtain rfl : slot = slot' := by simpa [hs] using hs'
  have hroom (s : Nat) : (m.store key value).room (owner s) = m.room (owner s) := by
    by_cases hk : owner s = key
    · rw [hk, KvMap.room_store_old hsome hle]
    · exact KvMap.room_store_of_ne hk
  have hmem {k : Key} : k ∈ (m.store key value).entries ↔ k ∈ m.entries := by
    rw [KvMap.mem_store]
    exact ⟨fun hor => hor.elim (fun he => he ▸ Finmap.mem_of_lookup_eq_some hsome) id, .inr⟩
  have hslot := h.laid.below slot hu
  rw [hown, KvMap.room_of_lookup hsome, h.latest] at hslot
  have hlat := h.le
  refine ⟨h.table.withLengths _, h.size, ?_, ?_, ?_, ?_, ?_, ?_, ?_, ?_⟩
  · rw [KvMap.allotted_store_old hsome]
    exact h.latest
  · rw [KvMap.allotted_store_old hsome]
    exact h.le
  · exact fun k hk => h.keys k (hmem.mp hk)
  · exact fun k hk => h.found k (hmem.mp hk)
  · intro s hu'
    obtain ⟨hk, hfound⟩ := h.owned s hu'
    refine ⟨hmem.mpr hk, ?_⟩
    rw [search_withLengths _ _ (hU.short _ (h.keys _ hk))]
    exact hfound
  · exact h.key
  · intro s e' hu' he'
    by_cases hsl : s = slot
    · subst hsl
      obtain ⟨e₁, he₁, hvalue⟩ := m.lookup_store key value
      rw [hown, he₁] at he'
      cases he'
      subst hvalue
      refine ⟨by simp [withLengths], ?_⟩
      dsimp only [withLengths]
      rw [bytesAt_copyIn _ _ (by omega), bytesAt_getD]
    · have hk : owner s ≠ key := fun hk => hsl (h.eq_of_owner hu' hu (hk.trans hown.symm))
      rw [KvMap.lookup_store_of_ne hk] at he'
      obtain ⟨hlength, hbytes⟩ := h.value s e' hu' he'
      have hapart := h.laid.apart slot s hu hu' (Ne.symm hsl)
      rw [hown, KvMap.room_of_lookup hsome, KvMap.room_of_lookup he'] at hapart
      have hfits := e'.fits
      refine ⟨by simpa [withLengths, hsl] using hlength, ?_⟩
      dsimp only [withLengths]
      rw [bytesAt_copyIn_apart _ _ (by omega) (by omega), hbytes]
  · refine ⟨fun s hu' => ?_, fun s s' hu₁ hu₂ hne => ?_⟩
    · rw [hroom]
      exact h.laid.below s hu'
    · rw [hroom, hroom]
      exact h.laid.apart s s' hu₁ hu₂ hne

/-- A new key, where there is room for it. -/
theorem Represents.run_insertion (h : Represents U storageSize owner d m) (hU : KeySpace U)
    (hkey : U key) (hsize : storageSize < 2 ^ 64) (hnone : m.entries.lookup key = none)
    (hacc : m.allotted < storageSize ∧ m.allotted + value.length ≤ storageSize ∧
      m.entries.keys.card < hashSlots)
    (hikey : i.key = key) (hioff : i.offset = m.allotted) (hilen : i.length = value.length) (host : Mem) :
    Total (i.run { d.ftl with latest := m.allotted + value.length }) fun f' =>
      ∃ owner', Represents U storageSize owner'
        { ftl := f', ms := { host, storage := copyIn d.ms.storage m.allotted (value.getD · 0) value.length } }
        (m.store key value) := by
  obtain ⟨hlt, hle, hcard⟩ := hacc
  have hroom : i.Room { d.ftl with latest := m.allotted + value.length } :=
    ⟨by rw [hioff]; exact Nat.lt_of_lt_of_eq hlt h.size.symm, h.exists_free hcard⟩
  rw [← h.size] at hsize
  have hfits : i.KeyFits := by
    have hshort := hU.short _ hkey
    unfold Insertion.KeyFits
    rw [hikey]
    exact Nat.le_trans hshort (by decide)
  refine (Insertion.run_spec (f := { d.ftl with latest := m.allotted + value.length }) h.table hsize
    hroom hfits).mono ?_
  rintro f' ⟨t', slot, rfl, hins⟩
  rw [h.size] at hsize
  exact ⟨_, h.insert hU hkey hsize hnone hle hins hikey hioff hilen host⟩

theorem KvCommand.length_value (cmd : KvCommand) (host : Mem) :
    (cmd.value host).length = cmd.valueLength := by
  simp [KvCommand.value]

/-- The copy loop of a store puts the value into the storage. -/
theorem kvTransfer_value (cmd : KvCommand) (off : Nat) (ms : Prp.Memories) :
    kvTransfer cmd .toStorage cmd.valueLength off ms =
      { host := ms.host
        storage := copyIn ms.storage off ((cmd.value ms.host).getD · 0) (cmd.value ms.host).length } := by
  rw [kvTransfer_toStorage, cmd.length_value]
  congr 1
  refine copyIn_congr fun k hk => ?_
  simp [KvCommand.value, hk]

theorem withLengths_self (t : Nat → MappingEntry) (slot : Nat) :
    withLengths t (update (fun s => (t s).length) slot (t slot).length) = t := by
  funext s
  rw [Function.update_eq_self]
  rfl

/-- A store command. -/
theorem Represents.kvStore (h : Represents U storageSize owner d m) (hU : KeySpace U)
    (hkey : U cmd.key) (hsize : storageSize < 2 ^ 64)
    (hacc : m.Accepts KvMap.smallLengths storageSize cmd.key cmd.valueLength) :
    Total (Nvmev.kvStore d cmd) fun d' =>
      ∃ owner', Represents U storageSize owner' d' (m.store cmd.key (cmd.value d.ms.host)) := by
  unfold KvMap.Accepts at hacc
  cases hlookup : m.entries.lookup cmd.key with
  | none =>
    simp only [hlookup] at hacc
    obtain ⟨hlt, hle, hcard⟩ := hacc
    rw [← cmd.length_value d.ms.host] at hle
    have hrun := h.run_insertion (i := .byCommand cmd m.allotted) hU hkey hsize hlookup
      ⟨hlt, hle, hcard⟩ rfl rfl (cmd.length_value d.ms.host).symm d.ms.host
    rw [kvStore_insert (h.search_none hU hkey hlookup), allocateMemOffset_eq, h.latest]
    · rw [cmd.length_value] at hrun
      refine hrun.bind fun f' hf' => .ret ?_
      rw [kvTransfer_value, cmd.length_value]
      exact hf'
    · rw [h.latest, h.size, ← cmd.length_value d.ms.host]
      exact hle
    · rw [h.latest, h.size]
      exact hlt
    · rw [h.size]
      exact hsize
  | some e =>
    simp only [hlookup] at hacc
    obtain ⟨slot, hs, hu, hown⟩ := h.search_some hlookup
    have hlen := (h.value slot e hu (by rw [hown]; exact hlookup)).1
    have hroom : (cmd.value d.ms.host).length ≤ e.room := by
      rw [cmd.length_value]
      rcases hacc with heq | ⟨-, hle⟩
      · rw [heq]
        exact e.fits
      · exact hle
    rw [kvStore_update hs, updatedTable_eq (by
      rw [hlen]
      exact hacc.imp_right fun hc => hc.1)]
    have hupd := h.overwrite hU hsize hlookup hroom hs d.ms.host
    rw [cmd.length_value] at hupd
    rw [kvTransfer_value, cmd.length_value]
    exact .ret ⟨owner, hupd⟩

/-- A store of a batch. -/
theorem Represents.batchStore {s : BatchStore} (h : Represents U storageSize owner d m)
    (hU : KeySpace U) (hkey : U s.key) (hsize : storageSize < 2 ^ 64)
    (hacc : m.Accepts (fun _ _ => False) storageSize s.key s.value.length) :
    Total (s.perform d) fun d' =>
      ∃ owner', Represents U storageSize owner' d' (m.store s.key s.value) := by
  have hbytes : keyBytes (s.key.getD · 0) s.key.length = s.key := bytesAt_getD s.key
  have hvle := s.value_le
  have hlong : ulong s.value.length = s.value.length :=
    ulong_of_lt (by unfold valueBufferSize at hvle; omega)
  unfold KvMap.Accepts at hacc
  unfold BatchStore.perform
  cases hlookup : m.entries.lookup s.key with
  | none =>
    simp only [hlookup] at hacc
    have hs := h.search_none hU hkey hlookup
    have hrun := h.run_insertion (i := .byKey (s.key.getD · 0) s.key.length s.value.length m.allotted)
      hU hkey hsize hlookup hacc hbytes rfl hlong d.ms.host
    have halloc : allocateMemOffsetByLength d.ftl s.value.length =
        (m.allotted, { d.ftl with latest := m.allotted + s.value.length }) := by
      have hne : m.allotted ≠ noOffset := by unfold noOffset; omega
      unfold allocateMemOffsetByLength
      simp only [h.latest, hlong, hne, ↓reduceIte]
      rw [u64_of_lt (by omega)]
    rw [doPerformKvBatchedIo_insert (by rw [hbytes]; exact hs), halloc, hlong]
    exact hrun.bind fun f' hf' => .ret hf'
  | some e =>
    simp only [hlookup] at hacc
    obtain ⟨slot, hs, hu, hown⟩ := h.search_some hlookup
    have hlen := (h.value slot e hu (by rw [hown]; exact hlookup)).1
    have heq : s.value.length = e.value.length := hacc.resolve_right fun hc => hc.1
    have hroom : s.value.length ≤ e.room := by
      rw [heq]
      exact e.fits
    have hupd := h.overwrite hU hsize hlookup hroom hs d.ms.host
    rw [heq, ← hlen, withLengths_self] at hupd
    rw [doPerformKvBatchedIo_update (by rw [hbytes]; exact hs), hlong, heq, ← hlen]
    exact .ret ⟨owner, hupd⟩

/-- The stores of a batch. -/
theorem Represents.batchStores {stores : List BatchStore} (h : Represents U storageSize owner d m)
    (hU : KeySpace U) (hkeys : ∀ s ∈ stores, U s.key) (hsize : storageSize < 2 ^ 64)
    (hacc : m.AcceptsAll storageSize stores) :
    Total (stores.foldlM BatchStore.perform d) fun d' => ∃ owner', Represents U storageSize owner' d'
      (stores.foldl (fun m s => m.store s.key s.value) m) := by
  induction stores generalizing d m owner with
  | nil => exact .ret ⟨owner, h⟩
  | cons s stores ih =>
    rw [List.foldlM_cons]
    refine (h.batchStore hU (hkeys s (by simp)) hsize hacc.1).bind fun d' hd' => ?_
    obtain ⟨owner', h'⟩ := hd'
    exact ih h' (fun s hs => hkeys s (by simp [hs])) hacc.2

/-! ## The other commands -/

/-- A key that does not need the cleared slot stays. -/
theorem search_clear_spared (h : TableInv t) {s : Nat} (hs : search t key = .ok (some s))
    (hspared : slot ∉ compared t key) : search (update t slot .cleared) key = .ok (some s) := by
  obtain ⟨l, hc, -, hl, -⟩ := h.chain key
  have hcompared : compared t key = upTo (fun i => (t i).agrees key) l := comparedFrom_eq hc (by omega)
  rw [search_eq hc hl, Except.ok.injEq] at hs
  rw [hcompared] at hspared
  rw [search_clear hc hl, (find_before hs).mpr hspared]

/-- A delete of a key whose slot no other key needs. -/
theorem Represents.delete (h : Represents U storageSize owner d m)
    (hsome : m.entries.lookup key = some e) (hs : search d.ftl.table key = .ok (some slot))
    (hspared : ∀ k ∈ m.entries.keys, k ≠ key → slot ∉ compared d.ftl.table k) :
    Represents U storageSize owner
      { d with ftl := { d.ftl with table := update d.ftl.table slot .cleared } }
      { m with entries := m.entries.erase key } := by
  obtain ⟨slot', hs', hu, hown⟩ := h.search_some hsome
  obtain rfl : slot = slot' := by simpa [hs] using hs'
  have hold {s : Nat} (hu' : (update d.ftl.table slot .cleared s).used = true) :
      s ≠ slot ∧ (d.ftl.table s).used = true := by
    by_cases hsl : s = slot
    · subst hsl
      simp [MappingEntry.used, MappingEntry.cleared] at hu'
    · rw [update_of_ne hsl] at hu'
      exact ⟨hsl, hu'⟩
  have hne {s : Nat} (hsl : s ≠ slot) (hu' : (d.ftl.table s).used = true) : owner s ≠ key :=
    fun heq => hsl (h.eq_of_owner hu' hu (heq.trans hown.symm))
  have hroom {s : Nat} (hsl : s ≠ slot) (hu' : (d.ftl.table s).used = true) :
      KvMap.room { m with entries := m.entries.erase key } (owner s) = m.room (owner s) := by
    unfold KvMap.room
    rw [Finmap.lookup_erase_ne (hne hsl hu')]
  refine ⟨h.table.clear slot, h.size, h.latest, h.le, ?_, ?_, ?_, ?_, ?_, ?_⟩
  · exact fun k hk => h.keys k (Finmap.mem_erase.mp hk).2
  · intro k hk
    obtain ⟨hkey, hk⟩ := Finmap.mem_erase.mp hk
    obtain ⟨s, hu', rfl⟩ := h.found k hk
    have hsl : s ≠ slot := by
      rintro rfl
      exact hkey hown
    refine ⟨s, ?_, rfl⟩
    dsimp only
    rwa [update_of_ne hsl]
  · intro s hu'
    obtain ⟨hsl, hu'⟩ := hold hu'
    obtain ⟨hmem, hfound⟩ := h.owned s hu'
    exact ⟨Finmap.mem_erase.mpr ⟨hne hsl hu', hmem⟩, search_clear_spared h.table hfound
      (hspared _ (Finmap.mem_keys.mpr hmem) (hne hsl hu'))⟩
  · intro s hu'
    obtain ⟨hsl, hu'⟩ := hold hu'
    dsimp only
    rw [update_of_ne hsl]
    exact h.key s hu'
  · intro s e' hu' he'
    obtain ⟨hsl, hu'⟩ := hold hu'
    rw [Finmap.lookup_erase_ne (hne hsl hu')] at he'
    dsimp only
    rw [update_of_ne hsl]
    exact h.value s e' hu' he'
  · refine ⟨fun s hu' => ?_, fun s s' hu₁ hu₂ hss => ?_⟩
    · obtain ⟨hsl, hu'⟩ := hold hu'
      dsimp only
      rw [update_of_ne hsl, hroom hsl hu']
      exact h.laid.below s hu'
    · obtain ⟨hsl₁, hu₁⟩ := hold hu₁
      obtain ⟨hsl₂, hu₂⟩ := hold hu₂
      dsimp only
      rw [update_of_ne hsl₁, update_of_ne hsl₂, hroom hsl₁ hu₁, hroom hsl₂ hu₂]
      exact h.laid.apart s s' hu₁ hu₂ hss

/-- The value of a key that is there, in the storage. -/
theorem Represents.stored (h : Represents U storageSize owner d m)
    (hsome : m.entries.lookup key = some e) :
    ∃ slot, search d.ftl.table key = .ok (some slot) ∧ (d.ftl.table slot).length = e.value.length ∧
      (d.ftl.table slot).memOffset + e.value.length ≤ storageSize ∧
      ∀ i < e.value.length, d.ms.storage ((d.ftl.table slot).memOffset + i) = e.value.getD i 0 := by
  obtain ⟨slot, hs, hu, hown⟩ := h.search_some hsome
  obtain ⟨hlen, hbytes⟩ := h.value slot e hu (by rw [hown]; exact hsome)
  have hlimit := h.laid.below slot hu
  rw [hown, KvMap.room_of_lookup hsome, h.latest] at hlimit
  have hle := h.le
  have hfits := e.fits
  exact ⟨slot, hs, hlen, by omega, fun i hi => getD_of_bytesAt hbytes hi⟩

/-- A command returns what the map does, with its bytes in the buffer. -/
def Answers (U : Key → Prop) (storageSize : Nat) (host : Mem) (cmd : KvCommand)
    (answer : (KvReply × List UInt8) × KvMap) (r : KvReply × KvDev) : Prop :=
  r.1 = answer.1.1 ∧
    (List.range r.1.result).map (fun i => r.2.ms.host (cmd.valueAddr host i)) = answer.1.2 ∧
    ∃ owner, Represents U storageSize owner r.2 answer.2

/-- A retrieve of a key that is there. -/
theorem Represents.retrieve (h : Represents U storageSize owner d m) (hsize : storageSize < 2 ^ 64)
    (hop : cmd.opcode = .kvRetrieve) (hsome : m.entries.lookup cmd.key = some e)
    (hbuf : Prp.IsBuffer .kmap cmd.prp1 cmd.prp2 d.ms.host cmd.valueLength {} cmd.valueLength)
    (hform : Prp.SameForm cmd.prp1 (min e.value.length cmd.valueLength) cmd.valueLength) :
    Total (doPerformKvIo d cmd) (Answers U storageSize d.ms.host cmd
      (({ result := (e.value.take cmd.valueLength).length }, e.value.take cmd.valueLength), m)) := by
  obtain ⟨slot, hs, hlen, hlimit, hstored⟩ := h.stored hsome
  have hlt := valueLength_lt cmd
  have htake : (e.value.take cmd.valueLength).length = min e.value.length cmd.valueLength := by
    rw [List.length_take, Nat.min_comm]
  rw [doPerformKvIo_retrieve hop hs, hlen]
  refine .ret ⟨by rw [htake], ?_, owner, ?_⟩
  · have hfollows : Prp.Follows .kmap cmd.prp1 cmd.prp2 d.ms.host {}
        (min e.value.length cmd.valueLength) cmd.valueLength :=
      Prp.follows_of_sameForm (Nat.min_le_right _ _) hform
    have hin := (Prp.transfer_toHost (d.ftl.table slot).memOffset d.ms
      (hbuf.shorter (Nat.min_le_right _ _) hform (Nat.le_refl _) (Nat.le_refl _)) (Nat.le_refl _)
      (by omega)).1
    refine List.ext_getElem (by rw [List.length_map, List.length_range, htake]) fun i hi _ => ?_
    have hi' : i < min e.value.length cmd.valueLength := by simpa using hi
    have haddr := (hfollows _ _ (Nat.le_refl _) (Nat.le_refl _)).1 i hi'
    rw [List.getElem_map, List.getElem_range]
    dsimp only [KvCommand.valueAddr, kvTransfer]
    rw [← haddr, hin i hi', u64_of_lt (by omega), hstored i (by omega)]
    simp [show i < e.value.length by omega]
  · have hms : (kvTransfer cmd .toHost (min e.value.length cmd.valueLength) (d.ftl.table slot).memOffset
        d.ms).storage = d.ms.storage := Prp.transfer_toHost_storage _
    refine ⟨h.table, h.size, h.latest, h.le, h.keys, h.found, h.owned, h.key, fun s e' hu he' => ?_,
      h.laid⟩
    dsimp only
    rw [hms]
    exact h.value s e' hu he'

/-! ## Runs -/

/-- A command that is no batch. -/
theorem Represents.io (h : Represents U storageSize owner d m) (hU : KeySpace U)
    (hsize : storageSize < 2 ^ 64) (hall : Allowed U storageSize d m (.io d.ms.host cmd)) :
    Total (doPerformKvIo d cmd)
      (Answers U storageSize d.ms.host cmd (m.perform (.io d.ms.host cmd))) := by
  obtain ⟨hkey, hall⟩ := hall
  unfold KvMap.perform
  dsimp only
  cases hop : cmd.opcode with
  | kvStore =>
    rw [hop] at hall
    rw [doPerformKvIo_store hop]
    exact (h.kvStore hU hkey hsize hall).bind fun d' hd' => .ret ⟨rfl, rfl, hd'⟩
  | kvRetrieve =>
    rw [hop] at hall
    cases hlookup : m.entries.lookup cmd.key with
    | none =>
      unfold doPerformKvIo
      simp only [hop, getMappingEntry_eq (h.search_none hU hkey hlookup)]
      exact .ret ⟨rfl, rfl, owner, h⟩
    | some e => exact h.retrieve hsize hop hlookup hall.1 (hall.2 e hlookup)
  | kvExist =>
    unfold doPerformKvIo
    cases hlookup : m.entries.lookup cmd.key with
    | none =>
      simp only [hop, getMappingEntry_eq (h.search_none hU hkey hlookup)]
      exact .ret ⟨rfl, rfl, owner, h⟩
    | some e =>
      obtain ⟨slot, hs, -⟩ := h.search_some hlookup
      simp only [hop, getMappingEntry_eq hs]
      exact .ret ⟨rfl, rfl, owner, h⟩
  | kvDelete =>
    rw [hop] at hall
    cases hlookup : m.entries.lookup cmd.key with
    | none =>
      rw [doPerformKvIo_delete hop (h.search_none hU hkey hlookup)]
      exact .ret ⟨rfl, rfl, owner, h⟩
    | some e =>
      obtain ⟨slot, hs, -⟩ := h.search_some hlookup
      rw [doPerformKvIo_delete hop hs]
      exact .ret ⟨rfl, rfl, owner, h.delete hlookup hs (hall slot hs)⟩
  | _ =>
    unfold doPerformKvIo
    simp only [hop]
    exact .ret ⟨rfl, rfl, owner, h⟩

/-- One command. -/
theorem kv_simulates (hU : KeySpace U) (hsize : storageSize < 2 ^ 64) :
    Refinement.Simulates (fun d m => ∃ owner, Represents U storageSize owner d m)
      (Allowed U storageSize) KvDev.perform KvMap.perform := by
  rintro d m request ⟨owner, h⟩ hall
  cases request with
  | io host cmd =>
    refine (((h.withHost host).io hU hsize hall).mapError BatchStop.bug).bind ?_
    rintro ⟨reply, d'⟩ ⟨hreply, hbytes, hd'⟩
    exact .ret ⟨Prod.ext hreply hbytes, hd'⟩
  | batch host cmd stores =>
    obtain ⟨hcarries, hkeys, hacc⟩ := hall
    have hstores := ((h.withHost host).batchStores hU hkeys hsize hacc).mapError BatchStop.bug
    unfold KvDev.perform
    dsimp only
    rw [batch_performs_stores (d := d.withHost host) hcarries]
    obtain ⟨d', hd', howner⟩ := hstores
    rw [hd']
    exact .ret ⟨rfl, howner⟩

end

theorem keySpace_length {n : Nat} (h : n ≤ keyRoom) : KeySpace fun k => k.length = n where
  short _ hk := le_of_eq_of_le hk h
  prefixFree _ _ hk hk' hpre := hpre.eq_of_length (hk.trans hk'.symm)

/-- The store of "imxa", which has the hash slot of "akcl". -/
def batchedStore : BatchStore :=
  { key := [105, 109, 120, 97], value := [1, 2, 3, 4], key_le := by decide, value_le := by decide }

/-- A store of "akcl", a batch that stores "imxa", a delete of "imxa" and a retrieve of "akcl". -/
def mapRequests : List KvRequest :=
  [.io countingHost (storeCommand [97, 107, 99, 108] 1),
    .batch (payloadHost [batchedStore]) { valueLen := 176, rsvd4 := 1 } [batchedStore],
    .io countingHost { opcode := .kvDelete, key := [105, 109, 120, 97] },
    .io countingHost { opcode := .kvRetrieve, key := [97, 107, 99, 108], valueLen := 1, prp1 := 4096 }]

end Nvmev
