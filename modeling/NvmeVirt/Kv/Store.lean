import NvmeVirt.Kv.Table

/-!
# Storing a value

The allocator reserves for the value of a key as many bytes as its first store has. A later store
of the key writes in place whatever its length, and keeps the old length unless both lengths are
small. So a store is safe when the value fits the reserved bytes and its length is recorded
(`StoreFits`); then it changes nothing of the value of another key, and a retrieve returns the value
(`store_writes_own`). A longer value runs over the next key (`longer_value_overwrites_next`).

A lookup compares no more bytes than the key has, so it can find a key that was never stored;
`StoreFits` leaves that case out. A retrieve walks along the PRPs by the length of the value, so its
buffer must have the same form (`Prp.SameForm`).
-/

namespace Nvmev

open Function Outcome CInt Bytes

/-- The keys that the commands store. -/
def storedKeys (done : List KvCommand) : List Key := done.map (·.key)

/-- The bytes that are reserved for a key: the length of its first value. -/
def reserved (done : List KvCommand) (key : Key) : Nat :=
  match done.find? fun cmd => cmd.key == key with
  | some cmd => cmd.valueLength
  | none => 0

/-- The device with other host memory. -/
def KvDev.withHost (d : KvDev) (host : Mem) : KvDev := { d with ms := { d.ms with host } }

/-- The address of byte `i` of the value of a command. -/
def KvCommand.valueAddr (cmd : KvCommand) (host : Mem) (i : Nat) : Nat :=
  Prp.dataAddr .kmap cmd.prp1 cmd.prp2 host cmd.valueLength {} cmd.valueLength i

/-- The store of `cmd` is safe after the stores `done`. A new key: it has room in a slot, and a slot and the
bytes for the value are there.
A key that is found: it is one of the keys stored, and the new value is of the old length, or both
are small and the new one fits the reserved bytes. -/
def StoreFits (done : List KvCommand) (d : KvDev) (cmd : KvCommand) : Prop :=
  (search d.ftl.table cmd.key = .ok none ∧ cmd.key.length ≤ keyRoom ∧ d.ftl.latest < d.ftl.storageSize ∧
    d.ftl.latest + cmd.valueLength ≤ d.ftl.storageSize ∧
    ∃ slot < hashSlots, (d.ftl.table slot).used = false) ∨
  ∃ slot, search d.ftl.table cmd.key = .ok (some slot) ∧ cmd.key ∈ storedKeys done ∧
    (cmd.valueLength = (d.ftl.table slot).length ∨
      cmd.valueLength ≤ smallLength ∧ (d.ftl.table slot).length ≤ smallLength ∧
      cmd.valueLength ≤ reserved done cmd.key)

/-- The runs of safe stores. The host may change its memory between two commands. -/
inductive StoreRun (storageSize : Nat) : List KvCommand → KvDev → Prop
  | init (ms : Prp.Memories) : StoreRun storageSize [] (kvInit storageSize ms)
  | store {done : List KvCommand} {d d' : KvDev} {cmd : KvCommand} {reply : KvReply}
      (h : StoreRun storageSize done d) (host : Mem) (hop : cmd.opcode = .kvStore)
      (hfit : StoreFits done d cmd)
      (hok : doPerformKvIo (d.withHost host) cmd = .ok (reply, d')) :
      StoreRun storageSize (done ++ [cmd]) d'

/-- `d'` holds the bytes of every other stored key as `d` does. -/
def KeepsOthers (done : List KvCommand) (key : Key) (d d' : KvDev) : Prop :=
  ∀ key' ∈ storedKeys done, key' ≠ key → ∃ off len,
    getMappingEntry d.ftl key' = .ok (some (off, len)) ∧
    ∀ i < len, d'.ms.storage (off + i) = d.ms.storage (off + i)

/-- A retrieve into a buffer that is large enough for the value returns it. -/
def RetrieveReturns (d : KvDev) (cmd : KvCommand) (len : Nat) (value : Nat → UInt8) : Prop :=
  cmd.opcode = .kvRetrieve → len ≤ cmd.valueLength →
    Prp.IsBuffer .kmap cmd.prp1 cmd.prp2 d.ms.host cmd.valueLength {} cmd.valueLength →
    Total (doPerformKvIo d cmd) fun r => r.1 = { result := len } ∧
      ∀ i < len, r.2.ms.host (cmd.valueAddr d.ms.host i) = value i

section

variable {done : List KvCommand} {d : KvDev} {cmd : KvCommand} {owner : Nat → Key} {key : Key}

theorem valueLength_lt (cmd : KvCommand) : cmd.valueLength < 2 ^ 32 := Nat.mod_lt _ (by decide)

theorem reserved_append_of_mem (h : key ∈ storedKeys done) (cmd : KvCommand) :
    reserved (done ++ [cmd]) key = reserved done key := by
  unfold reserved
  rw [List.find?_append]
  cases hf : done.find? fun cmd => cmd.key == key with
  | some c => rfl
  | none =>
    obtain ⟨c, hc, rfl⟩ := List.mem_map.mp h
    simpa using List.find?_eq_none.mp hf c hc

theorem reserved_append_new (h : cmd.key ∉ storedKeys done) :
    reserved (done ++ [cmd]) cmd.key = cmd.valueLength := by
  have hnone : (done.find? fun c => c.key == cmd.key) = none := by
    rw [List.find?_eq_none]
    intro c hc hkey
    exact h (List.mem_map.mpr ⟨c, hc, by simpa using hkey⟩)
  unfold reserved
  rw [List.find?_append, hnone]
  simp

theorem mem_storedKeys_append : key ∈ storedKeys (done ++ [cmd]) ↔ key ∈ storedKeys done ∨ key = cmd.key := by
  simp [storedKeys, eq_comm]

/-! ## What a run keeps -/

/-- The extents `[off i, off i + size i)` of the used `i` are apart from each other and below
`latest`. -/
structure Laid (used : Nat → Prop) (off size : Nat → Nat) (latest : Nat) : Prop where
  below : ∀ i, used i → off i + size i ≤ latest
  apart : ∀ i j, used i → used j → i ≠ j → off i + size i ≤ off j ∨ off j + size j ≤ off i

/-- One more extent, from `latest` on. -/
theorem Laid.push {used used' : Nat → Prop} {off off' size size' : Nat → Nat} {latest n : Nat}
    (h : Laid used off size latest) (hn : off' n = latest)
    (hold : ∀ i, used' i → i ≠ n → used i ∧ off' i = off i ∧ size' i = size i) :
    Laid used' off' size' (latest + size' n) where
  below i hi := by
    by_cases hin : i = n
    · subst hin
      omega
    · obtain ⟨hu, hoff, hsize⟩ := hold i hi hin
      have := h.below i hu
      omega
  apart i j hi hj hij := by
    by_cases hin : i = n
    · subst hin
      obtain ⟨hu, hoff, hsize⟩ := hold j hj (Ne.symm hij)
      have := h.below j hu
      omega
    · obtain ⟨hu, hoff, hsize⟩ := hold i hi hin
      by_cases hjn : j = n
      · subst hjn
        have := h.below i hu
        omega
      · obtain ⟨hu', hoff', hsize'⟩ := hold j hj hjn
        have := h.apart i j hu hu' hij
        omega

/-- Each used slot is the one of a stored key, `owner`; its reserved bytes are below `latest`, and
no two keys share any. -/
structure Owned (done : List KvCommand) (d : KvDev) (owner : Nat → Key) : Prop where
  table : TableInv d.ftl.table
  size : d.ftl.storageSize < 2 ^ 64
  latest : d.ftl.latest ≤ d.ftl.storageSize
  short : ∀ key ∈ storedKeys done, key.length ≤ keyRoom
  found : ∀ key ∈ storedKeys done, ∃ s, search d.ftl.table key = .ok (some s) ∧ owner s = key
  stored : ∀ s, (d.ftl.table s).used = true → owner s ∈ storedKeys done
  length : ∀ s, (d.ftl.table s).used = true →
    (d.ftl.table s).length ≤ reserved done (owner s)
  laid : Laid (fun s => (d.ftl.table s).used = true) (fun s => (d.ftl.table s).memOffset)
    (fun s => reserved done (owner s)) d.ftl.latest

theorem owned_kvInit {storageSize : Nat} (h : storageSize < 2 ^ 64) (ms : Prp.Memories)
    (owner : Nat → Key) : Owned [] (kvInit storageSize ms) owner where
  table := tableInv_kvInit _ _
  size := h
  latest := Nat.zero_le _
  short key hk := by cases hk
  found key hk := by cases hk
  stored s hs := by simp [kvInit, MappingEntry.used] at hs
  length s hs := by simp [kvInit, MappingEntry.used] at hs
  laid := ⟨fun s hs => by simp [kvInit, MappingEntry.used] at hs,
    fun s s' hs => by simp [kvInit, MappingEntry.used] at hs⟩

theorem Owned.withHost (h : Owned done d owner) (host : Mem) : Owned done (d.withHost host) owner :=
  ⟨h.table, h.size, h.latest, h.short, h.found, h.stored, h.length, h.laid⟩

/-- What a safe store does. -/
structure Stores (done : List KvCommand) (d : KvDev) (cmd : KvCommand) (owner : Nat → Key)
    (slot off : Nat) (d' : KvDev) : Prop where
  owned : ∃ owner', Owned (done ++ [cmd]) d' owner'
  found : search d'.ftl.table cmd.key = .ok (some slot)
  memOffset : (d'.ftl.table slot).memOffset = off
  length : (d'.ftl.table slot).length = cmd.valueLength
  storage : d'.ms.storage = copyIn d.ms.storage off
    (fun i => d.ms.host (cmd.valueAddr d.ms.host i)) cmd.valueLength
  inside : off + cmd.valueLength ≤ d.ftl.storageSize
  apart : ∀ s, (d.ftl.table s).used = true → owner s ≠ cmd.key →
    off + cmd.valueLength ≤ (d.ftl.table s).memOffset ∨
    (d.ftl.table s).memOffset + (d.ftl.table s).length ≤ off

theorem kvTransfer_toStorage (cmd : KvCommand) (off : Nat) (ms : Prp.Memories) :
    kvTransfer cmd .toStorage cmd.valueLength off ms = { ms with
      storage := copyIn ms.storage off (fun i => ms.host (cmd.valueAddr ms.host i))
        cmd.valueLength } := by
  have := valueLength_lt cmd
  exact Prp.transfer_toStorage _ _ _ _ _ _ (Nat.le_refl _) (by omega)

/-- The allocator gives out the bytes from `latest` on. -/
theorem allocateMemOffset_eq (h : d.ftl.latest + cmd.valueLength ≤ d.ftl.storageSize)
    (hlt : d.ftl.latest < d.ftl.storageSize) (hsize : d.ftl.storageSize < 2 ^ 64) :
    allocateMemOffset d.ftl cmd =
      (d.ftl.latest, { d.ftl with latest := d.ftl.latest + cmd.valueLength }) := by
  have hne : d.ftl.latest ≠ noOffset := by unfold noOffset; omega
  unfold allocateMemOffset
  simp only [hne, ↓reduceIte]
  rw [u64_of_lt (by omega)]

section Insert

variable {t' : Nat → MappingEntry} {slot : Nat}

theorem Owned.insert (h : Owned done d owner) (hs : search d.ftl.table cmd.key = .ok none)
    (hkey : cmd.key.length ≤ keyRoom) (hle : d.ftl.latest + cmd.valueLength ≤ d.ftl.storageSize)
    (hent : NewEntry d.ftl.table t' cmd d.ftl.latest slot) (ms : Prp.Memories) :
    Owned (done ++ [cmd])
      { ftl := { d.ftl with table := t', latest := d.ftl.latest + cmd.valueLength }, ms }
      (update owner slot cmd.key) := by
  have hnew : cmd.key ∉ storedKeys done := by
    intro hk
    obtain ⟨s, hfound, -⟩ := h.found _ hk
    rw [hs] at hfound
    cases hfound
  -- The mappings of the slots that were used stay.
  have hold {s : Nat} (hu : (t' s).used = true) (hsl : s ≠ slot) :
      (d.ftl.table s).used = true ∧ (t' s).memOffset = (d.ftl.table s).memOffset ∧
        (t' s).length = (d.ftl.table s).length := by
    rw [hent.frame s hsl] at hu ⊢
    exact ⟨hu, rfl, rfl⟩
  have hres {s : Nat} (hu : (d.ftl.table s).used = true) (hsl : s ≠ slot) :
      reserved (done ++ [cmd]) (update owner slot cmd.key s) = reserved done (owner s) := by
    rw [update_of_ne hsl]
    exact reserved_append_of_mem (h.stored s hu) cmd
  have hslot : reserved (done ++ [cmd]) (update owner slot cmd.key slot) = cmd.valueLength := by
    rw [update_self, reserved_append_new hnew]
  refine ⟨hent.inv, h.size, hle, ?_, ?_, ?_, ?_, ?_⟩
  · intro key hk
    rcases mem_storedKeys_append.mp hk with hk | rfl
    · exact h.short key hk
    · exact hkey
  · intro key hk
    rcases mem_storedKeys_append.mp hk with hk | rfl
    · obtain ⟨s, hfound, hown⟩ := h.found key hk
      refine ⟨s, hent.search_old h.table (h.short key hk) hfound, ?_⟩
      rw [update_of_ne (hent.ne_of_used (h.table.search_some hfound).2.1), hown]
    · exact ⟨slot, hent.search_new h.table hkey hs, by simp⟩
  · intro s hu
    rw [mem_storedKeys_append]
    by_cases hsl : s = slot
    · exact .inr (by simp [hsl])
    · rw [update_of_ne hsl]
      exact .inl (h.stored s (hold hu hsl).1)
  · intro s hu
    by_cases hsl : s = slot
    · subst hsl
      rw [hslot]
      exact Nat.le_of_eq hent.length
    · obtain ⟨hu', -, hlen⟩ := hold hu hsl
      rw [hres hu' hsl]
      exact Nat.le_trans (Nat.le_of_eq hlen) (h.length s hu')
  · have hpush : Laid (fun s => (t' s).used = true) (fun s => (t' s).memOffset)
        (fun s => reserved (done ++ [cmd]) (update owner slot cmd.key s))
        (d.ftl.latest + reserved (done ++ [cmd]) (update owner slot cmd.key slot)) :=
      h.laid.push hent.memOffset
        fun s hu hsl => ⟨(hold hu hsl).1, (hold hu hsl).2.1, hres (hold hu hsl).1 hsl⟩
    simpa only [hslot] using hpush

end Insert

/-- The store of a new key. -/
theorem stores_insert (h : Owned done d owner) (hs : search d.ftl.table cmd.key = .ok none)
    (hkey : cmd.key.length ≤ keyRoom) (hlt : d.ftl.latest < d.ftl.storageSize)
    (hle : d.ftl.latest + cmd.valueLength ≤ d.ftl.storageSize)
    (hfree : ∃ slot < hashSlots, (d.ftl.table slot).used = false) :
    Total (kvStore d cmd) fun d' => ∃ slot off, Stores done d cmd owner slot off d' := by
  have hne : d.ftl.latest ≠ noOffset := by
    have := h.size
    unfold noOffset
    omega
  rw [kvStore_insert hs, allocateMemOffset_eq hle hlt h.size]
  obtain ⟨f', hok⟩ : ∃ f', newMappingEntry
      { d.ftl with latest := d.ftl.latest + cmd.valueLength } cmd d.ftl.latest = .ok f' :=
    newMappingEntry_ok h.table hlt hfree (Nat.le_trans hkey (by decide))
  rw [hok, ok_bind]
  refine .ret ?_
  obtain ⟨-, t', slot, rfl, hent⟩ := newMappingEntry_spec
    (f := { d.ftl with latest := d.ftl.latest + cmd.valueLength }) h.table hne hok
  refine ⟨slot, d.ftl.latest, ⟨_, h.insert hs hkey hle hent _⟩, hent.search_new h.table hkey hs,
    hent.memOffset, hent.length, ?_, hle, ?_⟩
  · rw [kvTransfer_toStorage]
  · intro s hu _
    have := h.laid.below s hu
    have := h.length s hu
    omega

/-- The store of a key that is found. -/
theorem stores_update {slot : Nat} (h : Owned done d owner)
    (hs : search d.ftl.table cmd.key = .ok (some slot)) (hk : cmd.key ∈ storedKeys done)
    (hlen : cmd.valueLength = (d.ftl.table slot).length ∨
      cmd.valueLength ≤ smallLength ∧ (d.ftl.table slot).length ≤ smallLength ∧
      cmd.valueLength ≤ reserved done cmd.key) :
    Total (kvStore d cmd) fun d' => ∃ slot off, Stores done d cmd owner slot off d' := by
  obtain ⟨hslot, hu, -⟩ := h.table.search_some hs
  have hown : owner slot = cmd.key := by
    obtain ⟨s, hfound, hown⟩ := h.found _ hk
    obtain rfl : slot = s := by simpa [hs] using hfound
    exact hown
  have hfits : cmd.valueLength ≤ reserved done (owner slot) := by
    rcases hlen with hlen | ⟨-, -, hlen⟩
    · rw [hlen]
      exact h.length slot hu
    · rwa [hown]
  have hkeys {key : Key} : key ∈ storedKeys (done ++ [cmd]) ↔ key ∈ storedKeys done := by
    rw [mem_storedKeys_append]
    exact ⟨fun hor => hor.elim id fun he => he ▸ hk, .inl⟩
  have hres {s : Nat} (hu : (d.ftl.table s).used = true) :
      reserved (done ++ [cmd]) (owner s) = reserved done (owner s) :=
    reserved_append_of_mem (h.stored s hu) cmd
  rw [kvStore_update hs, updatedTable_eq (hlen.imp_right fun hl => ⟨hl.1, hl.2.1⟩)]
  refine .ret ⟨slot, (d.ftl.table slot).memOffset, ⟨owner, ?_⟩, ?_, rfl, ?_, ?_, ?_, ?_⟩
  · refine ⟨h.table.withLengths _, h.size, h.latest, ?_, ?_, ?_, ?_, ?_⟩
    · intro key hkey
      exact h.short key (hkeys.mp hkey)
    · intro key hkey
      simp only [search_withLengths _ _ (h.short key (hkeys.mp hkey))]
      exact h.found key (hkeys.mp hkey)
    · intro s hs
      exact hkeys.mpr (h.stored s hs)
    · intro s hs
      rw [hres hs]
      by_cases hsl : s = slot
      · subst hsl
        simpa [withLengths] using hfits
      · simpa [withLengths, hsl] using h.length s hs
    · refine ⟨fun s hs => ?_, fun s s' hs hs' hne => ?_⟩
      · rw [hres hs]
        exact h.laid.below s hs
      · rw [hres hs, hres hs']
        exact h.laid.apart s s' hs hs' hne
  · rw [search_withLengths _ _ (h.short _ hk), hs]
  · simp [withLengths]
  · rw [kvTransfer_toStorage]
  · have := h.laid.below slot hu
    have := h.latest
    omega
  · intro s hs hne
    have hss : slot ≠ s := by
      rintro rfl
      exact hne hown
    have := h.laid.apart slot s hu hs hss
    have := h.length s hs
    omega

/-- A safe store returns and keeps the invariant. -/
theorem stores_of_fits (h : Owned done d owner) (hfit : StoreFits done d cmd) :
    Total (kvStore d cmd) fun d' => ∃ slot off, Stores done d cmd owner slot off d' := by
  rcases hfit with ⟨hs, hkey, hlt, hle, hfree⟩ | ⟨slot, hs, hk, hlen⟩
  · exact stores_insert h hs hkey hlt hle hfree
  · exact stores_update h hs hk hlen

theorem StoreFits.withHost (h : StoreFits done d cmd) (host : Mem) :
    StoreFits done (d.withHost host) cmd := h

theorem doPerformKvIo_store (hop : cmd.opcode = .kvStore) :
    doPerformKvIo d cmd = (do
      let d ← kvStore d cmd
      pure ({}, d)) := by
  unfold doPerformKvIo
  rw [hop]

/-- The invariant holds in every run of safe stores. -/
theorem StoreRun.owned {storageSize : Nat} (hsize : storageSize < 2 ^ 64)
    (h : StoreRun storageSize done d) : ∃ owner, Owned done d owner := by
  induction h with
  | init ms => exact ⟨fun _ => [], owned_kvInit hsize ms _⟩
  | store h host hop hfit hok ih =>
    obtain ⟨owner, hown⟩ := ih
    obtain ⟨d', hd', slot, off, hst⟩ := stores_of_fits (hown.withHost host) (hfit.withHost host)
    rw [doPerformKvIo_store hop, hd', ok_bind] at hok
    cases hok
    exact hst.owned

/-! ## What a store does to the values -/

section

variable {slot off : Nat} {d' : KvDev}

/-- The values of the other keys stay. -/
theorem Stores.keepsOthers (hst : Stores done d cmd owner slot off d') (h : Owned done d owner) :
    KeepsOthers done cmd.key d d' := by
  intro key' hk hne
  obtain ⟨s, hfound, hown⟩ := h.found key' hk
  obtain ⟨-, hu, -⟩ := h.table.search_some hfound
  refine ⟨_, _, getMappingEntry_eq hfound, fun i hi => ?_⟩
  have hapart := hst.apart s hu (by rw [hown]; exact hne)
  have hbelow := h.laid.below s hu
  have hlen := h.length s hu
  have hsize := h.size
  have hlatest := h.latest
  have hinside := hst.inside
  rw [hst.storage]
  refine copyIn_of_ne fun k hk => ?_
  rw [u64_of_lt (by omega)]
  omega

theorem doPerformKvIo_retrieve (hop : cmd.opcode = .kvRetrieve)
    (hs : search d.ftl.table cmd.key = .ok (some slot)) :
    doPerformKvIo d cmd = .ok
      ({ result := min (d.ftl.table slot).length cmd.valueLength },
        { d with
          ms := kvTransfer cmd .toHost (min (d.ftl.table slot).length cmd.valueLength)
            (d.ftl.table slot).memOffset d.ms }) := by
  unfold doPerformKvIo
  rw [hop]
  simp only [getMappingEntry_eq hs, ok_bind]
  rfl

/-- A retrieve returns the value. -/
theorem Stores.retrieveReturns (hst : Stores done d cmd owner slot off d') (host : Mem)
    {ret : KvCommand} (hkey : ret.key = cmd.key)
    (hform : Prp.SameForm ret.prp1 cmd.valueLength ret.valueLength) :
    RetrieveReturns (d'.withHost host) ret cmd.valueLength
      fun i => d.ms.host (cmd.valueAddr d.ms.host i) := by
  intro hop hle hbuf
  have hlt := valueLength_lt cmd
  have hfound : search (d'.withHost host).ftl.table ret.key = .ok (some slot) := by
    rw [hkey]
    exact hst.found
  have hlen : min (d'.ftl.table slot).length ret.valueLength = cmd.valueLength := by
    rw [hst.length]
    omega
  rw [doPerformKvIo_retrieve hop hfound]
  simp only [KvDev.withHost, hlen, hst.memOffset] at hbuf ⊢
  refine .ret ⟨rfl, fun i hi => ?_⟩
  have hfollows : Prp.Follows .kmap ret.prp1 ret.prp2 host {} cmd.valueLength ret.valueLength :=
    Prp.follows_of_sameForm hle hform
  have hin := (Prp.transfer_toHost off { d'.ms with host }
    (hbuf.shorter hle hform (Nat.le_refl _) (Nat.le_refl _)) (Nat.le_refl _) (by omega)).1 i hi
  unfold KvCommand.valueAddr
  rw [← (hfollows _ _ (Nat.le_refl _) (Nat.le_refl _)).1 i hi]
  refine hin.trans ?_
  simp only [hst.storage]
  exact copyIn_add hi (by omega)

end

/-- In every run of safe stores, a safe store returns, changes no byte of the value of another
stored key, and a retrieve of its key returns its value. -/
theorem store_writes_own {storageSize : Nat} (hsize : storageSize < 2 ^ 64)
    (hrun : StoreRun storageSize done d) (host : Mem) (hop : cmd.opcode = .kvStore)
    (hfit : StoreFits done d cmd) :
    Total (doPerformKvIo (d.withHost host) cmd) fun r =>
      KeepsOthers done cmd.key (d.withHost host) r.2 ∧
      ∀ host' ret, ret.key = cmd.key → Prp.SameForm ret.prp1 cmd.valueLength ret.valueLength →
        RetrieveReturns (r.2.withHost host') ret cmd.valueLength
          fun i => host (cmd.valueAddr host i) := by
  obtain ⟨owner, hown⟩ := hrun.owned hsize
  rw [doPerformKvIo_store hop]
  refine (stores_of_fits (hown.withHost host) (hfit.withHost host)).bind ?_
  rintro d' ⟨slot, off, hst⟩
  exact .ret ⟨hst.keepsOthers (hown.withHost host),
    fun host' ret hkey hform => hst.retrieveReturns host' hkey hform⟩

/-- The store of `valueLen` words from the address `prp1` on under a key of one byte. -/
def storeAt (key : UInt8) (prp1 valueLen : Nat) : KvCommand :=
  { opcode := .kvStore, key := [key], valueLen, prp1 }

/-- A host memory that holds at each address the last byte of the address. -/
def countingHost : Mem := fun a => UInt8.ofNat a

/-- An update of the first of two keys, with a shorter value from elsewhere. -/
theorem store_writes_own_update :
    Total (doPerformKvIo (kvInit (2 ^ 30) ⟨countingHost, fun _ => 0⟩) (storeAt 97 0 2)) fun r =>
      Total (doPerformKvIo (r.2.withHost countingHost) (storeAt 98 16 1)) fun q =>
        Total (doPerformKvIo (q.2.withHost countingHost) (storeAt 97 32 1)) fun p =>
          KeepsOthers [storeAt 97 0 2, storeAt 98 16 1] [97] (q.2.withHost countingHost) p.2 ∧
          ∀ host' ret, ret.key = [97] → Prp.SameForm ret.prp1 4 ret.valueLength →
            RetrieveReturns (p.2.withHost host') ret 4
              fun i => countingHost ((storeAt 97 32 1).valueAddr countingHost i) := by
  obtain ⟨⟨_, d⟩, hok, hs, hlatest, hsize, hfree, ⟨_, d'⟩, hok', hs', hlen⟩ :
      Total (doPerformKvIo (kvInit (2 ^ 30) ⟨countingHost, fun _ => 0⟩) (storeAt 97 0 2)) fun r =>
        search r.2.ftl.table [98] = .ok none ∧ r.2.ftl.latest = 8 ∧
          r.2.ftl.storageSize = 2 ^ 30 ∧ (r.2.ftl.table 0).used = false ∧
          Total (doPerformKvIo (r.2.withHost countingHost) (storeAt 98 16 1)) fun q =>
            search q.2.ftl.table [97] = .ok (some (getHashSlot [97])) ∧
              (q.2.ftl.table (getHashSlot [97])).length = 8 := by
    decide +kernel
  have hfirst : StoreFits [] (kvInit (2 ^ 30) ⟨countingHost, fun _ => 0⟩) (storeAt 97 0 2) :=
    .inl ⟨by decide +kernel, by decide, by decide, by decide, 0, by decide, rfl⟩
  have hrun : StoreRun (2 ^ 30) [storeAt 97 0 2] d := .store (.init _) countingHost rfl hfirst hok
  have hsecond : StoreFits [storeAt 97 0 2] d (storeAt 98 16 1) := by
    have hnew : (storeAt 98 16 1).valueLength = 4 := by decide
    simp only [] at hlatest hsize
    exact .inl ⟨hs, by decide, by omega, by omega, 0, by decide, hfree⟩
  have hrun' : StoreRun (2 ^ 30) [storeAt 97 0 2, storeAt 98 16 1] d' :=
    .store hrun countingHost rfl hsecond hok'
  have hfit : StoreFits [storeAt 97 0 2, storeAt 98 16 1] d' (storeAt 97 32 1) := by
    refine .inr ⟨_, hs', by decide, .inr ⟨by decide, ?_, by decide⟩⟩
    rw [hlen]
    decide
  exact ⟨_, hok, _, hok', store_writes_own (by decide) hrun' countingHost rfl hfit⟩

/-- An update with a longer value changes the value of the next key. -/
theorem longer_value_overwrites_next :
    Total (kvRun (kvInit (2 ^ 30) ⟨countingHost, fun _ => 0⟩) [storeAt 97 0 1, storeAt 98 16 1])
      fun d => getMappingEntry d.ftl [98] = .ok (some (4, 4)) ∧ d.ms.storage 4 = 16 ∧
        Total (doPerformKvIo d (storeAt 97 0 2)) fun r => r.2.ms.storage 4 = 4 := by
  decide +kernel

end

end Nvmev
