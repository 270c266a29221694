import NvmeVirt.Kv.Walks

/-!
# Lookups of whole keys

An entry of the mapping table holds no length of its key. A lookup compares as many bytes of the
entry as the key has that it looks for, so it takes an entry whose key is longer for its own, if the
entry is on the chain of its hash slot. In every state that stores reach, a lookup of a key finds an
entry of the key itself exactly when no such entry comes first on the chain (`whole_key_iff`);
the keys "era" and "eraef" have one hash slot (`longer_key_found`).
-/

namespace Nvmev

open Function Outcome Chains CInt

/-- The bytes of the key in `struct mapping_entry`. -/
def entryKeySize : Nat := 18

/-- A store of a key: a command of its own or one of a batch. -/
inductive StoreOp where
  | single (cmd : KvCommand)
  | batched (key : Nat → UInt8) (keyLen : Nat) (value : Nat → UInt8) (valLen : Nat)

namespace StoreOp

def key : StoreOp → Key
  | single cmd => cmd.key
  | batched key keyLen _ _ => keyBytes key keyLen

def run (d : KvDev) : StoreOp → Except Bug KvDev
  | single cmd => do
    let (_, d) ← doPerformKvIo d { cmd with opcode := .kvStore }
    pure d
  | batched key keyLen value valLen => doPerformKvBatchedIo d .kvStore key keyLen value valLen

end StoreOp

/-- The key whose store filled a slot, after a store of `key` that led from `t` to `t'`. -/
def filledBy (t t' : Nat → MappingEntry) (key : Key) (owner : Nat → Key) (slot : Nat) : Key :=
  if (t slot).used = false ∧ (t' slot).used = true then key else owner slot

/-- The runs of stores, with the key that filled each used slot. The host may change its memory
between two stores. -/
inductive FillRun (storageSize : Nat) : KvDev → (Nat → Key) → Prop
  | init (ms : Prp.Memories) (owner : Nat → Key) : FillRun storageSize (kvInit storageSize ms) owner
  | store {d d' : KvDev} {owner : Nat → Key} (h : FillRun storageSize d owner) (host : Bytes.Mem)
      (op : StoreOp) (hlen : 1 ≤ op.key.length ∧ op.key.length ≤ 16)
      (hok : op.run (d.withHost host) = .ok d') :
      FillRun storageSize d' (filledBy d.ftl.table d'.ftl.table op.key owner)

/-- The offset and the length of an entry that a store of `k` filled. -/
def IsEntryOf (t : Nat → MappingEntry) (owner : Nat → Key) (k : Key) (m : Nat × Nat) : Prop :=
  ∃ slot, (t slot).used = true ∧ owner slot = k ∧ m = ((t slot).memOffset, (t slot).length)

/-- The lookups of `k` find no entry of another key, and a store of `k` changes none. -/
structure WholeKey (d : KvDev) (owner : Nat → Key) (k : Key) : Prop where
  matched : ∀ slot, search d.ftl.table k = .ok (some slot) → owner slot = k
  get : ∀ m, getMappingEntry d.ftl k = .ok (some m) → IsEntryOf d.ftl.table owner k m
  getByKey : ∀ key keyLen, keyBytes key keyLen = k →
    ∀ m, getMappingEntryByKey d.ftl key keyLen = .ok (some m) → IsEntryOf d.ftl.table owner k m
  store : ∀ (op : StoreOp), op.key = k → ∀ host d', op.run (d.withHost host) = .ok d' →
    ∀ slot, (d.ftl.table slot).used = true → owner slot ≠ k →
      d'.ftl.table slot = { d.ftl.table slot with nextSlot := (d'.ftl.table slot).nextSlot }

/-- The bytes of `k'`, with zeros after them, begin with those of `k`. -/
def Extends (k' k : Key) : Prop := ∀ i < k.length, k'.getD i 0 = k.getD i 0

/-- On the chain of the hash slot of `k`, a slot of another key that extends `k` comes after one
of `k`. -/
def OwnFirst (t : Nat → MappingEntry) (owner : Nat → Key) (k : Key) : Prop :=
  ∀ l slot l', SlotChain t (getHashSlot k) (l ++ slot :: l') → Extends (owner slot) k →
    owner slot = k ∨ ∃ slot' ∈ l, owner slot' = k

section

variable {t t' : Nat → MappingEntry} {f f' : KvFtl} {d d' : KvDev} {owner : Nat → Key} {k : Key}
  {slot : Nat} {op : StoreOp}

/-! ## One store -/

/-- The bytes of the slot after the key stay. -/
theorem key_linked_setMapping (t : Nat → MappingEntry) (slot : Nat) (key : Key) (off len : Nat)
    (prev : Option Nat) :
    (linked (setMapping t slot key off len) slot prev slot).key =
      fun i => if i < key.length then key.getD i 0 else (t slot).key i := by
  cases prev with
  | none => simp [linked, setMapping]
  | some prev =>
    by_cases hp : slot = prev
    · subst hp
      simp [linked, chainMapping, setMapping]
    · simp [linked, chainMapping, setMapping, hp]

theorem Insertion.run_inserts {i : Insertion} (h : TableInv f.table) (hne : i.offset ≠ noOffset)
    (hok : i.run f = .ok f') :
    ∃ slot, Inserts f.table f'.table i slot ∧ (f'.table slot).key =
      fun j => if j < i.key.length then i.key.getD j 0 else (f.table slot).key j := by
  by_cases hv : i.offset < f.storageSize
  · rw [Insertion.run_eq hv] at hok
    obtain ⟨⟨slot, prev⟩, hp, hok⟩ := bind_ok.mp hok
    obtain ⟨-, -, hok⟩ := bind_ok.mp hok
    cases hok
    exact ⟨slot, inserts_place h hne hp, key_linked_setMapping _ _ _ _ _ _⟩
  · obtain ⟨site, hstop⟩ := Insertion.run_stops hv
    rw [hstop] at hok
    cases hok

/-- A store of a key that is not found inserts an entry for it. -/
theorem StoreOp.run_new (hs : search d.ftl.table op.key = .ok none) (hok : op.run d = .ok d') :
    ∃ (i : Insertion) (f : KvFtl), i.key = op.key ∧ i.offset ≠ noOffset ∧
      f.table = d.ftl.table ∧ i.run f = .ok d'.ftl := by
  cases op with
  | single cmd =>
    obtain ⟨⟨reply, d₁⟩, hio, hok⟩ := bind_ok.mp hok
    cases hok
    rw [doPerformKvIo_store rfl] at hio
    obtain ⟨d₂, hstore, hio⟩ := bind_ok.mp hio
    cases hio
    have hs' : search d.ftl.table ({ cmd with opcode := .kvStore } : KvCommand).key = .ok none := hs
    rw [kvStore_insert hs'] at hstore
    obtain ⟨f₁, hnew, hstore⟩ := bind_ok.mp hstore
    cases hstore
    exact ⟨.byCommand { cmd with opcode := .kvStore } _,
      (allocateMemOffset d.ftl { cmd with opcode := .kvStore }).2, rfl, allocateMemOffset_ne _ _, rfl,
      hnew⟩
  | batched key keyLen value valLen =>
    change doPerformKvBatchedIo d .kvStore key keyLen value valLen = .ok d' at hok
    rw [doPerformKvBatchedIo_insert hs] at hok
    obtain ⟨f₁, hnew, hok⟩ := bind_ok.mp hok
    cases hok
    refine ⟨.byKey key keyLen valLen (allocateMemOffsetByLength d.ftl valLen).1,
      (allocateMemOffsetByLength d.ftl valLen).2, rfl, ?_, rfl, hnew⟩
    change (allocateMemOffsetByLength d.ftl valLen).1 ≠ noOffset
    unfold allocateMemOffsetByLength
    simp only []
    split
    · decide
    · assumption

/-- A store of a key that is found changes no more than the length of its entry. -/
theorem StoreOp.run_found (hs : search d.ftl.table op.key = .ok (some slot))
    (hok : op.run d = .ok d') :
    ∃ length, d'.ftl.table = update d.ftl.table slot { d.ftl.table slot with length } := by
  cases op with
  | single cmd =>
    obtain ⟨⟨reply, d₁⟩, hio, hok⟩ := bind_ok.mp hok
    cases hok
    rw [doPerformKvIo_store rfl] at hio
    obtain ⟨d₂, hstore, hio⟩ := bind_ok.mp hio
    cases hio
    have hs' : search d.ftl.table ({ cmd with opcode := .kvStore } : KvCommand).key =
      .ok (some slot) := hs
    rw [kvStore_update hs'] at hstore
    cases hstore
    simp only [updatedTable]
    split
    · exact ⟨_, rfl⟩
    · exact ⟨_, (update_eq_self slot d.ftl.table).symm⟩
  | batched key keyLen value valLen =>
    change doPerformKvBatchedIo d .kvStore key keyLen value valLen = .ok d' at hok
    rw [doPerformKvBatchedIo_update hs] at hok
    cases hok
    exact ⟨_, (update_eq_self slot d.ftl.table).symm⟩

/-! ## What a run keeps -/

/-- Each used slot holds the key that filled it, with zeros after it. -/
structure Filled (t : Nat → MappingEntry) (owner : Nat → Key) : Prop where
  table : TableInv t
  keys : ∀ slot, (t slot).used = true → ∀ i < entryKeySize, (t slot).key i = (owner slot).getD i 0
  blank : ∀ slot, (t slot).used = false → ∀ i < entryKeySize, (t slot).key i = 0

theorem filled_kvInit (storageSize : Nat) (ms : Prp.Memories) (owner : Nat → Key) :
    Filled (kvInit storageSize ms).ftl.table owner where
  table := tableInv_kvInit _ _
  keys slot hu := by simp [kvInit, MappingEntry.used] at hu
  blank _ _ _ _ := rfl

/-- A new length. -/
theorem Filled.update_length (h : Filled t owner) (slot length : Nat) (k : Key) :
    Filled (update t slot { t slot with length })
      (filledBy t (update t slot { t slot with length }) k owner) := by
  rw [Nvmev.update_length]
  have howner : filledBy t (withLengths t (update (fun j => (t j).length) slot length)) k owner =
      owner := by
    funext s
    unfold filledBy
    rw [if_neg]
    rintro ⟨hfree, hused⟩
    change (t s).used = true at hused
    rw [hfree] at hused
    cases hused
  rw [howner]
  exact ⟨h.table.withLengths _, h.keys, h.blank⟩

/-- A new entry. -/
theorem Filled.insert {i : Insertion} (h : Filled t owner) (hins : Inserts t t' i slot)
    (hkey : (t' slot).key = fun j => if j < i.key.length then i.key.getD j 0 else (t slot).key j) :
    Filled t' (filledBy t t' i.key owner) := by
  have hother {s : Nat} (hs : s ≠ slot) : (t' s).used = (t s).used ∧ (t' s).key = (t s).key := by
    rw [hins.frame s hs]
    exact ⟨rfl, rfl⟩
  refine ⟨hins.inv, fun s hu j hj => ?_, fun s hu j hj => ?_⟩
  · by_cases hs : s = slot
    · subst hs
      have hnew : filledBy t t' i.key owner s = i.key := if_pos ⟨hins.vacant, hu⟩
      rw [hnew, hkey]
      simp only []
      split
      · rfl
      · rename_i hlen
        rw [h.blank s hins.vacant j hj, List.getD_eq_getElem?_getD,
          List.getElem?_eq_none (by omega)]
        rfl
    · obtain ⟨hused, hkeys⟩ := hother hs
      rw [hused] at hu
      have hold : filledBy t t' i.key owner s = owner s := by
        refine if_neg ?_
        rintro ⟨hfree, -⟩
        rw [hfree] at hu
        cases hu
      rw [hold, hkeys]
      exact h.keys s hu j hj
  · have hs : s ≠ slot := by
      rintro rfl
      rw [hins.entry.used] at hu
      cases hu
    obtain ⟨hused, hkeys⟩ := hother hs
    rw [hkeys]
    exact h.blank s (by rw [← hused]; exact hu) j hj

/-- One store. -/
theorem Filled.store (h : Filled d.ftl.table owner) (hok : op.run d = .ok d') :
    Filled d'.ftl.table (filledBy d.ftl.table d'.ftl.table op.key owner) := by
  obtain ⟨r, hs⟩ := h.table.search op.key
  cases r with
  | none =>
    obtain ⟨i, f, hkey, hne, hf, hrun⟩ := StoreOp.run_new hs hok
    obtain ⟨slot, hins, hbytes⟩ := Insertion.run_inserts (by rw [hf]; exact h.table) hne hrun
    rw [hf] at hins hbytes
    rw [← hkey]
    exact h.insert hins hbytes
  | some slot =>
    obtain ⟨length, ht⟩ := StoreOp.run_found hs hok
    rw [ht]
    exact h.update_length slot length op.key

theorem FillRun.filled {storageSize : Nat} (h : FillRun storageSize d owner) :
    Filled d.ftl.table owner := by
  induction h with
  | init ms owner => exact filled_kvInit _ _ _
  | @store d d' owner h host op hlen hok ih =>
    exact Filled.store (d := d.withHost host) ih hok

/-! ## Lookups -/

/-- A comparison with the entry of a key that extends `k` succeeds. -/
theorem Filled.agrees_iff (h : Filled t owner) (hu : (t slot).used = true)
    (hk : k.length ≤ entryKeySize) : (t slot).agrees k = true ↔ Extends (owner slot) k := by
  have hroom : k.length ≤ keyRoom := Nat.le_trans hk (by decide)
  rw [Nvmev.agrees_iff hroom]
  constructor
  · intro hagree i hi
    rw [← h.keys slot hu i (by omega)]
    exact hagree i hi
  · intro hext i hi
    rw [h.keys slot hu i (by omega)]
    exact hext i hi

theorem extends_self (k : Key) : Extends k k := fun _ _ => rfl

/-- A lookup finds a slot of its key exactly when no slot of a longer one comes first. -/
theorem Filled.matched_iff (h : Filled t owner) (hk : k.length ≤ entryKeySize) :
    (∀ slot, search t k = .ok (some slot) → owner slot = k) ↔ OwnFirst t owner k := by
  obtain ⟨l, hc, -, hlen, -⟩ := h.table.chain k
  rw [search_eq hc hlen]
  have hagrees {slot : Nat} (hs : slot ∈ l) := h.agrees_iff (k := k) (hc.occupied hs) hk
  constructor
  · intro hown l₁ slot l₂ hc' hext
    obtain rfl := hc.unique hc'
    -- the lookup ends at the slot at the latest
    obtain ⟨found, hfound⟩ : ∃ found, (l₁ ++ [slot]).find? (fun i => (t i).agrees k) = some found := by
      rw [← Option.isSome_iff_exists, List.find?_isSome]
      exact ⟨slot, by simp, (hagrees (by simp)).mpr hext⟩
    have hpre : l₁ ++ [slot] <+: l₁ ++ slot :: l₂ := ⟨l₂, by simp⟩
    have hkey := hown found (congrArg Except.ok (hpre.find?_eq_some hfound))
    rcases List.mem_append.mp (List.mem_of_find?_eq_some hfound) with hmem | hmem
    · exact .inr ⟨found, hmem, hkey⟩
    · obtain rfl := List.mem_singleton.mp hmem
      exact .inl hkey
  · intro hfirst slot hs
    obtain ⟨ha, l₁, l₂, rfl, hno⟩ := List.find?_eq_some_iff_append.mp (Except.ok.inj hs)
    have hslot : slot ∈ l₁ ++ slot :: l₂ := by simp
    rcases hfirst l₁ slot l₂ hc ((hagrees hslot).mp ha) with hkey | ⟨slot', hmem, hkey⟩
    · exact hkey
    · have hmem' : slot' ∈ l₁ ++ slot :: l₂ := List.mem_append_left _ hmem
      have hext : Extends (owner slot') k := hkey ▸ extends_self _
      have hnot := hno slot' hmem
      rw [(hagrees hmem').mpr hext] at hnot
      cases hnot

/-- The entry that a lookup returns. -/
theorem Filled.isEntryOf (h : Filled f.table owner)
    (hown : ∀ slot, search f.table k = .ok (some slot) → owner slot = k) (m : Nat × Nat)
    (hm : getMappingEntry f k = .ok (some m)) : IsEntryOf f.table owner k m := by
  obtain ⟨r, hs⟩ := h.table.search k
  rw [getMappingEntry_eq hs] at hm
  rcases r with _ | slot
  · cases hm
  · cases hm
    exact ⟨slot, (h.table.search_some hs).2.1, hown slot hs, rfl⟩

/-- Where the lookups find entries of their own key, they return these, and stores change no other
entry. -/
theorem Filled.wholeKey (h : Filled d.ftl.table owner)
    (hown : ∀ slot, search d.ftl.table k = .ok (some slot) → owner slot = k) :
    WholeKey d owner k where
  matched := hown
  get := h.isEntryOf hown
  getByKey key keyLen hkey m hm := by
    rw [getMappingEntryByKey_eq, hkey] at hm
    exact h.isEntryOf hown m hm
  store op hop host d' hok s hu hne := by
    obtain ⟨r, hs⟩ := h.table.search k
    rw [← hop] at hs
    cases r with
    | none =>
      obtain ⟨i, f, -, hoff, hf, hrun⟩ := StoreOp.run_new (d := d.withHost host) hs hok
      change f.table = d.ftl.table at hf
      obtain ⟨slot, hins, -⟩ := Insertion.run_inserts (by rw [hf]; exact h.table) hoff hrun
      rw [hf] at hins
      exact hins.frame s (hins.ne_of_used hu)
    | some slot =>
      obtain ⟨length, ht⟩ := StoreOp.run_found (d := d.withHost host) hs hok
      have hslot : s ≠ slot := by
        rintro rfl
        rw [hop] at hs
        exact hne (hown s hs)
      rw [ht, update_of_ne hslot]
      rfl

/-- In every state that stores reach, lookups and stores of a key keep to the entries of this key
exactly when, on the chain of its hash slot, no entry of another key that extends it comes before
its own. -/
theorem whole_key_iff {storageSize : Nat} (hrun : FillRun storageSize d owner) (hk : k.length ≤ 16) :
    WholeKey d owner k ↔ OwnFirst d.ftl.table owner k := by
  have h := hrun.filled
  have hsize : k.length ≤ entryKeySize := by
    unfold entryKeySize
    omega
  rw [← h.matched_iff hsize]
  exact ⟨fun hw => hw.matched, fun hown => h.wholeKey hown⟩

end

/-- "imxa" has the hash slot of "akcl", whose entry does not extend it. -/
theorem whole_key_iff_colliding :
    ∃ d owner, FillRun (2 ^ 30) d owner ∧ search d.ftl.table [97, 107, 99, 108] = .ok (some 7846785) ∧
      WholeKey d owner [105, 109, 120, 97] := by
  obtain ⟨d, hok, hs, hu, hn⟩ :
      Total (StoreOp.run ((kvInit (2 ^ 30) ⟨fun _ => 0, fun _ => 0⟩).withHost fun _ => 0)
        (.single (storeCommand [97, 107, 99, 108] 1))) fun d =>
          search d.ftl.table [97, 107, 99, 108] = .ok (some 7846785) ∧
            (d.ftl.table 7846785).used = true ∧ (d.ftl.table 7846785).nextSlot = noSlot := by
    decide +kernel
  have hrun := FillRun.store (.init _ fun _ => []) _ _ (by decide) hok
  refine ⟨d, _, hrun, hs, (whole_key_iff hrun (by decide)).mpr fun l slot l' hc hext => ?_⟩
  have hhome : getHashSlot [105, 109, 120, 97] = 7846785 := by decide +kernel
  rw [hhome] at hc
  obtain ⟨rfl, rfl, rfl⟩ : l = [] ∧ slot = 7846785 ∧ l' = [] := by
    simpa [List.append_eq_singleton_iff] using hc.unique (.last hu (next_none.mpr hn))
  have howner : filledBy (kvInit (2 ^ 30) ⟨fun _ => 0, fun _ => 0⟩).ftl.table d.ftl.table
      [97, 107, 99, 108] (fun _ => []) 7846785 = [97, 107, 99, 108] := if_pos ⟨rfl, hu⟩
  have hfirst := hext 0 (by decide)
  change (filledBy (kvInit (2 ^ 30) ⟨fun _ => 0, fun _ => 0⟩).ftl.table d.ftl.table
      [97, 107, 99, 108] (fun _ => []) 7846785).getD 0 0 = 105 at hfirst
  rw [howner] at hfirst
  exact absurd hfirst (by decide)

/-- After a store of "eraef", a lookup of "era" finds its entry. -/
theorem longer_key_found :
    ∃ d owner, FillRun (2 ^ 30) d owner ∧ ¬ WholeKey d owner [101, 114, 97] := by
  obtain ⟨d, hok, hs, hu⟩ :
      Total (StoreOp.run ((kvInit (2 ^ 30) ⟨fun _ => 0, fun _ => 0⟩).withHost fun _ => 0)
        (.single (storeCommand [101, 114, 97, 101, 102] 1))) fun d =>
          search d.ftl.table [101, 114, 97] = .ok (some 15236537) ∧
            (d.ftl.table 15236537).used = true := by
    decide +kernel
  refine ⟨d, _, .store (.init _ fun _ => []) _ _ (by decide) hok, fun hw => ?_⟩
  have howner : filledBy (kvInit (2 ^ 30) ⟨fun _ => 0, fun _ => 0⟩).ftl.table d.ftl.table
      [101, 114, 97, 101, 102] (fun _ => []) 15236537 = [101, 114, 97, 101, 102] := if_pos ⟨rfl, hu⟩
  have hkey := hw.matched _ hs
  change filledBy (kvInit (2 ^ 30) ⟨fun _ => 0, fun _ => 0⟩).ftl.table d.ftl.table
      [101, 114, 97, 101, 102] (fun _ => []) 15236537 = [101, 114, 97] at hkey
  rw [howner] at hkey
  exact absurd hkey (by decide)

end Nvmev
