import NvmeVirt.Kv.Ftl
import NvmeVirt.Lib.Chains

/-!
# The chains of the mapping table

In every state that a run reaches (`TableInv`) each chain of the table ends, so that a lookup
returns the first slot of its chain that agrees with the key (`search_eq`).
-/

namespace Nvmev

open Function Outcome Chains

/-- `next_slot`, if it is one. -/
def MappingEntry.next (e : MappingEntry) : Option Nat :=
  if e.nextSlot = noSlot then none else some e.nextSlot

/-- The chain of used slots from `slot` on. -/
abbrev SlotChain (t : Nat → MappingEntry) : Nat → List Nat → Prop :=
  Chain (fun i => (t i).used) (fun i => (t i).next)

/-- No chain comes back to a slot. -/
abbrev TableInv (t : Nat → MappingEntry) : Prop :=
  Acyclic (Finset.range hashSlots) (fun i => (t i).used) (fun i => (t i).next)

section

variable {t : Nat → MappingEntry} {key : Key} {slot fuel : Nat} {l : List Nat}

theorem next_none {e : MappingEntry} : e.next = none ↔ e.nextSlot = noSlot := by
  unfold MappingEntry.next
  split <;> simp_all

theorem next_some {e : MappingEntry} {j : Nat} :
    e.next = some j ↔ e.nextSlot ≠ noSlot ∧ e.nextSlot = j := by
  unfold MappingEntry.next
  split <;> simp_all

theorem getHashSlot_lt (key : Key) : getHashSlot key < hashSlots := Nat.mod_lt _ (by decide)

/-- Every slot starts a chain. -/
theorem TableInv.slotChain (h : TableInv t) (hs : slot < hashSlots) :
    ∃ l, SlotChain t slot l ∧ l.Nodup ∧ l.length ≤ hashSlots ∧ ∀ a ∈ l, a < hashSlots := by
  obtain ⟨l, hc, hn, hl⟩ := h.exists_chain (Finset.mem_range.mpr hs)
  refine ⟨l, hc, hn, ?_, fun a ha => Finset.mem_range.mp (hl a ha)⟩
  simpa using length_le_card hn hl

theorem TableInv.chain (h : TableInv t) (key : Key) :
    ∃ l, SlotChain t (getHashSlot key) l ∧ l.Nodup ∧ l.length ≤ hashSlots ∧
      ∀ a ∈ l, a < hashSlots :=
  h.slotChain (getHashSlot_lt key)

/-! ## Lookups -/

theorem searchFrom_eq (h : SlotChain t slot l) (hf : l.length < fuel) :
    searchFrom t key fuel slot = .ok (l.find? fun i => (t i).agrees key) := by
  induction h generalizing fuel with
  | vacant h =>
    obtain ⟨n, rfl⟩ : ∃ n, fuel = n + 1 := ⟨fuel - 1, by simp at hf; omega⟩
    simp [searchFrom, h]
  | @last i h hn =>
    obtain ⟨n, rfl⟩ : ∃ n, fuel = n + 1 := ⟨fuel - 1, by simp at hf; omega⟩
    rw [next_none] at hn
    cases ha : (t i).agrees key <;> simp [searchFrom, h, hn, ha]
  | @link i j l h hn hc ih =>
    obtain ⟨n, rfl⟩ : ∃ n, fuel = n + 1 := ⟨fuel - 1, by simp at hf; omega⟩
    obtain ⟨hne, rfl⟩ := next_some.mp hn
    cases ha : (t i).agrees key with
    | true => simp [searchFrom, h, ha]
    | false => simpa [searchFrom, h, ha, hne] using ih (by simp at hf; omega)

theorem search_eq (h : SlotChain t (getHashSlot key) l) (hl : l.length ≤ hashSlots) :
    search t key = .ok (l.find? fun i => (t i).agrees key) :=
  searchFrom_eq h (by omega)

/-- A lookup returns. -/
theorem TableInv.search (h : TableInv t) (key : Key) : ∃ r, Nvmev.search t key = .ok r := by
  obtain ⟨l, hc, -, hl, -⟩ := h.chain key
  exact ⟨_, search_eq hc hl⟩

/-- What a lookup finds is a used slot that agrees with the key. -/
theorem TableInv.search_some (h : TableInv t) (hs : Nvmev.search t key = .ok (some slot)) :
    slot < hashSlots ∧ (t slot).used = true ∧ (t slot).agrees key = true := by
  obtain ⟨l, hc, -, hl, hd⟩ := h.chain key
  rw [search_eq hc hl, Except.ok.injEq] at hs
  have hmem := List.mem_of_find?_eq_some hs
  exact ⟨hd _ hmem, hc.occupied hmem, by simpa using List.find?_some hs⟩

/-! ## New entries -/

theorem findTail_eq (h : SlotChain t slot l) (hf : l.length < fuel) (prevs : Nat) :
    findTail t fuel slot prevs = .ok (l.getLastD prevs) := by
  induction h generalizing fuel prevs with
  | vacant h =>
    obtain ⟨n, rfl⟩ : ∃ n, fuel = n + 1 := ⟨fuel - 1, by simp at hf; omega⟩
    simp [findTail, h]
  | last h hn =>
    obtain ⟨n, rfl⟩ : ∃ n, fuel = n + 1 := ⟨fuel - 1, by simp at hf; omega⟩
    simp [findTail, h, next_none.mp hn]
  | @link i j l h hn hc ih =>
    obtain ⟨n, rfl⟩ : ∃ n, fuel = n + 1 := ⟨fuel - 1, by simp at hf; omega⟩
    obtain ⟨hne, rfl⟩ := next_some.mp hn
    have hlast : (i :: l).getLastD prevs = l.getLastD i := by cases l <;> rfl
    rw [hlast, ← ih (by simp at hf; omega) i]
    simp [findTail, h, hne]

/-- The turns until the loop comes from `slot` to `r`. -/
def turns (slot r : Nat) : Nat := if slot ≤ r then r - slot else r + hashSlots - slot

/-- The second loop ends where there is a free slot. -/
theorem findFree_ok {r : Nat} (hr : r < hashSlots) (hu : (t r).used = false) :
    ∀ {fuel slot : Nat}, slot < hashSlots → turns slot r < fuel → ∃ n, findFree t fuel slot = .ok n
  | 0, _, _, hf => by omega
  | fuel + 1, slot, hs, hf => by
    unfold findFree
    by_cases h : (t slot).used = false
    · exact ⟨slot, by simp [h]⟩
    · have hne : slot ≠ r := by rintro rfl; exact h hu
      rw [if_neg h]
      refine findFree_ok hr hu ?_ ?_
      · split <;> omega
      · unfold turns at *
        split at hf <;> split <;> split <;> omega

theorem findFree_returns (hfree : ∃ r < hashSlots, (t r).used = false) (hs : slot < hashSlots) :
    ∃ n, findFree t (hashSlots + 1) slot = .ok n := by
  obtain ⟨r, hr, hu⟩ := hfree
  refine findFree_ok hr hu hs ?_
  unfold turns
  split <;> omega

theorem findFree_spec : ∀ {fuel slot r : Nat}, findFree t fuel slot = .ok r → slot < hashSlots →
    r < hashSlots ∧ (t r).used = false
  | 0, _, _, h, _ => by cases h
  | fuel + 1, slot, r, h, hs => by
    unfold findFree at h
    split at h
    · cases h
      exact ⟨hs, by assumption⟩
    · refine findFree_spec h ?_
      have : 0 < hashSlots := by decide
      split <;> omega

/-- `t'` is `t` with the mapping `cmd.key ↦ (valOffset, cmd.valueLength)` in the free slot `slot`. -/
structure NewEntry (t t' : Nat → MappingEntry) (cmd : KvCommand) (valOffset slot : Nat) : Prop where
  inside : slot < hashSlots
  vacant : (t slot).used = false
  key : ∀ i < cmd.key.length, (t' slot).key i = cmd.key.getD i 0
  memOffset : (t' slot).memOffset = valOffset
  length : (t' slot).length = cmd.valueLength
  /-- Of another slot only the link changes. -/
  frame : ∀ i ≠ slot, t' i = { t i with nextSlot := (t' i).nextSlot }
  /-- A link to a used slot stays. -/
  links : ∀ i j, (t i).next = some j → (t j).used = true → (t' i).next = some j
  inv : TableInv t'
  chain : ∀ l, SlotChain t (getHashSlot cmd.key) l → l.Nodup →
    SlotChain t' (getHashSlot cmd.key) (l ++ [slot])

variable {f f' : KvFtl} {cmd : KvCommand} {valOffset : Nat}

theorem used_setMapping (hv : valOffset ≠ noOffset) (key : Key) (slot len : Nat) :
    (fun i => (setMapping t slot key valOffset len i).used) =
      update (fun i => (t i).used) slot true := by
  funext i
  by_cases hi : i = slot
  · subst hi
    simpa [setMapping, MappingEntry.used] using hv
  · simp [setMapping, hi]

theorem next_setMapping (key : Key) (slot valOffset len : Nat) :
    (fun i => (setMapping t slot key valOffset len i).next) = fun i => (t i).next := by
  funext i
  by_cases hi : i = slot
  · subst hi
    simp [setMapping, MappingEntry.next]
  · simp [setMapping, hi]

theorem used_chainMapping (prev slot : Nat) :
    (fun i => (chainMapping t prev slot i).used) = fun i => (t i).used := by
  funext i
  by_cases hi : i = prev
  · subst hi
    simp [chainMapping, MappingEntry.used]
  · simp [chainMapping, hi]

theorem next_chainMapping (t : Nat → MappingEntry) (prev : Nat) {slot : Nat} (hs : slot < hashSlots) :
    (fun i => (chainMapping t prev slot i).next) = update (fun i => (t i).next) prev (some slot) := by
  funext i
  by_cases hi : i = prev
  · subst hi
    have : slot ≠ noSlot := by unfold hashSlots at hs; unfold noSlot; omega
    simp [chainMapping, MappingEntry.next, this]
  · simp [chainMapping, hi]

theorem key_setMapping (key : Key) (slot len : Nat) :
    ∀ i < key.length, (setMapping t slot key valOffset len slot).key i = key.getD i 0 := by
  intro i hi
  simp [setMapping, hi]

/-- A new entry at a free home slot. -/
theorem newEntry_home (h : TableInv t) (hv : valOffset ≠ noOffset)
    (hu : (t (getHashSlot cmd.key)).used = false) :
    NewEntry t (setMapping t (getHashSlot cmd.key) cmd.key valOffset cmd.valueLength) cmd valOffset
      (getHashSlot cmd.key) where
  inside := getHashSlot_lt _
  vacant := hu
  key := key_setMapping _ _ _
  memOffset := by simp [setMapping]
  length := by simp [setMapping]
  frame i hi := by simp [setMapping, hi]
  links i j hn _ := by
    rw [← hn]
    exact congrFun (next_setMapping _ _ _ _) i
  inv := by
    unfold TableInv
    rw [used_setMapping hv, next_setMapping]
    exact h.occupy (Finset.mem_range.mpr (getHashSlot_lt _)) hu fun i j hn => .inl hn
  chain l hc _ := by
    unfold SlotChain
    rw [used_setMapping hv, next_setMapping]
    cases hc with
    | vacant _ => exact .last (by simp) (h.vacant _ hu)
    | last ho _ => rw [hu] at ho; cases ho
    | link ho _ _ => rw [hu] at ho; cases ho

/-- A new entry at a free slot that is linked to the end of the chain. -/
theorem newEntry_chained {prev : Nat} (h : TableInv t) (hv : valOffset ≠ noOffset)
    (hs : slot < hashSlots) (hu : (t slot).used = false)
    (hc : SlotChain t (getHashSlot cmd.key) l) (hn : l.Nodup) (hd : ∀ a ∈ l, a < hashSlots)
    (hl : l.getLast? = some prev) :
    NewEntry t (chainMapping (setMapping t slot cmd.key valOffset cmd.valueLength) prev slot) cmd
      valOffset slot := by
  have hprev : (t prev).used = true := hc.occupied (List.mem_of_getLast? hl)
  have hne : slot ≠ prev := by
    rintro rfl
    rw [hu] at hprev
    cases hprev
  refine ⟨hs, hu, ?_, ?_, ?_, ?_, ?_, ?_, ?_⟩
  · simpa [chainMapping, hne] using key_setMapping _ _ _
  · simp [chainMapping, setMapping, hne]
  · simp [chainMapping, setMapping, hne]
  · intro i hi
    by_cases hp : i = prev
    · subst hp
      simp [chainMapping, setMapping, hi]
    · simp [chainMapping, setMapping, hi, hp]
  · intro i j hx hj
    have hp : i ≠ prev := by
      rintro rfl
      rw [hc.next_last hl hx] at hj
      cases hj
    have hnext := congrFun (next_chainMapping (setMapping t slot cmd.key valOffset cmd.valueLength)
      prev hs) i
    rw [hnext, update_of_ne hp, ← hx]
    exact congrFun (next_setMapping _ _ _ _) i
  · unfold TableInv
    rw [used_chainMapping, next_chainMapping _ _ hs, used_setMapping hv, next_setMapping]
    refine h.occupy (Finset.mem_range.mpr hs) hu fun i j hx => ?_
    by_cases hp : i = prev
    · subst hp
      rw [update_self, Option.some.injEq] at hx
      exact .inr ⟨Finset.mem_range.mpr (hd _ (List.mem_of_getLast? hl)), hprev, hx.symm⟩
    · rw [update_of_ne hp] at hx
      exact .inl hx
  · intro l' hc' _
    unfold SlotChain
    rw [used_chainMapping, next_chainMapping _ _ hs, used_setMapping hv, next_setMapping]
    obtain rfl : l' = l := hc'.unique hc
    exact hc.append hu (h.vacant _ hu) hl hn

/-- Where a new entry goes, and the slot that is chained to it, if there is one. -/
def place (t : Nat → MappingEntry) (home : Nat) : Except Bug (Nat × Option Nat) :=
  if (t home).used then do
    let (slot, prevSlot) ← findNextSlot t home
    pure (slot, some prevSlot)
  else pure (home, none)

/-- `chain_mapping`, if there is a slot to chain. -/
def linked (t : Nat → MappingEntry) (slot : Nat) : Option Nat → Nat → MappingEntry
  | none => t
  | some prev => chainMapping t prev slot

theorem newMappingEntry_eq (hv : valOffset < f.storageSize) :
    newMappingEntry f cmd valOffset = (do
      let (slot, prev) ← place f.table (getHashSlot cmd.key)
      copyKey cmd.key .newMappingEntry
      pure { f with
        table := linked (setMapping f.table slot cmd.key valOffset cmd.valueLength) slot prev }) := by
  unfold newMappingEntry place nvmevAssert
  rw [ensure_of _ hv, ok_bind]
  simp only []
  split
  · cases findNextSlot f.table (getHashSlot cmd.key) <;> rfl
  · rfl

/-- There is a place where there is a free slot. -/
theorem place_ok (h : TableInv t) (hfree : ∃ r < hashSlots, (t r).used = false) (key : Key) :
    ∃ r, place t (getHashSlot key) = .ok r := by
  unfold place
  split
  · obtain ⟨l, hc, hn, hlen, hd⟩ := h.chain key
    rename_i hhome
    obtain ⟨l', rfl⟩ := hc.head hhome
    have hlast : (getHashSlot key :: l').getLastD noSlot < hashSlots := by
      refine hd _ ?_
      rw [List.getLastD_eq_getLast?, List.getLast?_eq_some_getLast (List.cons_ne_nil _ _)]
      exact List.getLast_mem _
    obtain ⟨n, hn⟩ := findFree_returns hfree hlast
    unfold findNextSlot
    rw [findTail_eq hc (by omega), ok_bind, hn, ok_bind]
    exact ⟨_, rfl⟩
  · exact ⟨_, rfl⟩

/-- The table with the new entry in its place. -/
theorem place_spec {prev : Option Nat} (h : TableInv t) (hv : valOffset ≠ noOffset)
    (hp : place t (getHashSlot cmd.key) = .ok (slot, prev)) :
    NewEntry t (linked (setMapping t slot cmd.key valOffset cmd.valueLength) slot prev) cmd valOffset
      slot := by
  unfold place at hp
  split at hp
  · rename_i hu
    obtain ⟨⟨slot, prev⟩, hfind, hp⟩ := bind_ok.mp hp
    cases hp
    obtain ⟨l, hc, hn, hlen, hd⟩ := h.chain cmd.key
    obtain ⟨p, hp, hfind⟩ := bind_ok.mp hfind
    obtain ⟨s, hs, hfind⟩ := bind_ok.mp hfind
    cases hfind
    rw [findTail_eq hc (by omega), Except.ok.injEq] at hp
    obtain ⟨l', rfl⟩ := hc.head hu
    have hl : (getHashSlot cmd.key :: l').getLast? = some prev := by
      rw [← hp, List.getLastD_eq_getLast?, List.getLast?_eq_some_getLast (List.cons_ne_nil _ _)]
      rfl
    have hfree := findFree_spec hs (hd _ (List.mem_of_getLast? hl))
    exact newEntry_chained h hv hfree.1 hfree.2 hc hn hd hl
  · rename_i hu
    cases hp
    exact newEntry_home h hv (by simpa using hu)

theorem copyKey_of (site : Site) (h : key.length ≤ linkOffset) : copyKey key site = .ok () := ensure_of _ h

/-- `new_mapping_entry` returns where there is a free slot, and its key leaves the link alone. -/
theorem newMappingEntry_ok (h : TableInv f.table) (hv : valOffset < f.storageSize)
    (hfree : ∃ r < hashSlots, (f.table r).used = false) (hkey : cmd.key.length ≤ linkOffset) :
    ∃ f', newMappingEntry f cmd valOffset = .ok f' := by
  obtain ⟨r, hr⟩ := place_ok h hfree cmd.key
  rw [newMappingEntry_eq hv, hr, ok_bind]
  simp only [copyKey_of _ hkey]
  exact ⟨_, rfl⟩

/-- `new_mapping_entry`, where it returns. -/
theorem newMappingEntry_spec (h : TableInv f.table) (hv : valOffset ≠ noOffset)
    (hok : newMappingEntry f cmd valOffset = .ok f') :
    valOffset < f.storageSize ∧ ∃ t' slot, f' = { f with table := t' } ∧
      NewEntry f.table t' cmd valOffset slot := by
  obtain ⟨u, ha, -⟩ := bind_ok.mp hok
  have hlt : valOffset < f.storageSize := ensure_ok.mp ha
  rw [newMappingEntry_eq hlt] at hok
  obtain ⟨⟨slot, prev⟩, hp, hok⟩ := bind_ok.mp hok
  obtain ⟨-, -, hok⟩ := bind_ok.mp hok
  cases hok
  exact ⟨hlt, _, slot, rfl, place_spec h hv hp⟩

/-- A comparison with a key that ends before the numbers reads the key of the slot. -/
theorem agrees_iff {e : MappingEntry} (hkey : key.length ≤ keyRoom) :
    e.agrees key = true ↔ ∀ i < key.length, e.key i = key.getD i 0 := by
  have hbyte (i : Nat) (hi : i < key.length) : e.byte i = e.key i := if_pos (.inl (by omega))
  unfold MappingEntry.agrees
  rw [beq_iff_eq]
  constructor
  · intro heq i hi
    have hget := congrArg (·.getD i 0) heq
    simpa [hi, hbyte i hi] using hget
  · intro hall
    refine List.ext_getElem (by simp) fun i hi hi' => ?_
    simpa [hi', hbyte i hi'] using hall i hi'

/-- Such a comparison depends on the key of the slot only. -/
theorem agrees_congr {e e' : MappingEntry} (hkey : key.length ≤ keyRoom) (h : e'.key = e.key) :
    e'.agrees key = e.agrees key := by
  rw [Bool.eq_iff_iff, agrees_iff hkey, agrees_iff hkey, h]

section NewEntry

variable {t' : Nat → MappingEntry} (hnew : NewEntry t t' cmd valOffset slot)
include hnew

theorem NewEntry.ne_of_used {i : Nat} (hi : (t i).used = true) : i ≠ slot := by
  rintro rfl
  rw [hnew.vacant] at hi
  cases hi

theorem NewEntry.used_old {i : Nat} (hi : (t i).used = true) : (t' i).used = true := by
  rw [hnew.frame i (hnew.ne_of_used hi)]
  exact hi

theorem NewEntry.find_old {i : Nat} (hkey : key.length ≤ keyRoom) (hc : SlotChain t i l) :
    (l.find? fun i => (t' i).agrees key) = l.find? fun i => (t i).agrees key := by
  refine List.find?_congr fun i hi => agrees_congr hkey ?_
  rw [hnew.frame i (hnew.ne_of_used (hc.occupied hi))]

/-- A key that is found stays where it is. -/
theorem NewEntry.search_old (h : TableInv t) (hkey : key.length ≤ keyRoom) {s : Nat} (hs : Nvmev.search t key = .ok (some s)) :
    Nvmev.search t' key = .ok (some s) := by
  obtain ⟨l, hc, -, hl, -⟩ := h.chain key
  obtain ⟨l', hc', -, hl', -⟩ := hnew.inv.chain key
  have hpre : l <+: l' := hc.prefix_of_le hc' (fun i hi => hnew.used_old hi) hnew.links
  rw [search_eq hc hl, Except.ok.injEq] at hs
  rw [search_eq hc' hl', Except.ok.injEq]
  exact hpre.find?_eq_some ((hnew.find_old hkey hc).trans hs)

/-- The new key is found in the new slot. -/
theorem NewEntry.search_new (h : TableInv t) (hkey : cmd.key.length ≤ keyRoom)
    (hs : Nvmev.search t cmd.key = .ok none) :
    Nvmev.search t' cmd.key = .ok (some slot) := by
  obtain ⟨l, hc, hn, hl, -⟩ := h.chain cmd.key
  obtain ⟨l', hc', -, hl', -⟩ := hnew.inv.chain cmd.key
  obtain rfl := hc'.unique (hnew.chain l hc hn)
  rw [search_eq hc hl, Except.ok.injEq] at hs
  rw [search_eq hc' hl', Except.ok.injEq, List.find?_append, hnew.find_old hkey hc, hs]
  simp [(agrees_iff hkey).mpr hnew.key]

end NewEntry

end

/-! ## Commands -/

/-- The handler runs on the commands in order. -/
def kvRun (d : KvDev) (cmds : List KvCommand) : Except Bug KvDev :=
  cmds.foldlM (fun d cmd => do
    let (_, d) ← doPerformKvIo d cmd
    pure d) d

section

variable {d d' : KvDev} {cmd : KvCommand} {f f' : KvFtl}

theorem tableInv_kvInit (storageSize : Nat) (ms : Prp.Memories) :
    TableInv (kvInit storageSize ms).ftl.table where
  vacant _ _ := rfl
  closed i j h := by simp [kvInit, MappingEntry.next] at h
  ranked := ⟨fun _ => 0, fun i j h => by simp [kvInit, MappingEntry.next] at h⟩

theorem getMappingEntry_eq {key : Key} {r : Option Nat} (h : search f.table key = .ok r) :
    getMappingEntry f key =
      .ok (r.map fun slot => ((f.table slot).memOffset, (f.table slot).length)) := by
  unfold getMappingEntry
  rw [h]
  cases r <;> rfl

theorem updateMappingEntry_eq {r : Option Nat} (hs : search f.table cmd.key = .ok r) :
    updateMappingEntry f cmd = .ok (r.elim f fun slot => { f with
      table := update f.table slot { f.table slot with length := cmd.valueLength } }) := by
  unfold updateMappingEntry
  rw [hs]
  cases r <;> rfl

theorem deleteMappingEntry_eq {key : Key} {r : Option Nat} (hs : search f.table key = .ok r) :
    deleteMappingEntry f key =
      .ok (r.elim f fun slot => { f with table := update f.table slot .cleared }) := by
  unfold deleteMappingEntry
  rw [hs]
  cases r <;> rfl

theorem allocateMemOffset_ne (f : KvFtl) (cmd : KvCommand) :
    (allocateMemOffset f cmd).1 ≠ noOffset := by
  unfold allocateMemOffset
  simp only []
  split
  · decide
  · assumption

/-- The table with other lengths. -/
def withLengths (t : Nat → MappingEntry) (g : Nat → Nat) : Nat → MappingEntry :=
  fun i => { t i with length := g i }

theorem TableInv.withLengths {t : Nat → MappingEntry} (h : TableInv t) (g : Nat → Nat) :
    TableInv (Nvmev.withLengths t g) := h

/-- A lookup of a key that ends before the numbers reads no length. -/
theorem search_withLengths (t : Nat → MappingEntry) (g : Nat → Nat) {key : Key}
    (hkey : key.length ≤ keyRoom) : search (withLengths t g) key = search t key := by
  unfold search
  generalize hashSlots + 1 = fuel, getHashSlot key = slot
  induction fuel generalizing slot with
  | zero => rfl
  | succ fuel ih =>
    unfold searchFrom
    rw [show searchFrom (withLengths t g) key fuel (withLengths t g slot).nextSlot =
      searchFrom t key fuel (t slot).nextSlot from ih _,
      show (withLengths t g slot).agrees key = (t slot).agrees key from agrees_congr hkey rfl]
    rfl

/-- A store of a key that is not found. -/
theorem kvStore_insert (hs : search d.ftl.table cmd.key = .ok none) :
    kvStore d cmd = (do
      let ftl ← newMappingEntry (allocateMemOffset d.ftl cmd).2 cmd (allocateMemOffset d.ftl cmd).1
      let ms := kvTransfer cmd .toStorage cmd.valueLength (allocateMemOffset d.ftl cmd).1 d.ms
      pure { ftl, ms }) := by
  unfold kvStore
  rw [getMappingEntry_eq hs]
  rfl

/-- The table after a store of a key that is found in `slot`. -/
def updatedTable (t : Nat → MappingEntry) (slot length : Nat) : Nat → MappingEntry :=
  if length ≠ (t slot).length ∧ length ≤ smallLength ∧ (t slot).length ≤ smallLength then
    update t slot { t slot with length }
  else t

theorem updatedTable_eq {t : Nat → MappingEntry} {slot length : Nat}
    (h : length = (t slot).length ∨ length ≤ smallLength ∧ (t slot).length ≤ smallLength) :
    updatedTable t slot length = withLengths t (update (fun i => (t i).length) slot length) := by
  funext i
  unfold updatedTable withLengths
  by_cases hi : i = slot
  · subst hi
    by_cases hl : length = (t i).length
    · simp [hl]
    · simp [hl, h.resolve_left hl]
  · split <;> simp [hi]

theorem tableInv_updatedTable {t : Nat → MappingEntry} (h : TableInv t) (slot length : Nat) :
    TableInv (updatedTable t slot length) := by
  by_cases hl : length = (t slot).length ∨ length ≤ smallLength ∧ (t slot).length ≤ smallLength
  · rw [updatedTable_eq hl]
    exact h.withLengths _
  · have hsame : updatedTable t slot length = t := by
      unfold updatedTable
      rw [if_neg fun hc => hl (.inr hc.2)]
    rwa [hsame]

/-- A store of a key that is found. -/
theorem kvStore_update {slot : Nat} (hs : search d.ftl.table cmd.key = .ok (some slot)) :
    kvStore d cmd = .ok
      { ftl := { d.ftl with table := updatedTable d.ftl.table slot cmd.valueLength }
        ms := kvTransfer cmd .toStorage cmd.valueLength (d.ftl.table slot).memOffset d.ms } := by
  unfold kvStore updatedTable
  rw [getMappingEntry_eq hs]
  simp only [ok_bind, Option.map_some]
  split
  · rw [updateMappingEntry_eq hs]
    rfl
  · rfl

theorem tableInv_kvStore (h : TableInv d.ftl.table) :
    Partial (kvStore d cmd) fun d' => TableInv d'.ftl.table := by
  obtain ⟨r, hs⟩ := h.search cmd.key
  cases r with
  | none =>
    rw [kvStore_insert hs]
    refine Partial.bind (Q := fun f => TableInv f.table) (fun f hf => ?_) fun f hf => .ret hf
    obtain ⟨-, t', slot, rfl, hnew⟩ := newMappingEntry_spec
      (show TableInv (allocateMemOffset d.ftl cmd).2.table from h) (allocateMemOffset_ne _ _) hf
    exact hnew.inv
  | some slot =>
    rw [kvStore_update hs]
    exact .ret (tableInv_updatedTable h _ _)

end

end Nvmev
