import NvmeVirt.Kv.Table

/-!
# Deleting a key

`delete_mapping_entry` clears the slot of the key with its link, so it cuts every chain that comes
by the slot. A lookup of another key is left as it was exactly when it does not need the slot
(`delete_leaves_other_iff`); two keys with one hash are enough to lose the second
(`delete_loses_other`).
-/

namespace Nvmev

open Function Outcome Chains

section

variable {t : Nat → MappingEntry} {key : Key} {slot fuel : Nat} {l : List Nat}

/-- The slots whose key a lookup compares, from `slot` on. -/
def comparedFrom (t : Nat → MappingEntry) (key : Key) : Nat → Nat → List Nat
  | 0, _ => []
  | fuel + 1, slot =>
    if (t slot).used = false then []
    else if (t slot).agrees key then [slot]
    else if (t slot).nextSlot = noSlot then [slot]
    else slot :: comparedFrom t key fuel (t slot).nextSlot

/-- The slots whose key the lookup of `key` compares. -/
def compared (t : Nat → MappingEntry) (key : Key) : List Nat :=
  comparedFrom t key (hashSlots + 1) (getHashSlot key)

/-- `k` or `k'` is not found, or `k` is in a slot that a lookup of `k'` does not come by. -/
def Spared (t : Nat → MappingEntry) (k k' : Key) : Prop :=
  search t k = .ok none ∨ search t k' = .ok none ∨
    ∃ slot, search t k = .ok (some slot) ∧ slot ∉ compared t k'

theorem comparedFrom_eq (h : SlotChain t slot l) (hf : l.length < fuel) :
    comparedFrom t key fuel slot = upTo (fun i => (t i).agrees key) l := by
  induction h generalizing fuel with
  | vacant h =>
    obtain ⟨n, rfl⟩ : ∃ n, fuel = n + 1 := ⟨fuel - 1, by simp at hf; omega⟩
    simp [comparedFrom, upTo, h]
  | @last i h hn =>
    obtain ⟨n, rfl⟩ : ∃ n, fuel = n + 1 := ⟨fuel - 1, by simp at hf; omega⟩
    rw [next_none] at hn
    cases ha : (t i).agrees key <;> simp [comparedFrom, upTo, h, hn, ha]
  | @link i j l h hn hc ih =>
    obtain ⟨n, rfl⟩ : ∃ n, fuel = n + 1 := ⟨fuel - 1, by simp at hf; omega⟩
    obtain ⟨hne, rfl⟩ := next_some.mp hn
    cases ha : (t i).agrees key with
    | true => simp [comparedFrom, upTo, h, ha]
    | false => simpa [comparedFrom, upTo, h, ha, hne] using ih (by simp at hf; omega)

/-! ## A cleared slot -/

theorem used_clear (d : Nat) :
    (fun i => (update t d .cleared i).used) = update (fun i => (t i).used) d false := by
  funext i
  by_cases hi : i = d
  · subst hi
    simp [MappingEntry.used, MappingEntry.cleared]
  · simp [hi]

theorem next_clear (d : Nat) :
    (fun i => (update t d .cleared i).next) = update (fun i => (t i).next) d none := by
  funext i
  by_cases hi : i = d
  · subst hi
    simp [MappingEntry.next, MappingEntry.cleared]
  · simp [hi]

theorem TableInv.clear (h : TableInv t) (d : Nat) : TableInv (update t d .cleared) := by
  unfold TableInv
  rw [used_clear, next_clear]
  exact h.vacate d

theorem slotChain_clear (h : SlotChain t slot l) (d : Nat) :
    SlotChain (update t d .cleared) slot (before d l) := by
  unfold SlotChain
  rw [used_clear, next_clear]
  exact h.vacate d

/-- A lookup in a table with a cleared slot is one in the cut chain. -/
theorem search_clear (h : SlotChain t (getHashSlot key) l) (hl : l.length ≤ hashSlots) (d : Nat) :
    search (update t d .cleared) key =
      .ok ((before d l).find? fun i => (t i).agrees key) := by
  have hlen : (before d l).length ≤ l.length := (List.takeWhile_sublist _).length_le
  rw [search_eq (slotChain_clear h d) (by omega), Except.ok.injEq]
  refine List.find?_congr fun i hi => ?_
  rw [update_of_ne (mem_before hi)]

end

/-! ## Deletes -/

section

variable {d d' : KvDev} {cmd : KvCommand}

theorem doPerformKvIo_delete (hop : cmd.opcode = .kvDelete) {r : Option Nat}
    (hs : search d.ftl.table cmd.key = .ok r) :
    doPerformKvIo d cmd = .ok (match r with
      | none => ({ status := some kvErrKeyNotExist }, d)
      | some slot =>
        ({}, { d with ftl := { d.ftl with table := update d.ftl.table slot .cleared } })) := by
  unfold doPerformKvIo
  rw [hop]
  simp only [getMappingEntry_eq hs, ok_bind]
  cases r with
  | none => rfl
  | some slot =>
    rw [deleteMappingEntry_eq hs]
    rfl

/-- One command keeps the chains. -/
theorem tableInv_doPerformKvIo (h : TableInv d.ftl.table) :
    Partial (doPerformKvIo d cmd) fun r => TableInv r.2.ftl.table := by
  obtain ⟨r, hs⟩ := h.search cmd.key
  by_cases hop : cmd.opcode = .kvDelete
  · rw [doPerformKvIo_delete hop hs]
    cases r with
    | none => exact .ret h
    | some slot => exact .ret (h.clear slot)
  unfold doPerformKvIo
  split
  · exact (tableInv_kvStore h).bind fun d' hd' => .ret hd'
  · rw [getMappingEntry_eq hs]
    cases r <;> exact .ret h
  · rw [getMappingEntry_eq hs]
    cases r <;> exact .ret h
  · exact absurd (by assumption) hop
  · exact .ret h

theorem tableInv_kvRun {cmds : List KvCommand} (h : TableInv d.ftl.table)
    (hrun : kvRun d cmds = .ok d') : TableInv d'.ftl.table := by
  refine Partial.foldlM (I := fun d => TableInv d.ftl.table) h (fun d hd cmd _ => ?_) d' hrun
  exact (tableInv_doPerformKvIo hd).bind fun r hr => .ret hr

/-- In every state that a run reaches, a delete leaves what a lookup of a key `k'` finds, if
anything, as it is exactly when it spares `k'`. -/
theorem delete_leaves_other_iff {storageSize : Nat} {ms : Prp.Memories} {cmds : List KvCommand}
    (hrun : kvRun (kvInit storageSize ms) cmds = .ok d) (hop : cmd.opcode = .kvDelete) (k' : Key) :
    (∃ m, getMappingEntry d.ftl k' = .ok m ∧
      Total (doPerformKvIo d cmd) fun r => getMappingEntry r.2.ftl k' = .ok m) ↔
      Spared d.ftl.table cmd.key k' := by
  have h : TableInv d.ftl.table := tableInv_kvRun (tableInv_kvInit _ _) hrun
  obtain ⟨r, hs⟩ := h.search cmd.key
  obtain ⟨l, hc, -, hl, -⟩ := h.chain k'
  have hs' := search_eq hc hl
  have hcompared : compared d.ftl.table k' = upTo (fun i => (d.ftl.table i).agrees k') l :=
    comparedFrom_eq hc (by omega)
  rw [doPerformKvIo_delete hop hs]
  cases r with
  | none =>
    -- Nothing is deleted.
    exact ⟨fun _ => .inl hs, fun _ => ⟨_, getMappingEntry_eq hs', .ret (getMappingEntry_eq hs')⟩⟩
  | some slot =>
    have hafter := getMappingEntry_eq
      (f := { d.ftl with table := update d.ftl.table slot .cleared }) (search_clear hc hl slot)
    cases hf : l.find? fun i => (d.ftl.table i).agrees k' with
    | none =>
      rw [find_before_of_none slot hf] at hafter
      rw [hf] at hs'
      exact ⟨fun _ => .inr (.inl hs'), fun _ => ⟨none, getMappingEntry_eq hs', .ret hafter⟩⟩
    | some a =>
      rw [hf] at hs'
      have hiff := find_before (d := slot) hf
      constructor
      · rintro ⟨m, hm, r, hr, hm'⟩
        obtain rfl : some _ = m := by simpa [getMappingEntry_eq hs'] using hm
        cases hr
        rw [hafter] at hm'
        cases hb : (before slot l).find? fun i => (d.ftl.table i).agrees k' with
        | none => simp [hb] at hm'
        | some b =>
          -- The cut chain begins the chain, so it has no other slot for `k'`.
          obtain rfl : a = b := by simpa [hf] using find_before_some hb
          exact .inr (.inr ⟨slot, hs, hcompared ▸ hiff.mp hb⟩)
      · rintro (hnone | hnone | ⟨slot', hslot, hmem⟩)
        · rw [hs] at hnone; cases hnone
        · rw [hs'] at hnone; cases hnone
        · obtain rfl : slot = slot' := by simpa [hs] using hslot
          rw [hcompared] at hmem
          rw [hiff.mpr hmem] at hafter
          refine ⟨_, getMappingEntry_eq hs', .ret ?_⟩
          have hne : a ≠ slot := mem_before (List.mem_of_find?_eq_some (hiff.mpr hmem))
          simpa [hne] using hafter

/-- A store command with its data at address 0. -/
def storeCommand (key : Key) (valueLen : Nat) : KvCommand := { opcode := .kvStore, key, valueLen }

/-- The stores of two keys with the hash slot 7846785, "akcl" and "imxa". -/
def collidingStores : List KvCommand :=
  [storeCommand [97, 107, 99, 108] 1, storeCommand [105, 109, 120, 97] 1]

/-- The second of two colliding keys can be deleted. -/
theorem delete_leaves_other_last :
    Total (kvRun (kvInit (2 ^ 30) ⟨fun _ => 0, fun _ => 0⟩) collidingStores) fun d =>
      ∃ m, getMappingEntry d.ftl [97, 107, 99, 108] = .ok m ∧
        Total (doPerformKvIo d { opcode := .kvDelete, key := [105, 109, 120, 97] }) fun r =>
          getMappingEntry r.2.ftl [97, 107, 99, 108] = .ok m := by
  obtain ⟨d, hrun, hspared⟩ :
      Total (kvRun (kvInit (2 ^ 30) ⟨fun _ => 0, fun _ => 0⟩) collidingStores) fun d =>
        search d.ftl.table [105, 109, 120, 97] = .ok (some 7846786) ∧
          7846786 ∉ compared d.ftl.table [97, 107, 99, 108] := by
    decide +kernel
  exact ⟨d, hrun, (delete_leaves_other_iff hrun rfl _).mpr (.inr (.inr ⟨_, hspared⟩))⟩

/-- With the first of two colliding keys the second is lost. -/
theorem delete_loses_other :
    Total (kvRun (kvInit (2 ^ 30) ⟨fun _ => 0, fun _ => 0⟩) collidingStores) fun d =>
      getMappingEntry d.ftl [105, 109, 120, 97] = .ok (some (4, 4)) ∧
        Total (doPerformKvIo d { opcode := .kvDelete, key := [97, 107, 99, 108] }) fun r =>
          getMappingEntry r.2.ftl [105, 109, 120, 97] = .ok none := by
  decide +kernel

end

end Nvmev
