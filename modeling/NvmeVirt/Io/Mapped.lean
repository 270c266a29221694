import NvmeVirt.Io.Prp

/-!
# Pages with and without a page frame

`__do_perform_io` maps a page of the host with `kmap_atomic_pfn` or, if its frame has no page, with
`memremap`. The first gives the beginning of the frame and the second the byte at the address itself;
the offset in the page is added to both, and to a PRP list as a `u64` pointer after `memremap`.

`accesses` are the host bytes and list entries that a run of the loop accesses. They do not depend on
the mapping exactly if each page that is mapped with `memremap` is mapped from its first byte
(`accesses_eq_iff`).
-/

namespace Nvmev

open CInt Bytes

namespace Prp

/-- An access to the memory of the host: an entry of the PRP list, or bytes of the data. -/
inductive Access where
  | entry (addr : Nat)
  | data (addr size : Nat)
  deriving DecidableEq, Repr

section Runs

variable (M : Mapping) (prp1 prp2 : Nat) (dir : Dir)

/-- The accesses of a turn that takes the page `paddr`. -/
def turnAccesses (remaining : Nat) (c : Cursor) (paddr : Nat) : List Access :=
  (entryAddr M prp2 remaining c).map .entry ++
    if dir = .nowhere then [] else [.data (u64 (dataStart M paddr)) (ioSize remaining paddr)]

/-- The accesses of the loop. A turn is `transfer` with the bound 1. -/
def accesses : Nat → Cursor → Nat → Nat → Memories → List Access
  | 0, _, _, _, _ => []
  | fuel + 1, c, remaining, offset, ms =>
    if remaining = 0 then []
    else
      let (paddr, c') := nextPrp M prp1 prp2 ms.host remaining c
      let size := ioSize remaining paddr
      turnAccesses M prp2 dir remaining c paddr ++
        accesses fuel c' (remaining - size) (u64 (offset + size))
          (transfer M prp1 prp2 dir 1 c remaining offset ms)

/-- The addresses that a turn maps: the PRP list, when it comes to it, and the page. -/
def turnMaps (remaining : Nat) (c : Cursor) (paddr : Nat) : List Nat :=
  if c.prpOffs = 1 ∧ remaining > pageSize then [prp2, paddr] else [paddr]

/-- The addresses that the loop maps. -/
def mappedAddrs : Nat → Cursor → Nat → Nat → Memories → List Nat
  | 0, _, _, _, _ => []
  | fuel + 1, c, remaining, offset, ms =>
    if remaining = 0 then []
    else
      let (paddr, c') := nextPrp M prp1 prp2 ms.host remaining c
      let size := ioSize remaining paddr
      turnMaps prp2 remaining c paddr ++
        mappedAddrs fuel c' (remaining - size) (u64 (offset + size))
          (transfer M prp1 prp2 dir 1 c remaining offset ms)

end Runs

/-- The frame of the address has a page, or the address is the first one of its page. -/
def Plain (pfnValid : Nat → Bool) (paddr : Nat) : Prop :=
  pfnValid (paddr / pageSize) = true ∨ paddr % pageSize = 0

instance (pfnValid : Nat → Bool) (paddr : Nat) : Decidable (Plain pfnValid paddr) :=
  inferInstanceAs (Decidable (_ ∨ _))

section Mappings

variable {pfnValid : Nat → Bool} {paddr : Nat}

theorem kmap_list (paddr : Nat) : Mapping.kmap.list paddr = paddr := Nat.div_add_mod' paddr pageSize

theorem kmap_dataStart (paddr : Nat) : dataStart .kmap paddr = paddr := Nat.div_add_mod' paddr pageSize

/-- `memremap` of a list makes a difference unless it begins the page. -/
theorem remap_list_iff : (Mapping.remap pfnValid).list paddr = Mapping.kmap.list paddr ↔
    Plain pfnValid paddr := by
  rw [kmap_list]
  unfold Mapping.remap Plain
  dsimp only
  cases pfnValid (paddr / pageSize) with
  | true => simpa using Nat.div_add_mod' paddr pageSize
  | false =>
    simp only [Bool.false_eq_true, ↓reduceIte, false_or]
    omega

/-- The same of a page of data. -/
theorem remap_dataStart_iff : u64 (dataStart (.remap pfnValid) paddr) = u64 (dataStart .kmap paddr) ↔
    Plain pfnValid paddr := by
  have hoff := Nat.mod_lt paddr (show 0 < pageSize by decide)
  rw [kmap_dataStart]
  unfold dataStart Mapping.remap Plain
  dsimp only
  cases pfnValid (paddr / pageSize) with
  | true => simp [Nat.div_add_mod']
  | false =>
    simp only [Bool.false_eq_true, ↓reduceIte, false_or]
    unfold u64 pageSize at *
    omega

theorem dataStart_of_plain (h : Plain pfnValid paddr) :
    dataStart (.remap pfnValid) paddr = dataStart .kmap paddr := by
  rw [kmap_dataStart]
  unfold dataStart Mapping.remap
  dsimp only
  split
  · exact Nat.div_add_mod' paddr pageSize
  · rename_i hframe
    rw [h.resolve_left hframe]
    rfl

end Mappings

section Turn

variable {pfnValid : Nat → Bool} (prp1 : Nat) {prp2 remaining : Nat} (host : Mem) {c : Cursor}

/-- Where the list is mapped alike, the turn takes the same page. -/
theorem nextPrp_of_plain (h : c.prpOffs = 1 ∧ remaining > pageSize → Plain pfnValid prp2) :
    nextPrp (.remap pfnValid) prp1 prp2 host remaining c = nextPrp .kmap prp1 prp2 host remaining c ∧
      entryAddr (.remap pfnValid) prp2 remaining c = entryAddr .kmap prp2 remaining c := by
  unfold nextPrp entryAddr
  dsimp only
  by_cases hlist : c.prpOffs = 1 ∧ remaining > pageSize
  · rw [remap_list_iff.mpr (h hlist)]
    exact ⟨rfl, rfl⟩
  · by_cases h1 : c.prpOffs = 1
    · have hr : ¬ remaining > pageSize := fun hr => hlist ⟨h1, hr⟩
      simp [h1, hr]
    · simp [h1]

variable {dir : Dir} {fuel offset : Nat} {ms : Memories}

/-- One turn leaves the same memories. -/
theorem transfer_turn_of_plain
    (hnext : nextPrp (.remap pfnValid) prp1 prp2 ms.host remaining c =
      nextPrp .kmap prp1 prp2 ms.host remaining c)
    (hpage : Plain pfnValid (nextPrp .kmap prp1 prp2 ms.host remaining c).1) :
    transfer (.remap pfnValid) prp1 prp2 dir 1 c remaining offset ms =
      transfer .kmap prp1 prp2 dir 1 c remaining offset ms := by
  unfold transfer
  rw [hnext]
  dsimp only
  rw [dataStart_of_plain hpage]
  rfl

/-- The list entry that the turn reads, if any, is at the same place. -/
theorem entryAddr_eq_iff :
    entryAddr (.remap pfnValid) prp2 remaining c = entryAddr .kmap prp2 remaining c ↔
      (c.prpOffs = 1 ∧ remaining > pageSize → Plain pfnValid prp2) := by
  constructor
  · rintro h ⟨h1, hr⟩
    have hlist : (Mapping.remap pfnValid).list prp2 + 8 * c.prp2Offs =
        Mapping.kmap.list prp2 + 8 * c.prp2Offs := by
      simpa [entryAddr, h1, hr] using h
    exact remap_list_iff.mp (Nat.add_right_cancel hlist)
  · exact fun h => (nextPrp_of_plain 0 (fun _ => 0) h).2

theorem length_entryAddr (M M' : Mapping) :
    (entryAddr M prp2 remaining c).length = (entryAddr M' prp2 remaining c).length := by
  unfold entryAddr
  split_ifs <;> rfl

/-- The loop accesses what it would access with all frames present exactly if each address that it maps
has its frame or is the first one of its page. -/
theorem accesses_eq_iff (hdir : dir ≠ .nowhere) :
    accesses (.remap pfnValid) prp1 prp2 dir fuel c remaining offset ms =
        accesses .kmap prp1 prp2 dir fuel c remaining offset ms ↔
      ∀ p ∈ mappedAddrs .kmap prp1 prp2 dir fuel c remaining offset ms, Plain pfnValid p := by
  induction fuel generalizing c remaining offset ms with
  | zero => exact ⟨fun _ => nofun, fun _ => rfl⟩
  | succ fuel ih =>
    unfold accesses mappedAddrs turnAccesses
    by_cases h0 : remaining = 0
    · rw [if_pos h0, if_pos h0, if_pos h0]
      exact ⟨fun _ => nofun, fun _ => rfl⟩
    rw [if_neg h0, if_neg h0, if_neg h0]
    dsimp only
    rw [if_neg hdir, if_neg hdir, List.append_assoc, List.append_assoc]
    by_cases hlist : c.prpOffs = 1 ∧ remaining > pageSize → Plain pfnValid prp2
    · -- both take the same page
      obtain ⟨hnext, hentry⟩ := nextPrp_of_plain prp1 ms.host hlist
      rw [hnext, hentry, List.append_cancel_left_eq, List.singleton_append, List.singleton_append,
        List.cons.injEq, Access.data.injEq, and_iff_left rfl, remap_dataStart_iff]
      have hmaps : (∀ p ∈ turnMaps prp2 remaining c (nextPrp .kmap prp1 prp2 ms.host remaining c).1,
          Plain pfnValid p) ↔ Plain pfnValid (nextPrp .kmap prp1 prp2 ms.host remaining c).1 := by
        unfold turnMaps
        split
        · rename_i hturn
          simp [hlist hturn]
        · simp
      rw [List.forall_mem_append, hmaps]
      refine and_congr_right fun hpage => ?_
      rw [transfer_turn_of_plain prp1 hnext hpage]
      exact ih
    · -- the first turn with the list reads another entry
      constructor
      · intro h
        have hheads := (List.append_inj h (by rw [List.length_map, List.length_map, length_entryAddr])).1
        exact absurd (entryAddr_eq_iff.mp (List.map_injective_iff.mpr (fun _ _ => Access.entry.inj) hheads))
          hlist
      · intro h
        refine absurd (fun hturn => h prp2 (List.mem_append_left _ ?_)) hlist
        rw [turnMaps, if_pos hturn]
        exact List.mem_cons_self ..

/-- Then it leaves the same memories. -/
theorem transfer_of_plain
    (h : ∀ p ∈ mappedAddrs .kmap prp1 prp2 dir fuel c remaining offset ms, Plain pfnValid p) :
    transfer (.remap pfnValid) prp1 prp2 dir fuel c remaining offset ms =
      transfer .kmap prp1 prp2 dir fuel c remaining offset ms := by
  induction fuel generalizing c remaining offset ms with
  | zero => rfl
  | succ fuel ih =>
    unfold mappedAddrs at h
    by_cases h0 : remaining = 0
    · unfold transfer
      rw [if_pos h0, if_pos h0]
    rw [if_neg h0] at h
    dsimp only at h
    have hturn (M : Mapping) : transfer M prp1 prp2 dir (fuel + 1) c remaining offset ms =
        transfer M prp1 prp2 dir fuel (nextPrp M prp1 prp2 ms.host remaining c).2
          (remaining - ioSize remaining (nextPrp M prp1 prp2 ms.host remaining c).1)
          (u64 (offset + ioSize remaining (nextPrp M prp1 prp2 ms.host remaining c).1))
          (transfer M prp1 prp2 dir 1 c remaining offset ms) := by
      rw [transfer, transfer, if_neg h0, if_neg h0]
      rfl
    obtain ⟨hmaps, hrest⟩ := List.forall_mem_append.mp h
    have hlist : c.prpOffs = 1 ∧ remaining > pageSize → Plain pfnValid prp2 := by
      intro hl
      rw [turnMaps, if_pos hl] at hmaps
      exact hmaps prp2 (List.mem_cons_self ..)
    have hpage : Plain pfnValid (nextPrp .kmap prp1 prp2 ms.host remaining c).1 := by
      unfold turnMaps at hmaps
      split at hmaps <;> exact hmaps _ (by simp)
    obtain ⟨hnext, -⟩ := nextPrp_of_plain prp1 ms.host hlist
    rw [hturn, hturn, hnext, transfer_turn_of_plain prp1 hnext hpage]
    exact ih hrest

end Turn

end Prp

/-- The host bytes and list entries that `__do_perform_io` accesses, in their order. -/
def hostAccesses (M : Prp.Mapping) (cmd : RwCommand) (ms : Prp.Memories) : List Prp.Access :=
  Prp.accesses M cmd.prp1 cmd.prp2 (ioDir cmd.opcode) (cmdIoSize cmd) {} (cmdIoSize cmd) (cmdIoOffset cmd) ms

/-- The addresses that a command has `__do_perform_io` map: its PRPs, and its list. -/
def hostMaps (cmd : RwCommand) (ms : Prp.Memories) : List Nat :=
  Prp.mappedAddrs .kmap cmd.prp1 cmd.prp2 (ioDir cmd.opcode) (cmdIoSize cmd) {} (cmdIoSize cmd)
    (cmdIoOffset cmd) ms

/-- For every write, zone append or read, with any PRPs and any contents of the host memory, and every set
of frames without a page: `__do_perform_io` accesses the same bytes and list entries as with all frames
exactly if each PRP and list without a frame is at the beginning of its page. -/
theorem host_accesses_eq_iff (pfnValid : Nat → Bool) {cmd : RwCommand}
    (hop : cmd.opcode = .write ∨ cmd.opcode = .zoneAppend ∨ cmd.opcode = .read) (ms : Prp.Memories) :
    hostAccesses (.remap pfnValid) cmd ms = hostAccesses .kmap cmd ms ↔
      ∀ p ∈ hostMaps cmd ms, Prp.Plain pfnValid p := by
  refine Prp.accesses_eq_iff cmd.prp1 ?_
  rcases hop with h | h | h <;> rw [h] <;> decide

/-- And it leaves the same memories then. -/
theorem doPerformIo_of_plain {pfnValid : Nat → Bool} {cmd : RwCommand} {ms : Prp.Memories}
    (h : ∀ p ∈ hostMaps cmd ms, Prp.Plain pfnValid p) :
    doPerformIo pfnValid cmd ms = Prp.transfer .kmap cmd.prp1 cmd.prp2 (ioDir cmd.opcode) (cmdIoSize cmd) {}
      (cmdIoSize cmd) (cmdIoOffset cmd) ms := Prp.transfer_of_plain cmd.prp1 h

/-- A read of one block into the middle of page 1. -/
def offsetRead : RwCommand := { opcode := .read, slba := 0, length := 0, prp1 := 4608, prp2 := 0 }

/-- A write of three pages, whose list begins at byte 8 of page 4. -/
def offsetListWrite : RwCommand :=
  { opcode := .write, slba := 0, length := 23, prp1 := 4096, prp2 := 16392 }

/-- Memories of zeros. -/
def zeroMemories : Prp.Memories := ⟨fun _ => 0, fun _ => 0⟩

theorem host_accesses_eq_iff_one_block :
    hostAccesses (.remap fun _ => true) offsetRead zeroMemories = hostAccesses .kmap offsetRead zeroMemories ↔
      ∀ p ∈ hostMaps offsetRead zeroMemories, Prp.Plain (fun _ => true) p :=
  host_accesses_eq_iff _ (.inr (.inr rfl)) _

/-- Without a frame for page 1, the read goes 512 bytes further; without one for page 4, the second write
takes its list entries 64 bytes further. -/
theorem host_accesses_remap :
    hostAccesses (.remap fun _ => false) offsetRead zeroMemories = [.data 5120 512] ∧
      hostAccesses .kmap offsetRead zeroMemories = [.data 4608 512] ∧
      hostAccesses (.remap fun pfn => pfn ≠ 4) offsetListWrite zeroMemories =
        [.data 4096 4096, .entry 16456, .data 0 4096, .entry 16464, .data 0 4096] ∧
      hostAccesses .kmap offsetListWrite zeroMemories =
        [.data 4096 4096, .entry 16392, .data 0 4096, .entry 16400, .data 0 4096] := by
  refine ⟨?_, ?_, ?_, ?_⟩ <;> decide +kernel

end Nvmev
